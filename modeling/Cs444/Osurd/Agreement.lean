import Cs444.Osurd.Plans

open blockwise

namespace cs444.osurd

variable {size : Nat} {write : Bool} {place : Nat → Nat} {k pos : Nat} {lens : List (List Nat)}

section Conditions

/-- All lengths but the last are `f`, and the last is at most `f`. -/
def Uniform (f : Nat) : List Nat → Prop
  | [] => True
  | [l] => l ≤ f
  | l :: l' :: ls => l = f ∧ Uniform f (l' :: ls)

/-- The lengths of the segments of every bio are uniform in its first one, and as many
    segments of that length end no later than the request does. -/
def WriteFits (stop : Nat) : Nat → List (List Nat) → Prop
  | _, [] => True
  | pos, b :: bs =>
    Uniform (b.headD 0) b ∧ pos + b.headD 0 * b.length ≤ stop ∧ WriteFits stop (pos + b.sum) bs

/-- All segments of a bio are as long as its first one. -/
def ReadFits (lens : List (List Nat)) : Prop :=
  ∀ b ∈ lens, ∀ l ∈ b, l = b.headD 0

/-- The lengths of a request are positive and it lies inside the device. -/
structure ShapeOk (size pos : Nat) (lens : List (List Nat)) : Prop where
  size_lt : size < 2 ^ 31
  positive : ∀ l ∈ lens.flatten, 0 < l
  inside : 512 * (pos + lens.flatten.sum) ≤ size

end Conditions

section Moves

/-- The byte offset the bio by bio mode transfers a segment at. -/
def Plan.offset (p : Plan) : Nat :=
  unsigned_long (unsigned_long p.sector * KERNEL_SECTOR_SIZE)

theorem Plan.bio_eq {p : Plan} (hsize : size < 2 ^ 31) (hns : 512 * p.nsect ≤ size)
    (hne : p.bio size write ≠ []) :
    p.bio size write =
      [if write then ⟨p.addr, p.offset, 512 * p.nsect⟩ else ⟨p.offset, p.addr, 512 * p.nsect⟩] := by
  have hnbytes : unsigned_long (unsigned_long p.nsect * KERNEL_SECTOR_SIZE) = 512 * p.nsect := by
    simp only [unsigned_long, KERNEL_SECTOR_SIZE]
    omega
  simp only [Plan.bio, transferMoves, hnbytes] at hne ⊢
  split
  · rename_i hrefused
    rw [if_pos hrefused] at hne
    exact absurd rfl hne
  · cases write <;> rfl

theorem ShapeOk.plan (hok : ShapeOk size pos lens) (write : Bool) {p : Plan}
    (hp : p ∈ plans place k pos lens) :
    0 < p.len ∧ 512 * (p.pos + p.len) ≤ size ∧ 512 * p.nsect ≤ size ∧
      p.direct size write =
        [if write then ⟨p.addr, 512 * p.pos, 512 * p.len⟩ else ⟨512 * p.pos, p.addr, 512 * p.len⟩] := by
  obtain ⟨-, -, -, -, hend, hlen, hns⟩ := mem_plans hp
  have hin := hok.inside
  have hle := List.le_sum_of_mem hns
  have hinside : 512 * (p.pos + p.len) ≤ size := by omega
  exact ⟨hok.positive _ hlen, hinside, by omega, transferMoves_inside hok.size_lt hinside write⟩

/-- A byte of a segment comes from that segment when the segments are transferred one by
    one. -/
theorem origin_direct (hok : ShapeOk size pos lens) (write : Bool)
    (hdisj : (plans place k pos lens).Pairwise Plan.Disjoint) {p : Plan} (hp : p ∈ plans place k pos lens)
    {t : Nat} (ht : t < 512 * p.len) :
    origin ((plans place k pos lens).flatMap (Plan.direct size write))
        (if write then 512 * p.pos + t else p.addr + t) =
      some (if write then p.addr + t else 512 * p.pos + t) := by
  obtain ⟨-, -, -, hdirect⟩ := hok.plan write hp
  set o : Move := if write then ⟨p.addr, 512 * p.pos, 512 * p.len⟩ else ⟨512 * p.pos, p.addr, 512 * p.len⟩
    with ho
  have hmem : o ∈ (plans place k pos lens).flatMap (Plan.direct size write) :=
    List.mem_flatMap.mpr ⟨p, hp, by rw [hdirect]; exact List.mem_singleton_self _⟩
  have hcov : o.Covers (if write then 512 * p.pos + t else p.addr + t) := by
    cases write <;> simp [ho, Move.Covers, ht]
  rw [origin_eq_some_of_unique hmem hcov]
  · cases write <;> simp [ho]
  · intro o' ho' hcov'
    obtain ⟨q, hq, ho'⟩ := List.mem_flatMap.mp ho'
    obtain ⟨-, -, -, hdirect'⟩ := hok.plan write hq
    rw [hdirect', List.mem_singleton] at ho'
    by_cases hpq : p = q
    · rw [ho', ← hpq]
    · have hpos := (separate_of_ne hp hq hpq).2
      have haddr : p.Disjoint q := hdisj.forall hp hq hpq
      exfalso
      rw [ho'] at hcov'
      cases write with
      | true =>
        simp only [if_true, Move.Covers] at hcov'
        omega
      | false =>
        simp only [Bool.false_eq_true, if_false, Move.Covers, Plan.Disjoint] at hcov' haddr
        omega

end Moves

section Apart

/-- Buffers so far apart that no transfer of one touches another. -/
@[irreducible] def apart (k : Nat) : Nat := k * 2 ^ 32

theorem apart_eq (k : Nat) : apart k = k * 2 ^ 32 := by
  unfold apart
  rfl

theorem disjoint_apart (hok : ShapeOk size pos lens) : (plans apart k pos lens).Pairwise Plan.Disjoint := by
  refine pairwise_plans.imp_of_mem fun {p q} hp hq hlt => .inl ?_
  have hsize := hok.size_lt
  obtain ⟨-, hinside, -⟩ := hok.plan false hp
  rw [(mem_plans hp).1, (mem_plans hq).1, apart_eq, apart_eq]
  omega

/-- If the modes agree with buffers far apart, every segment is transferred to its place
    and in full. -/
theorem aligned_of_apart (hok : ShapeOk size pos lens) (hagree : PlansAgree size write (plans apart 0 pos lens))
    {p : Plan} (hp : p ∈ plans apart 0 pos lens) :
    p.offset = 512 * p.pos ∧ p.len ≤ p.nsect ∧ p.bio size write ≠ [] := by
  have hsize := hok.size_lt
  obtain ⟨hpositive, hinside, -, -⟩ := hok.plan write hp
  obtain ⟨haddr, -⟩ := mem_plans hp
  -- The last byte of the segment decides.
  obtain ⟨t, ht⟩ : ∃ t, t + 1 = 512 * p.len := ⟨512 * p.len - 1, by omega⟩
  have horigin := origin_direct hok write (disjoint_apart hok) hp (t := t) (by omega)
  rw [← hagree _ (by
    cases write with
    | true => exact .inl rfl
    | false => exact .inr ⟨p, hp, by simp, by simp; omega⟩)] at horigin
  obtain ⟨o, ho, hcov, hsrc⟩ := mem_of_origin_eq_some horigin
  obtain ⟨q, hq, hoq⟩ := List.mem_flatMap.mp ho
  obtain ⟨-, hinside', hns', -⟩ := hok.plan write hq
  obtain ⟨haddr', -⟩ := mem_plans hq
  have hne := List.ne_nil_of_mem hoq
  rw [Plan.bio_eq hsize hns' hne, List.mem_singleton] at hoq
  rw [hoq] at hcov hsrc
  have hidx : p.idx = q.idx := by
    cases write with
    | true =>
      simp only [if_true, Move.Covers, haddr, haddr', apart_eq] at hcov hsrc
      omega
    | false =>
      simp only [Bool.false_eq_true, if_false, Move.Covers, haddr, haddr', apart_eq] at hcov
      omega
  obtain rfl : p = q := by
    by_contra hne
    exact (separate_of_ne hp hq hne).1 hidx
  cases write with
  | true =>
    simp only [if_true, Move.Covers] at hcov hsrc
    exact ⟨by omega, by omega, hne⟩
  | false =>
    simp only [Bool.false_eq_true, if_false, Move.Covers] at hcov hsrc
    exact ⟨by omega, by omega, hne⟩

/-- Transfers of `f` sectors each that hit the places of segments of other lengths: all
    segments but the last have `f` sectors. -/
theorem uniform_of_aligned (hsize : size < 2 ^ 31) {f : Nat} (hf : 512 * f ≤ size) {ls : List Nat}
    (hin : 512 * (pos + ls.sum) ≤ size)
    (haligned : ∀ p ∈ segPlans place f k pos pos ls, p.offset = 512 * p.pos ∧ p.len ≤ p.nsect) :
    Uniform f ls := by
  induction ls using Uniform.induct generalizing k pos with
  | case1 => trivial
  | case2 l => exact (haligned _ List.mem_cons_self).2
  | case3 l l' ls ih =>
    rw [List.sum_cons, List.sum_cons] at hin
    have hsecond := (haligned ⟨k + 1, place (k + 1), pos + l, l', pos + f, f⟩ (by simp [segPlans])).1
    have hl : l = f := by
      simp only [Plan.offset, unsigned_long, KERNEL_SECTOR_SIZE] at hsecond
      omega
    subst hl
    refine ⟨rfl, ih ?_ fun p hp => haligned p (List.mem_cons_of_mem _ hp)⟩
    rw [List.sum_cons]
    omega

/-- If the modes agree about a write, no transfer reaches past the end of the request. -/
theorem end_of_apart (hok : ShapeOk size pos lens) (hagree : PlansAgree size true (plans apart 0 pos lens))
    {p : Plan} (hp : p ∈ plans apart 0 pos lens) : p.pos + p.nsect ≤ pos + lens.flatten.sum := by
  obtain ⟨hoffset, -, hne⟩ := aligned_of_apart hok hagree hp
  obtain ⟨hpositive, -, hns, -⟩ := hok.plan true hp
  obtain ⟨-, -, -, -, hend, -⟩ := mem_plans hp
  by_contra hlt
  have hnone : origin ((plans apart 0 pos lens).flatMap (Plan.direct size true))
      (512 * (pos + lens.flatten.sum)) = none := by
    rw [origin_eq_none]
    intro o ho
    obtain ⟨q, hq, ho⟩ := List.mem_flatMap.mp ho
    obtain ⟨-, -, -, hdirect⟩ := hok.plan true hq
    obtain ⟨-, -, -, -, hend', -⟩ := mem_plans hq
    rw [hdirect, List.mem_singleton] at ho
    rw [ho]
    simp only [if_true, Move.Covers]
    omega
  rw [← hagree _ (.inl rfl), origin_eq_none] at hnone
  apply hnone ⟨p.addr, p.offset, 512 * p.nsect⟩
  · refine List.mem_flatMap.mpr ⟨p, hp, ?_⟩
    rw [Plan.bio_eq hok.size_lt hns hne]
    exact List.mem_singleton_self _
  · simp only [Move.Covers, hoffset]
    omega

end Apart

section Uniform

variable {f : Nat} {ls : List Nat}

/-- Transfers of `f` sectors each hit the places of uniform segments. -/
theorem Uniform.mem_segPlans (huniform : Uniform f ls) {p : Plan} (hp : p ∈ segPlans place f k pos pos ls) :
    p.sector = p.pos ∧ p.len ≤ p.nsect ∧ p.pos + p.nsect ≤ pos + f * ls.length := by
  induction ls using Uniform.induct generalizing k pos with
  | case1 => simp [segPlans] at hp
  | case2 l =>
    obtain rfl : p = ⟨k, place k, pos, l, pos, f⟩ := by simpa [segPlans] using hp
    exact ⟨rfl, huniform, by simp⟩
  | case3 l l' ls ih =>
    obtain ⟨rfl, huniform⟩ := huniform
    rw [segPlans, List.mem_cons] at hp
    rw [List.length_cons, Nat.mul_succ]
    obtain rfl | hp := hp
    · exact ⟨rfl, le_refl _, by dsimp only; omega⟩
    · obtain ⟨hsector, hlen, hend⟩ := ih huniform hp
      exact ⟨hsector, hlen, by omega⟩

theorem Uniform.exists_last (huniform : Uniform f ls) (hne : ls ≠ []) :
    ∃ p ∈ segPlans place f k pos pos ls, p.pos + p.nsect = pos + f * ls.length := by
  induction ls using Uniform.induct generalizing k pos with
  | case1 => exact absurd rfl hne
  | case2 l => exact ⟨_, List.mem_cons_self, by simp⟩
  | case3 l l' ls ih =>
    obtain ⟨rfl, huniform⟩ := huniform
    obtain ⟨p, hp, hend⟩ := ih huniform (List.cons_ne_nil _ _)
    refine ⟨p, List.mem_cons_of_mem _ hp, ?_⟩
    have hlength : (l :: l' :: ls).length = (l' :: ls).length + 1 := rfl
    rw [hend, hlength, Nat.mul_succ]
    omega

/-- A segment of another length than `f` is the last one, and shorter. -/
theorem Uniform.exists_short (huniform : Uniform f ls) (k pos : Nat) {l : Nat} (hl : l ∈ ls) (hne : l ≠ f) :
    l < f ∧ ∃ i start, k ≤ i ∧ pos ≤ start ∧
      ∀ place, ⟨i, place i, start, l, start, f⟩ ∈ segPlans place f k pos pos ls := by
  induction ls using Uniform.induct generalizing k pos with
  | case1 => cases hl
  | case2 l' =>
    obtain rfl := List.mem_singleton.mp hl
    exact ⟨lt_of_le_of_ne huniform hne, k, pos, le_refl _, le_refl _, fun place => List.mem_cons_self⟩
  | case3 l' l'' ls ih =>
    obtain ⟨rfl, huniform⟩ := huniform
    obtain ⟨hlt, i, start, hi, hstart, hmem⟩ := ih huniform (k + 1) (pos + l') (List.mem_of_ne_of_mem hne hl)
    exact ⟨hlt, i, start, by omega, le_trans (Nat.le_add_right _ _) hstart,
      fun place => List.mem_cons_of_mem _ (hmem place)⟩

theorem writeFits_of_aligned {stop : Nat} (hsize : size < 2 ^ 31) (hstop : pos + lens.flatten.sum = stop)
    (hin : 512 * stop ≤ size)
    (haligned : ∀ p ∈ plans place k pos lens,
      p.offset = 512 * p.pos ∧ p.len ≤ p.nsect ∧ p.pos + p.nsect ≤ stop) :
    WriteFits stop pos lens := by
  induction lens generalizing k pos with
  | nil => trivial
  | cons b bs ih =>
    rw [List.flatten_cons, List.sum_append] at hstop
    have hfirst : b.headD 0 ≤ b.sum := by
      cases b with
      | nil => exact Nat.zero_le _
      | cons l ls => simp
    have hsegs : ∀ p ∈ segPlans place (b.headD 0) k pos pos b, p ∈ plans place k pos (b :: bs) :=
      fun p hp => List.mem_append_left _ hp
    have huniform : Uniform (b.headD 0) b :=
      uniform_of_aligned hsize (by omega) (by omega) fun p hp =>
        ⟨(haligned p (hsegs p hp)).1, (haligned p (hsegs p hp)).2.1⟩
    refine ⟨huniform, ?_, ih (by omega) fun p hp => haligned p (List.mem_append_right _ hp)⟩
    by_cases hb : b = []
    · simp [hb]
      omega
    · obtain ⟨p, hp, hend⟩ := huniform.exists_last hb
      rw [← hend]
      exact (haligned p (hsegs p hp)).2.2

theorem WriteFits.mem_plans {stop : Nat} (hfits : WriteFits stop pos lens) {p : Plan}
    (hp : p ∈ plans place k pos lens) : p.sector = p.pos ∧ p.len ≤ p.nsect ∧ p.pos + p.nsect ≤ stop := by
  induction lens generalizing k pos with
  | nil => simp [plans] at hp
  | cons b bs ih =>
    obtain ⟨huniform, hend, hfits⟩ := hfits
    rw [plans, List.mem_append] at hp
    obtain hp | hp := hp
    · obtain ⟨hsector, hlen, hle⟩ := huniform.mem_segPlans hp
      exact ⟨hsector, hlen, le_trans hle hend⟩
    · exact ih hfits hp

end Uniform

section Adjacent

/-- The buffer of segment `first` follows the one of segment `last`, which has `nbytes`
    bytes; the others are far apart. -/
def adjacent (first last nbytes k : Nat) : Nat :=
  if k = first then apart last + nbytes else apart k

theorem exists_segPlans (k pos : Nat) {b : List Nat} (hb : b ∈ lens) :
    ∃ k' start, start + b.sum ≤ pos + lens.flatten.sum ∧
      ∀ place p, p ∈ segPlans place (b.headD 0) k' start start b → p ∈ plans place k pos lens := by
  induction lens generalizing k pos with
  | nil => cases hb
  | cons c cs ih =>
    rw [List.flatten_cons, List.sum_append]
    obtain rfl | hb := List.mem_cons.mp hb
    · exact ⟨k, pos, by omega, fun place p hp => List.mem_append_left _ hp⟩
    · obtain ⟨k', start, hend, hsub⟩ := ih (k + c.length) (pos + c.sum) hb
      exact ⟨k', start, by rw [← Nat.add_assoc]; exact hend,
        fun place p hp => List.mem_append_right _ (hsub place p hp)⟩

variable {first last l : Nat} {p₀ p₁ : Plan}

theorem disjoint_adjacent (hok : ShapeOk size pos lens) (hlt : first < last)
    (hp₁ : p₁ ∈ plans (adjacent first last (512 * l)) k pos lens) (hlast : p₁.idx = last) (hl : p₁.len = l) :
    (plans (adjacent first last (512 * l)) k pos lens).Pairwise Plan.Disjoint := by
  refine pairwise_plans.imp_of_mem fun {p q} hp hq hpq => ?_
  have hsize := hok.size_lt
  obtain ⟨-, hp_inside, -⟩ := hok.plan false hp
  obtain ⟨-, hq_inside, -⟩ := hok.plan false hq
  obtain ⟨-, hl_inside, -⟩ := hok.plan false hp₁
  have hq_last : q.idx = last → q.len = l := by
    intro hidx
    by_contra hne
    exact (separate_of_ne hq hp₁ fun h => hne (h ▸ hl)).1 (hidx.trans hlast.symm)
  rw [Plan.Disjoint, (mem_plans hp).1, (mem_plans hq).1, adjacent, adjacent]
  split <;> split <;> simp only [apart_eq]
  · omega
  · by_cases hidx : q.idx = last
    · rw [hq_last hidx, hidx]
      omega
    · omega
  · omega
  · omega

/-- A read into adjacent buffers overwrites the first one when the last segment is
    transferred in a greater length than it has. -/
theorem origin_adjacent (hok : ShapeOk size pos lens) (hlt : first < last)
    (hp₁ : p₁ ∈ plans (adjacent first last (512 * l)) k pos lens) (hlast : p₁.idx = last)
    (hshort : l < p₁.nsect) (hne : p₁.bio size false ≠ []) :
    origin ((plans (adjacent first last (512 * l)) k pos lens).flatMap (Plan.bio size false))
      (adjacent first last (512 * l) first) = some (p₁.offset + 512 * l) := by
  have hsize := hok.size_lt
  obtain ⟨-, -, hns, -⟩ := hok.plan false hp₁
  have haddr : p₁.addr = apart last := by
    rw [(mem_plans hp₁).1, hlast, adjacent, if_neg hlt.ne']
  obtain ⟨before, after, hsplit⟩ := List.append_of_mem hp₁
  have hnone : origin (after.flatMap (Plan.bio size false)) (adjacent first last (512 * l) first) = none := by
    rw [origin_eq_none]
    intro o ho
    obtain ⟨q, hq, ho⟩ := List.mem_flatMap.mp ho
    have hpair : (before ++ p₁ :: after).Pairwise fun p q => p.idx < q.idx ∧ p.pos + p.len ≤ q.pos := by
      rw [← hsplit]
      exact pairwise_plans
    have hafter := (List.pairwise_cons.mp (List.pairwise_append.mp hpair).2.1).1 q hq
    have hq : q ∈ plans (adjacent first last (512 * l)) k pos lens := by
      rw [hsplit]
      exact List.mem_append_right _ (List.mem_cons_of_mem _ hq)
    obtain ⟨-, -, hns', -⟩ := hok.plan false hq
    rw [Plan.bio_eq hsize hns' (List.ne_nil_of_mem ho), List.mem_singleton] at ho
    have haddr' : q.addr = apart q.idx := by
      rw [(mem_plans hq).1, adjacent, if_neg (by omega)]
    rw [ho]
    simp only [Bool.false_eq_true, if_false, Move.Covers, haddr', adjacent, if_true, apart_eq]
    omega
  have hx : adjacent first last (512 * l) first = p₁.addr + 512 * l := by
    rw [adjacent, if_pos rfl, haddr]
  rw [hx] at hnone ⊢
  have hcov : (⟨p₁.offset, p₁.addr, 512 * p₁.nsect⟩ : Move).Covers (p₁.addr + 512 * l) := by
    simp only [Move.Covers]
    omega
  rw [hsplit, List.flatMap_append, List.flatMap_cons, origin_append, origin_append, hnone,
    Plan.bio_eq hsize hns hne]
  simp only [Bool.false_eq_true, if_false, origin, Option.none_or, if_pos hcov, Option.some_or,
    Nat.add_sub_cancel_left]

/-- Whether a transfer is refused does not depend on the buffer. -/
theorem transferMoves_ne_nil {sector nsect buffer : Nat} (buffer' : Nat)
    (hne : transferMoves size sector nsect buffer write ≠ []) :
    transferMoves size sector nsect buffer' write ≠ [] := by
  simp only [transferMoves] at hne ⊢
  split
  · rename_i hrefused
    rw [if_pos hrefused] at hne
    exact hne
  · cases write <;> simp

/-- If the modes agree about reads into buffers anywhere, all segments of a bio have the
    same length. -/
theorem readFits_of_agree (hok : ShapeOk size pos lens)
    (hagree : ∀ place, (plans place 0 pos lens).Pairwise Plan.Disjoint →
      PlansAgree size false (plans place 0 pos lens)) : ReadFits lens := by
  have hsize := hok.size_lt
  have hin := hok.inside
  intro b hb l hl
  by_contra hne
  obtain ⟨k, start, hend, hsub⟩ := exists_segPlans 0 pos hb
  have haligned := fun p hp => aligned_of_apart hok (hagree apart (disjoint_apart hok)) (hsub apart p hp)
  obtain _ | ⟨f, rest⟩ := b
  · cases hl
  have hf : f ≤ (f :: rest).sum := by simp
  have huniform : Uniform f (f :: rest) :=
    uniform_of_aligned hsize (by omega) (by omega) fun p hp => ⟨(haligned p hp).1, (haligned p hp).2.1⟩
  have hrest : Uniform f rest := by
    obtain _ | ⟨l', ls⟩ := rest
    · trivial
    · exact huniform.2
  -- The segment of another length is the last one; put the first buffer right behind it.
  obtain ⟨hshort, i, start', hi, hstart, hmem⟩ :=
    hrest.exists_short (k + 1) (start + f) (List.mem_of_ne_of_mem hne hl) hne
  set place := adjacent k i (512 * l) with hplace
  have hp₀ : ⟨k, place k, start, f, start, f⟩ ∈ plans place 0 pos lens := hsub place _ List.mem_cons_self
  have hp₁ : ⟨i, place i, start', l, start', f⟩ ∈ plans place 0 pos lens :=
    hsub place _ (List.mem_cons_of_mem _ (hmem place))
  obtain ⟨hoffset, -, hbio⟩ := haligned _ (List.mem_cons_of_mem _ (hmem apart))
  have hdisj := disjoint_adjacent hok hi hp₁ rfl rfl
  obtain ⟨hpositive, -⟩ := hok.plan false hp₀
  have hdirect := origin_direct hok false hdisj hp₀ (t := 0) (by dsimp only at hpositive ⊢; omega)
  rw [← hagree place hdisj _ (.inr ⟨_, hp₀, by simp, by simpa using hpositive⟩)] at hdirect
  have hbio' : Plan.bio size false ⟨i, place i, start', l, start', f⟩ ≠ [] := transferMoves_ne_nil _ hbio
  have horigin := origin_adjacent hok hi hp₁ rfl hshort hbio'
  simp only [Bool.false_eq_true, if_false, Nat.add_zero] at hdirect
  rw [horigin] at hdirect
  have hoffset' : Plan.offset ⟨i, place i, start', l, start', f⟩ = 512 * start' := hoffset
  rw [hoffset'] at hdirect
  have heq := Option.some.inj hdirect
  omega

end Adjacent

section Sufficient

/-- Plans that follow one another on the device, from one sector up to another. -/
def Chain (stop : Nat) : Nat → List Plan → Prop
  | pos, [] => pos = stop
  | pos, p :: ps => p.pos = pos ∧ Chain stop (pos + p.len) ps

theorem Chain.le {stop : Nat} {ps : List Plan} (hchain : Chain stop pos ps) : pos ≤ stop := by
  induction ps generalizing pos with
  | nil => exact le_of_eq hchain
  | cons p ps ih =>
    have hle := ih hchain.2
    omega

theorem chain_segPlans {stop sector f : Nat} {ls : List Nat} {ps : List Plan}
    (hchain : Chain stop (pos + ls.sum) ps) :
    Chain stop pos (segPlans place f k pos sector ls ++ ps) := by
  induction ls generalizing k pos sector with
  | nil => exact hchain
  | cons l ls ih =>
    refine ⟨rfl, ih ?_⟩
    rwa [List.sum_cons, ← Nat.add_assoc] at hchain

theorem chain_plans : Chain (pos + lens.flatten.sum) pos (plans place k pos lens) := by
  induction lens generalizing k pos with
  | nil => rfl
  | cons b bs ih =>
    apply chain_segPlans
    rw [List.flatten_cons, List.sum_append, ← Nat.add_assoc]
    exact ih

variable {stop : Nat} {ps : List Plan}

/-- Transferring a chain segment by segment writes all of its bytes. -/
theorem Chain.origin_ne_none (hchain : Chain stop pos ps) (hsize : size < 2 ^ 31) (hstop : 512 * stop ≤ size)
    {x : Nat} (hlo : 512 * pos ≤ x) (hhi : x < 512 * stop) :
    origin (ps.flatMap (Plan.direct size true)) x ≠ none := by
  induction ps generalizing pos with
  | nil =>
    have heq : pos = stop := hchain
    omega
  | cons p ps ih =>
    obtain ⟨rfl, hchain⟩ := hchain
    have hle := hchain.le
    rw [List.flatMap_cons, origin_append, Ne, Option.or_eq_none_iff, not_and_or]
    by_cases hx : 512 * (p.pos + p.len) ≤ x
    · exact .inl (ih hchain hx)
    · right
      rw [Plan.direct, transferMoves_inside hsize (by omega), if_pos rfl, origin_eq_none]
      intro hnone
      apply hnone _ List.mem_cons_self
      simp only [Move.Covers]
      omega

/-- Longer transfers of a chain that end inside it only write bytes that the plans after
    them write again. -/
theorem Chain.agree (hchain : Chain stop pos ps) (hsize : size < 2 ^ 31) (hstop : 512 * stop ≤ size)
    (haligned : ∀ p ∈ ps, p.sector = p.pos ∧ p.len ≤ p.nsect ∧ p.pos + p.nsect ≤ stop) (x : Nat) :
    origin (ps.flatMap (Plan.bio size true)) x = origin (ps.flatMap (Plan.direct size true)) x := by
  induction ps generalizing pos with
  | nil => simp
  | cons p ps ih =>
    obtain ⟨rfl, hchain⟩ := hchain
    have hle := hchain.le
    obtain ⟨hsector, hlen, hend⟩ := haligned p List.mem_cons_self
    rw [List.flatMap_cons, List.flatMap_cons, origin_append, origin_append,
      ih hchain fun q hq => haligned q (List.mem_cons_of_mem _ hq)]
    by_cases hx : 512 * (p.pos + p.len) ≤ x ∧ x < 512 * stop
    · have hne := hchain.origin_ne_none hsize hstop hx.1 hx.2
      obtain ⟨y, hy⟩ := Option.ne_none_iff_exists'.mp hne
      rw [hy, Option.some_or, Option.some_or]
    · have hcov : (⟨p.addr, 512 * p.pos, 512 * p.nsect⟩ : Move).Covers x ↔
          (⟨p.addr, 512 * p.pos, 512 * p.len⟩ : Move).Covers x := by
        simp only [Move.Covers]
        omega
      have hbio : p.bio size true = [⟨p.addr, 512 * p.pos, 512 * p.nsect⟩] := by
        rw [Plan.bio, hsector, transferMoves_inside hsize (by omega), if_pos rfl]
      have hdirect : p.direct size true = [⟨p.addr, 512 * p.pos, 512 * p.len⟩] := by
        rw [Plan.direct, transferMoves_inside hsize (by omega), if_pos rfl]
      simp only [hbio, hdirect, origin, hcov]

theorem ReadFits.bio_eq_direct (hfits : ReadFits lens) {p : Plan} (hp : p ∈ plans place k pos lens) :
    p.bio size write = p.direct size write := by
  induction lens generalizing k pos with
  | nil => simp [plans] at hp
  | cons b bs ih =>
    rw [plans, List.mem_append] at hp
    obtain hp | hp := hp
    · have huniform : ∀ ls : List Nat, (∀ l ∈ ls, l = b.headD 0) → Uniform (b.headD 0) ls := by
        intro ls hls
        induction ls using Uniform.induct with
        | case1 => trivial
        | case2 l => exact le_of_eq (hls l List.mem_cons_self)
        | case3 l l' ls ih =>
          exact ⟨hls l List.mem_cons_self, ih fun l hl => hls l (List.mem_cons_of_mem _ hl)⟩
      have hb := hfits b List.mem_cons_self
      obtain ⟨hsector, -⟩ := (huniform b hb).mem_segPlans hp
      obtain ⟨-, -, -, -, -, hlen, hns⟩ := mem_segPlans hp
      rw [Plan.bio, Plan.direct, hsector, hns, hb _ hlen]
    · exact ih (fun c hc => hfits c (List.mem_cons_of_mem _ hc)) hp

end Sufficient

section Agreement

variable {tfm : crypto_cipher}

/-- The lengths of a request fit the ones `osurd_xfer_bio` uses: it transfers as many
    sectors for each segment of a bio as the first one has. A read needs all segments of
    a bio to have that length. A write may end a bio with a shorter one, as long as what
    is written too far lies inside the request, where the bios after it write it again. -/
def Fit (write : Bool) (pos : Nat) (lens : List (List Nat)) : Prop :=
  if write then WriteFits (pos + lens.flatten.sum) pos lens else ReadFits lens

/-- Buffers that do not overlap are enough to tell the modes apart. -/
theorem fit_of_agree (hinv : tfm.Inverse) (hok : ShapeOk size pos lens)
    (h : ∀ req, Shaped write pos lens req → DisjointBuffers req →
      ∀ m : Machine, m.dev.size = size → ModesAgree tfm m req) : Fit write pos lens := by
  have hsize := hok.size_lt
  have hplans := plansAgree_of_agree hinv hsize h
  cases write with
  | true =>
    have hagree := hplans apart (disjoint_apart hok)
    refine writeFits_of_aligned hsize rfl hok.inside (fun p (hp : p ∈ plans apart 0 pos lens) => ?_)
    obtain ⟨hoffset, hlen, -⟩ := aligned_of_apart hok hagree hp
    exact ⟨hoffset, hlen, end_of_apart hok hagree hp⟩
  | false => exact readFits_of_agree hok hplans

theorem Fit.plansAgree (hfit : Fit write pos lens) (hok : ShapeOk size pos lens) (place : Nat → Nat) :
    PlansAgree size write (plans place 0 pos lens) := by
  intro x _
  cases write with
  | true => exact chain_plans.agree hok.size_lt hok.inside (fun p hp => hfit.mem_plans hp) x
  | false => rw [List.flatMap_congr fun p hp => ReadFits.bio_eq_direct hfit hp]

/-- Servicing requests bio by bio agrees with servicing them segment by segment, for all
    requests of a shape that lie inside the device, all its contents and all places of
    the buffers, exactly if the lengths of the segments fit. Segments are not empty, as
    the block layer builds them: `__blk_end_request_cur` does not get past an empty one. -/
theorem modes_agree_iff (hinv : tfm.Inverse) (write : Bool) (hok : ShapeOk size pos lens) :
    (∀ req, Shaped write pos lens req → ∀ m : Machine, m.dev.size = size → ModesAgree tfm m req) ↔
      Fit write pos lens := by
  constructor
  · intro h
    exact fit_of_agree hinv hok fun req hshape _ => h req hshape
  · intro hfit req hshape m hm
    exact agree_of_plansAgree hinv hok.size_lt (hfit.plansAgree hok) hshape hm

/-- A write of two bios, the first of which ends with a shorter segment. -/
theorem modes_agree_iff_twoBios : ShapeOk 4096 0 [[2, 2, 1], [2]] ∧ Fit true 0 [[2, 2, 1], [2]] ∧
    ∀ req, Shaped true 0 [[2, 2, 1], [2]] req → ∀ m : Machine, m.dev.size = 4096 →
      ModesAgree xorCipher m req := by
  have hok : ShapeOk 4096 0 [[2, 2, 1], [2]] := ⟨by decide, by decide, by decide⟩
  have hfit : Fit true 0 [[2, 2, 1], [2]] := by simp [Fit, WriteFits, Uniform]
  exact ⟨hok, hfit, (modes_agree_iff xorCipher_inverse true hok).mpr hfit⟩

/-- A write of three sectors from one bio, with a segment of one sector and one of two. -/
def oneThenTwo : request where
  id := 0
  cmd_type := .fs
  write := true
  pos := 0
  bios := [⟨0, true, [⟨0, 512⟩, ⟨512, 1024⟩]⟩]

/-- Bio by bio, its third sector is not written. -/
theorem oneThenTwo_differ : Shaped true 0 [[1, 2]] oneThenTwo ∧ DisjointBuffers oneThenTwo ∧
    512 * (0 + 3) ≤ eightSectors.dev.size ∧
    (serve xorCipher eightSectors oneThenTwo).dev.data 1024 = 49 ∧
    (osurd_xfer_request xorCipher eightSectors oneThenTwo).1.dev.data 1024 = 0 ∧
    ¬ ModesAgree xorCipher eightSectors oneThenTwo := by
  have hserve : (serve xorCipher eightSectors oneThenTwo).dev.data 1024 = 49 := by decide +kernel
  have hxfer : (osurd_xfer_request xorCipher eightSectors oneThenTwo).1.dev.data 1024 = 0 := by decide +kernel
  refine ⟨⟨rfl, rfl, rfl, rfl, by decide, ⟨rfl, trivial⟩⟩, ?_, by decide, hserve, hxfer, ?_⟩
  · simp [DisjointBuffers, segments, oneThenTwo]
  intro hagree
  rw [modesAgree_iff_sameBytes _ rfl, ← osurd_xfer_request_fst] at hagree
  have hbyte := congrFun hagree 1024
  rw [hserve, hxfer] at hbyte
  exact absurd hbyte (by decide)

end Agreement

end cs444.osurd
