import Mathlib.Tactic.Ring
import Cs444.Slob.Pages
import Cs444.Slob.Run

open interval

namespace cs444.slob

variable {g : Geometry} {h : Heap} {pfn size align : Nat} {l : List Interval}

section Choice

variable {δ : Nat → Nat} {units : Nat}

/-- Among the blocks that can hold the request this one leaves the fewest units over, and among
    those that leave as few it has the lowest address. -/
structure IsBest (δ : Nat → Nat) (units : Nat) (l : List Interval) (b : Interval) : Prop where
  mem : b ∈ l
  fits : Fits δ units b
  least : ∀ c ∈ l, Fits δ units c → slack δ units b ≤ slack δ units c
  lowest : ∀ c ∈ l, Fits δ units c → slack δ units c = slack δ units b → b.start ≤ c.start

/-- The scan ends with the best block so far if no later one is better, and otherwise with the
    first of the best later ones. -/
theorem bestFit_split {best : Option Interval} {b : Interval} (h : bestFit δ units l best = some b) :
    (best = some b ∧ ∀ c ∈ l, Fits δ units c → slack δ units b ≤ slack δ units c) ∨
      ∃ pre post, l = pre ++ b :: post ∧ (∀ c ∈ best, slack δ units b < slack δ units c) ∧
        (∀ c ∈ pre, Fits δ units c → slack δ units b < slack δ units c) ∧
        ∀ c ∈ post, Fits δ units c → slack δ units b ≤ slack δ units c := by
  induction l generalizing best with
  | nil => exact .inl ⟨h, by simp⟩
  | cons d l ih =>
    rw [bestFit_cons] at h
    obtain ⟨hbest, hrest⟩ | ⟨pre, post, rfl, hbest, hpre, hpost⟩ := ih h
    · split at hbest
      · rename_i hd
        cases hbest
        exact .inr ⟨[], l, rfl, hd.2, by simp, hrest⟩
      · rename_i hd
        left
        refine ⟨hbest, fun c hc hfit => ?_⟩
        obtain rfl | hc := List.mem_cons.mp hc
        · by_contra hless
          exact hd ⟨hfit, fun e he => by rw [hbest] at he; obtain rfl := Option.some.inj he; omega⟩
        · exact hrest c hc hfit
    · right
      refine ⟨d :: pre, post, rfl, fun c hc => ?_, fun c hc hfit => ?_, hpost⟩
      · split at hbest
        · rename_i hd
          exact lt_trans (hbest d rfl) (hd.2 c hc)
        · exact hbest c hc
      · obtain rfl | hc := List.mem_cons.mp hc
        · split at hbest
          · exact hbest c rfl
          · rename_i hd
            by_contra hless
            refine hd ⟨hfit, fun e he => ?_⟩
            have := hbest e he
            omega
        · exact hpre c hc hfit

/-- Best fit on a list ordered by address. -/
theorem bestFit_isBest {hi lo : Nat} {b : Interval} (hl : Gapped hi lo l)
    (h : bestFit δ units l none = some b) : IsBest δ units l b := by
  have hfits : b ∈ l ∧ Fits δ units b := by
    obtain hin | hnone := bestFit_mem h
    · exact hin
    · cases hnone
  obtain ⟨hnone, -⟩ | ⟨pre, post, rfl, -, hpre, hpost⟩ := bestFit_split h
  · cases hnone
  have hsep := (Spaced.append_iff.mp hl).2.1
  refine ⟨hfits.1, hfits.2, fun c hc hfit => ?_, fun c hc hfit hslack => ?_⟩
  · obtain hc | hc := List.mem_append.mp hc
    · exact (hpre c hc hfit).le
    · obtain rfl | hc := List.mem_cons.mp hc
      · exact le_refl _
      · exact hpost c hc hfit
  · obtain hc | hc := List.mem_append.mp hc
    · have := hpre c hc hfit
      omega
    · obtain rfl | hc := List.mem_cons.mp hc
      · exact le_refl _
      · have := (hsep.2.2.2.bounds c hc).1
        omega

theorem IsBest.congr {δ' : Nat → Nat} {b : Interval} (hδ : ∀ c ∈ l, δ' c.start = δ c.start)
    (hb : IsBest δ units l b) : IsBest δ' units l b := by
  have hfits : ∀ c ∈ l, (Fits δ' units c ↔ Fits δ units c) := fun c hc => by rw [Fits, Fits, hδ c hc]
  have hslack : ∀ c ∈ l, slack δ' units c = slack δ units c := fun c hc => by rw [slack, slack, hδ c hc]
  refine ⟨hb.mem, (hfits b hb.mem).mpr hb.fits, fun c hc hfit => ?_, fun c hc hfit heq => ?_⟩
  · rw [hslack b hb.mem, hslack c hc]
    exact hb.least c hc ((hfits c hc).mp hfit)
  · rw [hslack b hb.mem, hslack c hc] at heq
    exact hb.lowest c hc ((hfits c hc).mp hfit) heq

end Choice

namespace x86_32

/-- `SLOB_UNITS(size)` with a `size_t` of 32 bits. -/
def SLOB_UNITS (g : Geometry) (size : Nat) : Nat :=
  (size + g.SLOB_UNIT - 1) % 2 ^ 32 / g.SLOB_UNIT

/-- `(slob_t *)ALIGN((unsigned long)cur, align)` with 32-bit addresses, `NULL` when no alignment is
    asked for. -/
def aligned (g : Geometry) (align cur : Nat) : Nat :=
  if align = 0 then 0 else ALIGN (cur * g.SLOB_UNIT) align % 2 ^ 32 / g.SLOB_UNIT

/-- `aligned - cur` with 32-bit addresses. The next multiple of an alignment is less than `2 ^ 31`
    bytes away, so that the difference is positive as an `int` too. -/
def delta (g : Geometry) (align cur : Nat) : Nat :=
  if align = 0 then 0
  else (aligned g align cur * g.SLOB_UNIT + 2 ^ 32 - cur * g.SLOB_UNIT) % 2 ^ 32 / g.SLOB_UNIT

/-- `units + delta`, an `int`. -/
def need (g : Geometry) (size align cur : Nat) : Int :=
  toInt (toInt (SLOB_UNITS g size) + delta g align cur)

/-- The body of the scan. -/
def consider (g : Geometry) (mem : Mem) (size align : Nat) (prev : Option Nat) (cur : Nat)
    (best : Option Candidate) : Option Candidate :=
  let avail := Geometry.slob_units mem cur
  let diff := toInt (avail - need g size align cur)
  let found : Candidate :=
    { prev, cur, aligned := aligned g align cur, delta := delta g align cur, diff := g.slobidx diff }
  if avail ≥ need g size align cur then
    match best with
    | none => some found
    | some c => if diff < c.diff then some found else some c
  else best

def slob_page_alloc_loop (g : Geometry) (mem : Mem) (size align : Nat) :
    Nat → Option Nat → Nat → Option Candidate → Except Fault (Option Candidate)
  | 0, _, _, _ => .error .spin
  | fuel + 1, prev, cur, best =>
    let best := consider g mem size align prev cur best
    if g.slob_last mem cur then .ok best
    else slob_page_alloc_loop g mem size align fuel (some cur) (g.slob_next mem cur) best

/-- Take `units` units from the front of the free block `cur`; `cur + units` is a 32-bit address. -/
def unlink_front (g : Geometry) (mem : Mem) (free : Nat) (prev : Option Nat) (cur units : Nat) : Mem × Nat :=
  let avail := Geometry.slob_units mem cur
  let next := g.slob_next mem cur
  if avail = units then g.relink mem free prev next
  else
    let rest := (cur + units) % (2 ^ 32 / g.SLOB_UNIT)
    let r := g.relink mem free prev rest
    (g.set_slob r.1 rest (avail - units) next, r.2)

/-- The end of `slob_page_alloc`, once a block has been chosen. -/
def commit (g : Geometry) (h : Heap) (pfn size : Nat) (best : Candidate) : Option Nat × Heap :=
  let r := g.fragment_head h.mem best
  let (mem, free) := unlink_front g r.1 (h.page pfn).free r.2.1 r.2.2 (SLOB_UNITS g size)
  (some r.2.2, g.carved h pfn (SLOB_UNITS g size) mem free)

/-- `slob_page_alloc` with the `int`, `size_t` and pointers of a 32-bit kernel. -/
def slob_page_alloc (g : Geometry) (h : Heap) (pfn size align : Nat) : Except Fault (Option Nat × Heap) := do
  match ← slob_page_alloc_loop g h.mem size align g.pageUnits none (h.page pfn).free none with
  | none => return (none, h)
  | some best => return commit g h pfn size best

end x86_32

namespace linux_source

open x86_32

/-- The loop of the original `slob_page_alloc`: it stops at the first block with room enough. -/
def slob_page_alloc_loop (g : Geometry) (mem : Mem) (size align : Nat) :
    Nat → Option Nat → Nat → Except Fault (Option Candidate)
  | 0, _, _ => .error .spin
  | fuel + 1, prev, cur =>
    if Geometry.slob_units mem cur ≥ need g size align cur then
      .ok (some { prev, cur, aligned := aligned g align cur, delta := delta g align cur, diff := 0 })
    else if g.slob_last mem cur then .ok none
    else slob_page_alloc_loop g mem size align fuel (some cur) (g.slob_next mem cur)

/-- The original `slob_page_alloc`, first fit. What it does to the block it finds is the same. -/
def slob_page_alloc (g : Geometry) (h : Heap) (pfn size align : Nat) : Except Fault (Option Nat × Heap) := do
  match ← slob_page_alloc_loop g h.mem size align g.pageUnits none (h.page pfn).free with
  | none => return (none, h)
  | some found => return commit g h pfn size found

end linux_source

namespace x86_32

/-- The arguments are of their types: the page lies in the address space, and not at `NULL`; `size`
    is a `size_t` of at least one unit, and `align` an `int`. -/
structure Args (g : Geometry) (pfn size align : Nat) : Prop where
  pos : 0 < pfn
  page : (pfn + 1) * g.PAGE_SIZE ≤ 2 ^ 32
  size_lt : size < 2 ^ 32
  units : 0 < SLOB_UNITS g size
  isAlign : Geometry.IsAlign align
  align_lt : align < 2 ^ 31

/-- `units + delta` is an `int` for every free block. -/
def NoOverflow (g : Geometry) (size align : Nat) (l : List Interval) : Prop :=
  ∀ b ∈ l, SLOB_UNITS g size + delta g align b.start < 2 ^ 31

section Widths

/-- A `size_t` that wraps around has no units at all. -/
theorem Args.units_eq (ha : Args g pfn size align) : SLOB_UNITS g size = g.SLOB_UNITS size := by
  have hunits := ha.units
  have hsize := ha.size_lt
  by_cases hwrap : size + g.SLOB_UNIT - 1 < 2 ^ 32
  · rw [SLOB_UNITS, Nat.mod_eq_of_lt hwrap, Geometry.SLOB_UNITS]
  · exfalso
    have hsmall : (size + g.SLOB_UNIT - 1) % 2 ^ 32 < g.SLOB_UNIT := by
      obtain hunit | hunit := g.SLOB_UNIT_cases <;> rw [hunit] at hwrap ⊢ <;> omega
    rw [SLOB_UNITS, Nat.div_eq_of_lt hsmall] at hunits
    exact absurd hunits (lt_irrefl 0)

theorem ALIGN_lt {x a : Nat} (ha : 0 < a) : ALIGN x a < x + a := by
  rw [ALIGN]
  omega

/-- The units of the page lie below the end of the address space. -/
theorem Args.lt_of_lt (ha : Args g pfn size align) {u : Nat} (hu : u < pfn * g.pageUnits + g.pageUnits) :
    u * g.SLOB_UNIT < 2 ^ 32 := by
  have hpage := ha.page
  have hmul := g.pageUnits_mul
  calc u * g.SLOB_UNIT < (pfn * g.pageUnits + g.pageUnits) * g.SLOB_UNIT :=
        Nat.mul_lt_mul_of_pos_right hu g.SLOB_UNIT_pos
    _ = (pfn + 1) * (g.pageUnits * g.SLOB_UNIT) := by ring
    _ ≤ 2 ^ 32 := by rw [hmul]; exact hpage

/-- The pointers' difference is the distance, even where the aligned address wraps around. -/
theorem delta_eq {cur : Nat} (hcur : cur * g.SLOB_UNIT < 2 ^ 32) (hisAlign : Geometry.IsAlign align)
    (halign : align < 2 ^ 31) : delta g align cur = g.delta align cur := by
  by_cases hzero : align = 0
  · rw [delta, Geometry.delta, if_pos hzero, if_pos hzero]
  have hge : cur * g.SLOB_UNIT ≤ ALIGN (cur * g.SLOB_UNIT) align := Geometry.ALIGN_ge (by omega)
  have hlt : ALIGN (cur * g.SLOB_UNIT) align < cur * g.SLOB_UNIT + align := ALIGN_lt (by omega)
  have hdvd : g.SLOB_UNIT ∣ ALIGN (cur * g.SLOB_UNIT) align := Geometry.SLOB_UNIT_dvd_ALIGN hisAlign hzero cur
  have hspace : g.SLOB_UNIT ∣ 2 ^ 32 := by
    obtain hunit | hunit := g.SLOB_UNIT_cases <;> rw [hunit] <;> decide
  have hback : aligned g align cur * g.SLOB_UNIT = ALIGN (cur * g.SLOB_UNIT) align % 2 ^ 32 := by
    rw [aligned, if_neg hzero]
    exact Nat.div_mul_cancel ((Nat.dvd_mod_iff hspace).mpr hdvd)
  have hdiff : (ALIGN (cur * g.SLOB_UNIT) align % 2 ^ 32 + 2 ^ 32 - cur * g.SLOB_UNIT) % 2 ^ 32 =
      ALIGN (cur * g.SLOB_UNIT) align - cur * g.SLOB_UNIT := by
    omega
  rw [delta, if_neg hzero, hback, hdiff, Geometry.delta, if_neg hzero, Geometry.aligned, if_neg hzero,
    Nat.mul_comm cur, Nat.sub_mul_div]

/-- An aligned address inside of the address space. -/
theorem aligned_eq {cur : Nat} (hne : align ≠ 0) (h : g.aligned align cur * g.SLOB_UNIT < 2 ^ 32)
    (hisAlign : Geometry.IsAlign align) : aligned g align cur = g.aligned align cur := by
  rw [Geometry.aligned, if_neg hne, Nat.div_mul_cancel (Geometry.SLOB_UNIT_dvd_ALIGN hisAlign hne cur)] at h
  rw [aligned, if_neg hne, Geometry.aligned, if_neg hne, Nat.mod_eq_of_lt h]

theorem toInt_eq {x : Int} (hlo : -2 ^ 31 ≤ x) (hhi : x < 2 ^ 31) : toInt x = x := by
  rw [toInt]
  apply Int.bmod_eq_of_le_mul_two <;> push_cast <;> omega

end Widths

section Agree

/-- Without overflow the test is that of the exact sum. -/
theorem need_eq (ha : Args g pfn size align) {cur : Nat} (hcur : cur < pfn * g.pageUnits + g.pageUnits)
    (hsum : SLOB_UNITS g size + delta g align cur < 2 ^ 31) :
    need g size align cur = (g.SLOB_UNITS size : Int) + g.delta align cur := by
  have hdelta := delta_eq (ha.lt_of_lt hcur) ha.isAlign ha.align_lt
  rw [hdelta, ha.units_eq] at hsum
  rw [need, hdelta, ha.units_eq, toInt_of_lt (by omega), toInt_eq (by omega) (by omega)]

/-- The aligned address of a block that fits lies in the page. -/
theorem aligned_eq_of_fits (ha : Args g pfn size align) {b : Interval}
    (hend : b.start + b.len ≤ pfn * g.pageUnits + g.pageUnits)
    (hfit : Fits (g.delta align) (g.SLOB_UNITS size) b) : aligned g align b.start = g.aligned align b.start := by
  by_cases hzero : align = 0
  · rw [aligned, Geometry.aligned, if_pos hzero, if_pos hzero]
  · apply aligned_eq hzero _ ha.isAlign
    have hunits := ha.units
    rw [ha.units_eq] at hunits
    rw [Fits] at hfit
    rw [Geometry.aligned_eq_add_delta hzero]
    exact ha.lt_of_lt (by omega)

/-- Without overflow the widths make no difference to what the scan does with a block. -/
theorem consider_eq (hp : FreeListOk g h pfn l) (ha : Args g pfn size align) {pre post : List Interval}
    {b : Interval} (hl : l = pre ++ b :: post) (hsum : SLOB_UNITS g size + delta g align b.start < 2 ^ 31)
    (prev : Option Nat) (best : Option Candidate) :
    consider g h.mem size align prev b.start best =
      g.consider h.mem (g.SLOB_UNITS size) align prev b.start best := by
  subst hl
  obtain ⟨hlo, hlen, hend⟩ := hp.gapped.bounds b (by simp)
  have hcur : b.start < pfn * g.pageUnits + g.pageUnits := by omega
  have hdelta := delta_eq (ha.lt_of_lt hcur) ha.isAlign ha.align_lt
  have hpage : g.pageUnits ≤ 2 ^ 30 := by
    have hsize := g.PAGE_SIZE_le
    rw [← g.pageUnits_mul] at hsize
    exact (Nat.le_mul_of_pos_right _ g.SLOB_UNIT_pos).trans hsize
  simp only [consider, Geometry.consider, hp.holds.block.1, need_eq ha hcur hsum, hdelta]
  by_cases hfit : Fits (g.delta align) (g.SLOB_UNITS size) b
  · have hge : (b.len : Int) ≥ g.SLOB_UNITS size + g.delta align b.start := by
      rw [Fits] at hfit
      omega
    have hdiff : toInt (b.len - (g.SLOB_UNITS size + g.delta align b.start)) =
        b.len - (g.SLOB_UNITS size + g.delta align b.start) := toInt_eq (by omega) (by omega)
    cases best <;> simp only [if_pos hge, aligned_eq_of_fits ha hend hfit, hdiff]
  · have hlt : ¬ (b.len : Int) ≥ g.SLOB_UNITS size + g.delta align b.start := by
      rw [Fits] at hfit
      omega
    rw [if_neg hlt, if_neg hlt]

theorem slob_page_alloc_loop_eq (hp : FreeListOk g h pfn l) (ha : Args g pfn size align)
    (hint : NoOverflow g size align l) {pre suf : List Interval} (hl : l = pre ++ suf) (hsuf : suf ≠ [])
    (fuel : Nat) (prev : Option Nat) (best : Option Candidate) :
    slob_page_alloc_loop g h.mem size align fuel prev
        (Geometry.headAddr (pfn * g.pageUnits + g.pageUnits) suf) best =
      g.slob_page_alloc_loop h.mem (g.SLOB_UNITS size) align fuel prev
        (Geometry.headAddr (pfn * g.pageUnits + g.pageUnits) suf) best := by
  induction fuel generalizing pre suf prev best with
  | zero => rfl
  | succ fuel ih =>
    cases suf with
    | nil => exact absurd rfl hsuf
    | cons b post =>
      have hholds := hp.holds
      rw [hl] at hholds
      rw [Geometry.headAddr_cons, slob_page_alloc_loop, Geometry.slob_page_alloc_loop,
        consider_eq hp ha hl (hint b (by simp [hl]))]
      by_cases hpost : post = []
      · have hlast := hholds.slob_last_iff.mpr hpost
        rw [if_pos hlast, if_pos hlast]
      · have hlast : ¬ g.slob_last h.mem b.start = true := fun hlast => hpost (hholds.slob_last_iff.mp hlast)
        have hshift : l = (pre ++ [b]) ++ post := by simpa using hl
        rw [if_neg hlast, if_neg hlast, hholds.block.2]
        exact ih hshift hpost _ _

/-- Taking units from a block inside of the page wraps around nowhere. -/
theorem unlink_front_eq (mem : Mem) (free : Nat) (prev : Option Nat) {cur units : Nat}
    (h : Geometry.slob_units mem cur ≠ units → (cur + units) * g.SLOB_UNIT < 2 ^ 32) :
    unlink_front g mem free prev cur units = g.unlink_front mem free prev cur units := by
  rw [unlink_front, Geometry.unlink_front]
  by_cases hexact : Geometry.slob_units mem cur = units
  · rw [if_pos hexact, if_pos hexact]
  · have hlt : cur + units < 2 ^ 32 / g.SLOB_UNIT := (Nat.lt_div_iff_mul_lt_of_dvd g.SLOB_UNIT_pos.ne'
      (by obtain hunit | hunit := g.SLOB_UNIT_cases <;> rw [hunit] <;> decide)).mpr (h hexact)
    rw [if_neg hexact, if_neg hexact, Nat.mod_eq_of_lt hlt]

/-- Committing to a block that fits. -/
theorem commit_eq (ha : Args g pfn size align) {pre post : List Interval} {b : Interval} {best : Candidate}
    (hp : FreeListOk g h pfn (pre ++ b :: post)) (hprev : best.prev = Geometry.lastAddr pre)
    (hcur : best.cur = b.start) (hal : best.delta ≠ 0 → best.aligned = b.start + best.delta)
    (hfit : g.SLOB_UNITS size + best.delta ≤ b.len) :
    commit g h pfn size best =
      let r := g.slob_page_alloc_commit h.mem (h.page pfn).free (g.SLOB_UNITS size) best
      (some r.1, g.carved h pfn (g.SLOB_UNITS size) r.2.1 r.2.2) := by
  have hunits := ha.units
  rw [ha.units_eq] at hunits
  obtain ⟨hlo, hlen, hend⟩ := hp.gapped.bounds b (by simp)
  obtain ⟨mem₁, prev, hfrag, -, hholds, -⟩ :=
    Geometry.fragment_head_spec hp.holds hprev hcur hal hunits hfit
  have hinside : Geometry.slob_units mem₁ (b.start + best.delta) ≠ g.SLOB_UNITS size →
      (b.start + best.delta + g.SLOB_UNITS size) * g.SLOB_UNIT < 2 ^ 32 := by
    intro hne
    have hblock := hholds.block.1
    dsimp only at hblock
    exact ha.lt_of_lt (by omega)
  rw [commit, Geometry.slob_page_alloc_commit, hfrag, ha.units_eq]
  simp only [unlink_front_eq mem₁ (h.page pfn).free prev hinside]

/-- Without overflow `slob_page_alloc` computes as it does with unbounded numbers. -/
theorem slob_page_alloc_eq (hp : FreeListOk g h pfn l) (hne : l ≠ []) (ha : Args g pfn size align)
    (hint : NoOverflow g size align l) :
    slob_page_alloc g h pfn size align = g.slob_page_alloc h pfn size align := by
  have hstart : g.Matches (g.SLOB_UNITS size) align l none none := trivial
  obtain ⟨c, hloop, hm⟩ :=
    Geometry.slob_page_alloc_loop_spec hp.holds (List.nil_append l).symm hne hp.length_le hstart
  rw [Geometry.lastAddr_nil] at hloop
  have hloop' := slob_page_alloc_loop_eq hp ha hint (List.nil_append l).symm hne g.pageUnits none none
  rw [hloop] at hloop'
  rw [← hp.free] at hloop hloop'
  obtain ⟨rfl, -⟩ | ⟨pre, b, post, best, rfl, rfl, hfit, hprev, hcur, hal, hdelta, -⟩ := bestFit_spec hm
  · simp only [slob_page_alloc, Geometry.slob_page_alloc, hloop, hloop']
    rfl
  · have hle : g.SLOB_UNITS size + best.delta ≤ b.len := by
      rw [hdelta]
      exact hfit
    have hcommit := commit_eq ha hp hprev hcur hal hle
    simp only [slob_page_alloc, Geometry.slob_page_alloc, hloop, hloop', bind, Except.bind, hcommit]
    rfl

end Agree

end x86_32

namespace linux_source

open x86_32

/-- First fit ends with a block if one fits, and with none if none does. -/
theorem slob_page_alloc_loop_spec (hp : FreeListOk g h pfn l) (ha : Args g pfn size align)
    (hint : NoOverflow g size align l) {pre suf : List Interval} (hl : l = pre ++ suf) (hsuf : suf ≠ [])
    {fuel : Nat} (hfuel : suf.length ≤ fuel) (prev : Option Nat) :
    ∃ found, slob_page_alloc_loop g h.mem size align fuel prev
        (Geometry.headAddr (pfn * g.pageUnits + g.pageUnits) suf) = .ok found ∧
      (found = none ↔ ∀ b ∈ suf, ¬ Fits (g.delta align) (g.SLOB_UNITS size) b) := by
  induction suf generalizing pre fuel prev with
  | nil => exact absurd rfl hsuf
  | cons b post ih =>
    cases fuel with
    | zero => simp at hfuel
    | succ fuel =>
      have hholds := hp.holds
      have hgapped := hp.gapped
      rw [hl] at hholds hgapped
      obtain ⟨hlo, hlen, hend⟩ := hgapped.bounds b (by simp)
      have htest : Geometry.slob_units h.mem b.start ≥ need g size align b.start ↔
          Fits (g.delta align) (g.SLOB_UNITS size) b := by
        rw [hholds.block.1, need_eq ha (by omega) (hint b (by simp [hl])), Fits]
        omega
      rw [Geometry.headAddr_cons, slob_page_alloc_loop]
      by_cases hfit : Fits (g.delta align) (g.SLOB_UNITS size) b
      · rw [if_pos (htest.mpr hfit)]
        exact ⟨_, rfl, by simp [hfit]⟩
      rw [if_neg fun hge => hfit (htest.mp hge)]
      by_cases hpost : post = []
      · rw [if_pos (hholds.slob_last_iff.mpr hpost)]
        exact ⟨_, rfl, by simp [hpost, hfit]⟩
      · have hshift : l = (pre ++ [b]) ++ post := by simpa using hl
        obtain ⟨found, hrun, hfound⟩ := ih hshift hpost (Nat.le_of_succ_le_succ hfuel) (some b.start)
        rw [if_neg fun hlast => hpost (hholds.slob_last_iff.mp hlast), hholds.block.2]
        exact ⟨found, hrun, by simp [hfound, hfit]⟩

/-- First fit fails exactly if no block fits. -/
theorem slob_page_alloc_none_iff (hp : FreeListOk g h pfn l) (hne : l ≠ []) (ha : Args g pfn size align)
    (hint : NoOverflow g size align l) :
    (∃ h', slob_page_alloc g h pfn size align = .ok (none, h')) ↔
      ∀ b ∈ l, ¬ Fits (g.delta align) (g.SLOB_UNITS size) b := by
  obtain ⟨found, hrun, hfound⟩ :=
    slob_page_alloc_loop_spec hp ha hint (List.nil_append l).symm hne hp.length_le none
  rw [← hfound, slob_page_alloc, hp.free, hrun]
  cases found with
  | none => exact ⟨fun _ => rfl, fun _ => ⟨h, rfl⟩⟩
  | some found =>
    refine ⟨fun ⟨h', heq⟩ => ?_, fun hnone => absurd hnone (by simp)⟩
    have hsome := (Prod.mk.inj (Except.ok.inj heq)).1
    cases hsome

end linux_source

namespace x86_32

/-- The page lost exactly the units of `x`, and nothing outside of its free blocks was written. -/
structure Removed (g : Geometry) (h h' : Heap) (pfn : Nat) (l l' : List Interval) (x : Interval) : Prop where
  after : FreeListOk g h' pfn l'
  inside : ∀ u, x.Covers u → covers l u
  removed : ∀ u, covers l' u ↔ covers l u ∧ ¬ x.Covers u
  mem : ∀ u, ¬ covers l u → h'.mem u = h.mem u
  other : ∀ q, q ≠ pfn → h'.page q = h.page q

/-- The pointers' difference for the free blocks of a page. -/
theorem freeList_delta_eq (hp : FreeListOk g h pfn l) (ha : Args g pfn size align) :
    ∀ b ∈ l, delta g align b.start = g.delta align b.start := by
  intro b hb
  obtain ⟨hlo, hlen, hend⟩ := hp.gapped.bounds b hb
  exact delta_eq (ha.lt_of_lt (by omega)) ha.isAlign ha.align_lt

/-- Without overflow an allocation is one from the best block. -/
theorem slob_page_alloc_some (hp : FreeListOk g h pfn l) (hne : l ≠ []) (ha : Args g pfn size align)
    (hint : NoOverflow g size align l) (hfits : ∃ b ∈ l, Fits (g.delta align) (g.SLOB_UNITS size) b) :
    ∃ b h' l', IsBest (g.delta align) (g.SLOB_UNITS size) l b ∧
      slob_page_alloc g h pfn size align = .ok (some (b.start + g.delta align b.start), h') ∧
      Removed g h h' pfn l l' ⟨b.start + g.delta align b.start, g.SLOB_UNITS size⟩ := by
  have hunits := ha.units
  rw [ha.units_eq] at hunits
  have hspec := hp.slob_page_alloc align hne hunits
  split at hspec
  · rename_i hnone
    obtain ⟨b, hb, hfit⟩ := hfits
    exact absurd hfit (listAlloc_eq_none.mp hnone b hb)
  · rename_i a l' hsome
    obtain ⟨mem, free, hrun, hafter, -, hframe⟩ := hspec
    obtain ⟨-, hinside, hremoved⟩ := listAlloc_eq_some hp.gapped hunits hsome
    obtain ⟨b, hbest, hab⟩ := Option.map_eq_some_iff.mp hsome
    obtain ⟨rfl, -⟩ := Prod.mk.inj hab
    refine ⟨b, _, l', bestFit_isBest hp.gapped hbest, (slob_page_alloc_eq hp hne ha hint).trans hrun,
      hafter, hinside, hremoved, fun u hu => ?_, fun q hq => carved_other _ _ _ hq⟩
    rw [carved_mem]
    exact hframe u hu

/-- Without overflow an allocation fails if no block fits, and then nothing has changed. -/
theorem slob_page_alloc_none (hp : FreeListOk g h pfn l) (hne : l ≠ []) (ha : Args g pfn size align)
    (hint : NoOverflow g size align l) (hnone : ∀ b ∈ l, ¬ Fits (g.delta align) (g.SLOB_UNITS size) b) :
    slob_page_alloc g h pfn size align = .ok (none, h) := by
  have hunits := ha.units
  rw [ha.units_eq] at hunits
  have hspec := hp.slob_page_alloc align hne hunits
  rw [listAlloc_eq_none.mpr hnone] at hspec
  exact (slob_page_alloc_eq hp hne ha hint).trans hspec

/-- When no sum overflows, `slob_page_alloc` fails, and leaves everything as it is, exactly if no free
    block has room behind its alignment, which is when first fit fails. Otherwise it takes the units
    from the lowest block of those that leave the fewest units over. -/
theorem slob_page_alloc_best_fit (hp : FreeListOk g h pfn l) (hne : l ≠ []) (ha : Args g pfn size align)
    (hint : NoOverflow g size align l) :
    ((∃ h', slob_page_alloc g h pfn size align = .ok (none, h')) ↔
        ∀ b ∈ l, ¬ Fits (delta g align) (SLOB_UNITS g size) b) ∧
      ((∃ h', slob_page_alloc g h pfn size align = .ok (none, h')) ↔
        ∃ h', linux_source.slob_page_alloc g h pfn size align = .ok (none, h')) ∧
      (∀ h', slob_page_alloc g h pfn size align = .ok (none, h') → h' = h) ∧
      ((∃ b ∈ l, Fits (delta g align) (SLOB_UNITS g size) b) →
        ∃ b h' l', IsBest (delta g align) (SLOB_UNITS g size) l b ∧
          slob_page_alloc g h pfn size align = .ok (some (b.start + delta g align b.start), h') ∧
          Removed g h h' pfn l l' ⟨b.start + delta g align b.start, SLOB_UNITS g size⟩) := by
  have hδ := freeList_delta_eq hp ha
  have hfits : ∀ b ∈ l, (Fits (delta g align) (SLOB_UNITS g size) b ↔
      Fits (g.delta align) (g.SLOB_UNITS size) b) := by
    intro b hb
    rw [Fits, Fits, hδ b hb, ha.units_eq]
  have hnone : (∀ b ∈ l, ¬ Fits (delta g align) (SLOB_UNITS g size) b) ↔
      ∀ b ∈ l, ¬ Fits (g.delta align) (g.SLOB_UNITS size) b :=
    forall₂_congr fun b hb => not_congr (hfits b hb)
  have hfirst := linux_source.slob_page_alloc_none_iff hp hne ha hint
  by_cases hsome : ∃ b ∈ l, Fits (g.delta align) (g.SLOB_UNITS size) b
  · obtain ⟨b, h', l', hbest, hrun, hremoved⟩ := slob_page_alloc_some hp hne ha hint hsome
    have hnot : ¬ ∀ b ∈ l, ¬ Fits (g.delta align) (g.SLOB_UNITS size) b := by
      simpa using hsome
    have hreturn : ¬ ∃ h', slob_page_alloc g h pfn size align = .ok (none, h') := by
      simp [hrun]
    have hstart := hδ b hbest.mem
    refine ⟨by rw [hnone]; exact iff_of_false hreturn hnot,
      iff_of_false hreturn fun hfail => hnot (hfirst.mp hfail),
      fun h₁ heq => absurd ⟨h₁, heq⟩ hreturn, fun _ => ⟨b, h', l', ?_, ?_, ?_⟩⟩
    · rw [ha.units_eq]
      exact hbest.congr hδ
    · rw [hstart]
      exact hrun
    · rw [hstart, ha.units_eq]
      exact hremoved
  · have hall : ∀ b ∈ l, ¬ Fits (g.delta align) (g.SLOB_UNITS size) b := by
      simpa using hsome
    have hrun := slob_page_alloc_none hp hne ha hint hall
    have hreturn : ∃ h', slob_page_alloc g h pfn size align = .ok (none, h') := ⟨h, hrun⟩
    refine ⟨by rw [hnone]; exact iff_of_true hreturn hall, iff_of_true hreturn (hfirst.mpr hall),
      fun h' heq => ?_, fun hfit => ?_⟩
    · rw [hrun] at heq
      exact (Prod.mk.inj (Except.ok.inj heq)).2.symm
    · obtain ⟨b, hb, hfit⟩ := hfit
      exact absurd ((hfits b hb).mp hfit) (hall b hb)

/-- A page with three free blocks; the one in the middle has the least room to spare for 8 bytes. -/
def threeBlocks : Heap where
  mem u :=
    if u = 2048 then 8 else if u = 2049 then 12 else if u = 2060 then 5 else if u = 2061 then 22
    else if u = 2070 then 2026 else if u = 2071 then 2048 else 0
  page _ := { units := 2039, free := 2048, slab := true, slobFree := true }
  list c := if c = .small then [1] else []
  mem_used := 18
  mem_claimed := 4096

theorem threeBlocks_freeListOk : FreeListOk page4096 threeBlocks 1 [⟨2048, 8⟩, ⟨2060, 5⟩, ⟨2070, 2026⟩] := by
  refine ⟨⟨by decide, by decide, ?_⟩, by decide, rfl⟩
  refine ⟨?_, ?_, ?_, trivial⟩ <;> rw [Geometry.Encoded, if_pos (by decide)] <;> exact ⟨rfl, rfl⟩

theorem slob_page_alloc_best_fit_threeBlocks :
    Args page4096 1 8 8 ∧ NoOverflow page4096 8 8 [⟨2048, 8⟩, ⟨2060, 5⟩, ⟨2070, 2026⟩] ∧
      ∃ h' l', slob_page_alloc page4096 threeBlocks 1 8 8 = .ok (some 2060, h') ∧
        Removed page4096 threeBlocks h' 1 [⟨2048, 8⟩, ⟨2060, 5⟩, ⟨2070, 2026⟩] l' ⟨2060, 4⟩ := by
  have hargs : Args page4096 1 8 8 := ⟨by decide, by decide, by decide, by decide, .inr ⟨3, rfl⟩, by decide⟩
  have hint : NoOverflow page4096 8 8 [⟨2048, 8⟩, ⟨2060, 5⟩, ⟨2070, 2026⟩] := by
    intro b hb
    simp only [List.mem_cons, List.not_mem_nil, or_false] at hb
    obtain rfl | rfl | rfl := hb <;> decide
  refine ⟨hargs, hint, ?_⟩
  obtain ⟨b, h', l', hbest, hrun, hremoved⟩ :=
    (slob_page_alloc_best_fit threeBlocks_freeListOk (by simp) hargs hint).2.2.2
      ⟨⟨2060, 5⟩, by simp, by decide⟩
  have hmin := hbest.least ⟨2060, 5⟩ (by simp) (by decide)
  have hb : b = ⟨2060, 5⟩ := by
    have hin := hbest.mem
    simp only [List.mem_cons, List.not_mem_nil, or_false] at hin
    obtain rfl | rfl | rfl := hin
    · exact absurd hmin (by decide)
    · rfl
    · exact absurd hmin (by decide)
  subst hb
  exact ⟨h', l', hrun, hremoved⟩

/-- A page whose first unit is in use. -/
def oneBlock : Heap where
  mem u := if u = 2049 then 2047 else if u = 2050 then 2048 else 0
  page _ := { units := 2047, free := 2049, slab := true, slobFree := true }
  list c := if c = .small then [1] else []
  mem_used := 2
  mem_claimed := 4096

/-- For `2 ^ 32 - 4` bytes `units` is `2 ^ 31 - 2`, and with the three units skipped to align the block
    the sum is negative: a block that cannot hold the request is taken. -/
theorem slob_page_alloc_overflows :
    FreeListOk page4096 oneBlock 1 [⟨2049, 2047⟩] ∧ Args page4096 1 4294967292 8 ∧
      (∀ b ∈ ([⟨2049, 2047⟩] : List Interval), ¬ Fits (delta page4096 8) (SLOB_UNITS page4096 4294967292) b) ∧
      (slob_page_alloc page4096 oneBlock 1 4294967292 8).map Prod.fst = .ok (some 2052) := by
  refine ⟨⟨⟨by decide, by decide, ?_⟩, by decide, rfl⟩,
    ⟨by decide, by decide, by decide, by decide, .inr ⟨3, rfl⟩, by decide⟩, by decide, by decide⟩
  refine ⟨?_, trivial⟩
  rw [Geometry.Encoded, if_pos (by decide)]
  exact ⟨rfl, rfl⟩

end x86_32

end cs444.slob
