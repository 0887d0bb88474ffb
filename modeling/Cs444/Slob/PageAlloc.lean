import Cs444.Slob.Cells

open interval

namespace cs444.slob

/-- What a call can run into instead of returning. -/
inductive Fault where
  | bug
  | spin
deriving DecidableEq, Repr

/-- The five `best_*` variables of the scan; they are set together. -/
structure Candidate where
  prev : Option Nat
  cur : Nat
  aligned : Nat
  delta : Nat
  diff : Int
deriving DecidableEq, Repr

/-- `ALIGN(x, a)` for a power of two `a`. -/
def ALIGN (x a : Nat) : Nat :=
  (x + (a - 1)) - (x + (a - 1)) % a

namespace Geometry

variable (g : Geometry)

/-- `(slob_t *)ALIGN((unsigned long)cur, align)`, `NULL` when no alignment is asked for. -/
def aligned (align cur : Nat) : Nat :=
  if align = 0 then 0 else ALIGN (cur * g.SLOB_UNIT) align / g.SLOB_UNIT

/-- The units skipped at the head of a block to align it. -/
def delta (align cur : Nat) : Nat :=
  if align = 0 then 0 else g.aligned align cur - cur

/-- The body of the scan: keep the block when it fits with strictly less slack. -/
def consider (mem : Mem) (units align : Nat) (prev : Option Nat) (cur : Nat)
    (best : Option Candidate) : Option Candidate :=
  let avail := slob_units mem cur
  let delta := g.delta align cur
  let found : Candidate :=
    { prev, cur, aligned := g.aligned align cur, delta, diff := g.slobidx (avail - (units + delta)) }
  if avail ≥ units + delta then
    match best with
    | none => some found
    | some c => if avail - (units + delta) < c.diff then some found else some c
  else best

/-- The scan over the free list of a page. It looks at every block before it settles on one. -/
def slob_page_alloc_loop (mem : Mem) (units align : Nat) :
    Nat → Option Nat → Nat → Option Candidate → Except Fault (Option Candidate)
  | 0, _, _, _ => .error .spin
  | fuel + 1, prev, cur, best =>
    let best := g.consider mem units align prev cur best
    if g.slob_last mem cur then .ok best
    else slob_page_alloc_loop mem units align fuel (some cur) (g.slob_next mem cur) best

/-- Point the predecessor of a block, or the page's list head, at `next`. -/
def relink (mem : Mem) (free : Nat) (prev : Option Nat) (next : Nat) : Mem × Nat :=
  match prev with
  | some p => (g.set_slob mem p (slob_units mem p) next, free)
  | none => (mem, next)

/-- Split off the units before the aligned address as a free block of their own. -/
def fragment_head (mem : Mem) (best : Candidate) : Mem × Option Nat × Nat :=
  if best.delta = 0 then (mem, best.prev, best.cur)
  else
    let mem' := g.set_slob mem best.aligned (slob_units mem best.cur - best.delta)
      (g.slob_next mem best.cur)
    (g.set_slob mem' best.cur best.delta best.aligned, some best.cur, best.aligned)

/-- Take `units` units from the front of the free block `cur`. The result is the
    memory and the head of the page's free list. -/
def unlink_front (mem : Mem) (free : Nat) (prev : Option Nat) (cur units : Nat) : Mem × Nat :=
  let avail := slob_units mem cur
  let next := g.slob_next mem cur
  if avail = units then g.relink mem free prev next
  else
    let r := g.relink mem free prev (cur + units)
    (g.set_slob r.1 (cur + units) (avail - units) next, r.2)

/-- The end of `slob_page_alloc`, once the scan has chosen a block: the returned
    address, the memory and the head of the page's free list. -/
def slob_page_alloc_commit (mem : Mem) (free units : Nat) (best : Candidate) : Nat × Mem × Nat :=
  let r := g.fragment_head mem best
  (r.2.2, g.unlink_front r.1 free r.2.1 r.2.2 units)

section Alignment

variable {g}

theorem ALIGN_dvd (x a : Nat) : a ∣ ALIGN x a :=
  Nat.dvd_sub_mod _

theorem ALIGN_ge {x a : Nat} (ha : 0 < a) : x ≤ ALIGN x a := by
  have := Nat.mod_lt (x + (a - 1)) ha
  rw [ALIGN]
  omega

theorem ALIGN_of_dvd {x a : Nat} (ha : 0 < a) (h : a ∣ x) : ALIGN x a = x := by
  obtain ⟨k, rfl⟩ := h
  rw [ALIGN, Nat.mul_add_mod, Nat.mod_eq_of_lt (by omega)]
  omega

/-- The alignments callers pass: none, or a power of two. -/
def IsAlign (align : Nat) : Prop :=
  align = 0 ∨ ∃ k, align = 2 ^ k

theorem SLOB_UNIT_dvd_ALIGN {align : Nat} (h : IsAlign align) (hne : align ≠ 0) (cur : Nat) :
    g.SLOB_UNIT ∣ ALIGN (cur * g.SLOB_UNIT) align := by
  obtain h | ⟨k, rfl⟩ := h
  · exact absurd h hne
  have hunit : ∃ j, g.SLOB_UNIT = 2 ^ j := by
    unfold SLOB_UNIT
    obtain ⟨h, -⟩ | ⟨h, -⟩ := g.slobidxBits_cases
    · exact ⟨1, by rw [h]; rfl⟩
    · exact ⟨2, by rw [h]; rfl⟩
  obtain ⟨j, hj⟩ := hunit
  rw [hj]
  obtain hle | hle := Nat.le_total j k
  · exact (pow_dvd_pow 2 hle).trans (ALIGN_dvd _ _)
  · rw [ALIGN_of_dvd (by positivity) (dvd_mul_of_dvd_right (pow_dvd_pow 2 hle) cur)]
    exact dvd_mul_left _ _

theorem aligned_eq_add_delta {align : Nat} (hne : align ≠ 0) (cur : Nat) :
    g.aligned align cur = cur + g.delta align cur := by
  have hge : cur ≤ g.aligned align cur := by
    rw [aligned, if_neg hne, Nat.le_div_iff_mul_le g.SLOB_UNIT_pos]
    exact ALIGN_ge (by omega)
  rw [delta, if_neg hne]
  omega

/-- Skipping `delta` units lands on a multiple of the requested alignment. -/
theorem dvd_add_delta {align : Nat} (h : IsAlign align) (hne : align ≠ 0) (cur : Nat) :
    align ∣ (cur + g.delta align cur) * g.SLOB_UNIT := by
  rw [← aligned_eq_add_delta hne, aligned, if_neg hne,
    Nat.div_mul_cancel (SLOB_UNIT_dvd_ALIGN h hne cur)]
  exact ALIGN_dvd _ _

/-- Nothing is skipped at an address that is aligned already. -/
theorem delta_eq_zero {align cur : Nat} (h : align ∣ cur * g.SLOB_UNIT) : g.delta align cur = 0 := by
  rw [delta]
  split
  · rfl
  · rename_i hne
    rw [aligned, if_neg hne, ALIGN_of_dvd (by omega) h, Nat.mul_div_cancel _ g.SLOB_UNIT_pos]
    omega

end Alignment

end Geometry

section BestFit

variable (δ : Nat → Nat) (units : Nat)

/-- A free block can hold the request behind the units skipped to align it. -/
def Fits (b : Interval) : Prop :=
  units + δ b.start ≤ b.len

instance (b : Interval) : Decidable (Fits δ units b) :=
  inferInstanceAs (Decidable (_ ≤ _))

/-- The units left over when a fitting block is used. -/
def slack (b : Interval) : Nat :=
  b.len - (units + δ b.start)

/-- Best fit on an abstract free list, the earlier block winning a tie. -/
def bestFit : List Interval → Option Interval → Option Interval
  | [], best => best
  | b :: l, best =>
    if Fits δ units b then
      match best with
      | none => bestFit l (some b)
      | some c => if slack δ units b < slack δ units c then bestFit l (some b) else bestFit l (some c)
    else bestFit l best

/-- Allocation on an abstract free list. -/
def listAlloc (l : List Interval) : Option (Nat × List Interval) :=
  (bestFit δ units l none).map fun b =>
    (b.start + δ b.start, cut ⟨b.start + δ b.start, units⟩ l)

variable {δ units}

/-- One step of best fit: a fitting block replaces the best one so far if it leaves less over. -/
theorem bestFit_cons (b : Interval) (l : List Interval) (best : Option Interval) :
    bestFit δ units (b :: l) best = bestFit δ units l
      (if Fits δ units b ∧ ∀ c ∈ best, slack δ units b < slack δ units c then some b else best) := by
  cases best with
  | none => by_cases hfit : Fits δ units b <;> simp [bestFit, hfit]
  | some c =>
    by_cases hfit : Fits δ units b <;> by_cases hlt : slack δ units b < slack δ units c <;>
      simp [bestFit, hfit, hlt]

theorem bestFit_mem {l : List Interval} {best : Option Interval} {b : Interval}
    (h : bestFit δ units l best = some b) : (b ∈ l ∧ Fits δ units b) ∨ best = some b := by
  induction l generalizing best with
  | nil => exact .inr h
  | cons c l ih =>
    rw [bestFit_cons] at h
    obtain ⟨hin, hb⟩ | hb := ih h
    · exact .inl ⟨List.mem_cons_of_mem _ hin, hb⟩
    · split at hb
      · rename_i hfit
        obtain rfl : c = b := by simpa using hb
        exact .inl ⟨List.mem_cons_self, hfit.1⟩
      · exact .inr hb

/-- Best fit finds a block whenever some block fits. -/
theorem bestFit_ne_none {l : List Interval} {best : Option Interval}
    (h : best ≠ none ∨ ∃ b ∈ l, Fits δ units b) : bestFit δ units l best ≠ none := by
  induction l generalizing best with
  | nil => simpa [bestFit] using h
  | cons c l ih =>
    rw [bestFit_cons]
    apply ih
    split
    · exact .inl (by simp)
    · rename_i hkeep
      obtain h | ⟨b, hb, hfits⟩ := h
      · exact .inl h
      · obtain rfl | hb := List.mem_cons.mp hb
        · left
          rintro rfl
          exact hkeep ⟨hfits, by simp⟩
        · exact .inr ⟨b, hb, hfits⟩

/-- An allocation fails exactly if no block of the list fits. -/
theorem listAlloc_eq_none {l : List Interval} :
    listAlloc δ units l = none ↔ ∀ b ∈ l, ¬ Fits δ units b := by
  rw [listAlloc, Option.map_eq_none_iff]
  constructor
  · intro h b hb hfit
    exact bestFit_ne_none (.inr ⟨b, hb, hfit⟩) h
  · intro h
    rw [Option.eq_none_iff_forall_ne_some]
    intro b hb
    obtain ⟨hin, hfit⟩ | hnone := bestFit_mem hb
    · exact h b hin hfit
    · cases hnone

/-- What an allocation from an abstract free list takes and leaves. -/
theorem listAlloc_eq_some {hi lo a : Nat} {l l' : List Interval} (hl : Gapped hi lo l)
    (hunits : 0 < units) (h : listAlloc δ units l = some (a, l')) :
    (∃ b ∈ l, Fits δ units b ∧ a = b.start + δ b.start) ∧
      (∀ u, (⟨a, units⟩ : Interval).Covers u → covers l u) ∧
      ∀ u, covers l' u ↔ covers l u ∧ ¬ (⟨a, units⟩ : Interval).Covers u := by
  rw [listAlloc, Option.map_eq_some_iff] at h
  obtain ⟨b, hb, hab⟩ := h
  obtain ⟨rfl, rfl⟩ := Prod.mk.inj hab
  obtain ⟨hin, hfit⟩ | hnone := bestFit_mem hb
  · refine ⟨⟨b, hin, hfit, rfl⟩, fun u hu => ⟨b, hin, ?_⟩, fun u => ?_⟩
    · simp only [Fits, Interval.Covers] at hfit hu ⊢
      omega
    · obtain ⟨pre, post, rfl⟩ := List.append_of_mem hin
      rw [Fits] at hfit
      apply covers_cut hl
      · simp
      · exact hunits
      · dsimp only
        omega
  · cases hnone

end BestFit

namespace Geometry

variable {g : Geometry} {mem mem' : Mem} {base : Nat}

/-- The address of the last block of a list, the `prev` pointer behind it. -/
def lastAddr (l : List Interval) : Option Nat :=
  l.getLast?.map Interval.start

@[simp] theorem lastAddr_nil : lastAddr [] = none := rfl

@[simp] theorem lastAddr_concat (l : List Interval) (b : Interval) :
    lastAddr (l ++ [b]) = some b.start := by
  simp [lastAddr]

/-- The memory of the page that starts at `base` decodes to the free list `l`. -/
structure Holds (g : Geometry) (mem : Mem) (base : Nat) (l : List Interval) : Prop where
  dvd : g.pageUnits ∣ base
  spaced : Spaced 0 (base + g.pageUnits) base l
  chain : g.Chain mem (base + g.pageUnits) l

/-- The block behind a split point decodes to its size and to the next block. -/
theorem Holds.block {pre post : List Interval} {b : Interval}
    (h : g.Holds mem base (pre ++ b :: post)) :
    slob_units mem b.start = b.len ∧
      g.slob_next mem b.start = headAddr (base + g.pageUnits) post := by
  obtain ⟨hlo, hlen, hhi⟩ := h.spaced.bounds b (by simp)
  have hpage : g.pageBase b.start = base := g.pageBase_eq h.dvd hlo (by omega)
  have henc := (Chain.append_iff.mp h.chain).2.1
  have hnext := headAddr_bounds (Spaced.append_iff.mp h.spaced).2.1.2.2.2 hhi
  exact ⟨henc.slob_units_eq hlen (by omega), henc.slob_next_eq (by omega) (by omega)⟩

theorem Holds.first {post : List Interval} {b : Interval} (h : g.Holds mem base (b :: post)) :
    slob_units mem b.start = b.len ∧
      g.slob_next mem b.start = headAddr (base + g.pageUnits) post := by
  rw [← List.nil_append (b :: post)] at h
  exact h.block

theorem Holds.slob_last_iff {pre post : List Interval} {b : Interval}
    (h : g.Holds mem base (pre ++ b :: post)) : g.slob_last mem b.start = true ↔ post = [] := by
  rw [slob_last, h.block.2, beq_iff_eq, ← Nat.dvd_iff_mod_eq_zero]
  obtain ⟨hlo, hlen, hhi⟩ := h.spaced.bounds b (by simp)
  cases post with
  | nil =>
    simp only [headAddr_nil, iff_true]
    exact (Nat.dvd_add_right h.dvd).mpr (dvd_refl _)
  | cons c post =>
    obtain ⟨hclo, hclen, hchi⟩ := h.spaced.bounds c (by simp)
    have hbc := (Spaced.append_iff.mp h.spaced).2.1.2.2.2.1
    simp only [headAddr_cons, reduceCtorEq, iff_false]
    intro hdvd
    have hdiff := (Nat.dvd_sub hdvd h.dvd)
    exact absurd (Nat.le_of_dvd (by omega) hdiff) (by omega)

section Scan

variable {units align : Nat}

/-- The scan's candidate is the abstract best block, with its predecessor in the list. -/
def Matches (g : Geometry) (units align : Nat) (l : List Interval) :
    Option Candidate → Option Interval → Prop
  | none, none => True
  | some c, some b => ∃ pre post, l = pre ++ b :: post ∧ Fits (g.delta align) units b ∧
      c = { prev := lastAddr pre, cur := b.start, aligned := g.aligned align b.start,
            delta := g.delta align b.start, diff := slack (g.delta align) units b }
  | _, _ => False

theorem consider_matches {pre post : List Interval} {b : Interval} {best : Option Candidate}
    {B : Option Interval} (h : g.Holds mem base (pre ++ b :: post))
    (hbest : g.Matches units align (pre ++ b :: post) best B) :
    ∃ B', g.Matches units align (pre ++ b :: post)
        (g.consider mem units align (lastAddr pre) b.start best) B' ∧
      bestFit (g.delta align) units (b :: post) B = bestFit (g.delta align) units post B' := by
  obtain ⟨hlo, hlen, hhi⟩ := h.spaced.bounds b (by simp)
  have hunits := h.block.1
  by_cases hfit : Fits (g.delta align) units b
  · have hge : (b.len : Int) ≥ units + g.delta align b.start := by
      have := hfit
      rw [Fits] at this
      omega
    have hdiff : g.slobidx ((b.len : Int) - (units + g.delta align b.start)) =
        slack (g.delta align) units b := by
      rw [g.slobidx_eq (by omega) (by omega), slack]
      omega
    have hdiff' : (b.len : Int) - (units + g.delta align b.start) = slack (g.delta align) units b := by
      rw [slack]
      omega
    have hfound : g.Matches units align (pre ++ b :: post)
        (some { prev := lastAddr pre, cur := b.start, aligned := g.aligned align b.start,
                delta := g.delta align b.start, diff := slack (g.delta align) units b }) (some b) :=
      ⟨pre, post, rfl, hfit, rfl⟩
    cases best with
    | none =>
      cases B with
      | some _ => exact absurd hbest id
      | none =>
        refine ⟨some b, ?_, by simp only [bestFit, if_pos hfit]⟩
        simp only [consider, hunits, if_pos hge, hdiff]
        exact hfound
    | some c =>
      cases B with
      | none => exact absurd hbest id
      | some d =>
        have hc : c.diff = slack (g.delta align) units d := by
          obtain ⟨_, _, _, _, rfl⟩ := hbest
          rfl
        by_cases hless : slack (g.delta align) units b < slack (g.delta align) units d
        · refine ⟨some b, ?_, by simp only [bestFit, if_pos hfit, if_pos hless]⟩
          simp only [consider, hunits, if_pos hge, hdiff', hc]
          rw [if_pos (by omega), ← hdiff', hdiff]
          exact hfound
        · refine ⟨some d, ?_, by simp only [bestFit, if_pos hfit, if_neg hless]⟩
          simp only [consider, hunits, if_pos hge, hdiff', hc]
          rw [if_neg (by omega)]
          exact hbest
  · refine ⟨B, ?_, by simp only [bestFit, if_neg hfit]⟩
    have hlt : ¬ (b.len : Int) ≥ units + g.delta align b.start := by
      rw [Fits] at hfit
      omega
    simp only [consider, hunits, if_neg hlt]
    exact hbest

/-- The scan ends after one iteration per free block, at the abstract best fit. -/
theorem slob_page_alloc_loop_spec {l pre suf : List Interval} (h : g.Holds mem base l)
    (hl : l = pre ++ suf) (hsuf : suf ≠ []) {fuel : Nat} (hfuel : suf.length ≤ fuel)
    {best : Option Candidate} {B : Option Interval} (hbest : g.Matches units align l best B) :
    ∃ best', g.slob_page_alloc_loop mem units align fuel (lastAddr pre)
        (headAddr (base + g.pageUnits) suf) best = .ok best' ∧
      g.Matches units align l best' (bestFit (g.delta align) units suf B) := by
  induction suf generalizing pre fuel best B with
  | nil => exact absurd rfl hsuf
  | cons b post ih =>
    cases fuel with
    | zero => simp at hfuel
    | succ fuel =>
      subst hl
      obtain ⟨B', hB', hfold⟩ := consider_matches h hbest
      rw [headAddr_cons, slob_page_alloc_loop]
      cases post with
      | nil =>
        rw [if_pos (h.slob_last_iff.mpr rfl)]
        exact ⟨_, rfl, by rw [hfold]; exact hB'⟩
      | cons c post =>
        have hnot : ¬ g.slob_last mem b.start = true := by
          rw [h.slob_last_iff]
          simp
        have hshift : pre ++ b :: c :: post = (pre ++ [b]) ++ c :: post := by simp
        have hless : (c :: post).length ≤ fuel := by simpa using hfuel
        have hmore := ih hshift (by simp) hless hB'
        rw [lastAddr_concat] at hmore
        rw [if_neg hnot, h.block.2, hfold]
        exact hmore

end Scan

end Geometry

end cs444.slob
