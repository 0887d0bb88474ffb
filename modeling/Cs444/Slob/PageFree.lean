import Cs444.Slob.PageAlloc

open interval

namespace cs444.slob

namespace Geometry

variable (g : Geometry)

/-- `while (b > next)`: the walk to the reinsertion point. -/
def slob_free_loop (mem : Mem) (b : Nat) : Nat → Nat → Nat → Except Fault (Nat × Nat)
  | 0, _, _ => .error .spin
  | fuel + 1, prev, next =>
    if b > next then slob_free_loop mem b fuel next (g.slob_next mem next) else .ok (prev, next)

/-- The block goes before the first free block of the page. -/
def reinsert_first (mem : Mem) (free b : Nat) (units : Int) : Mem × Nat :=
  if (b : Int) + units = free then
    (g.set_slob mem b (g.slobidx (units + slob_units mem free)) (g.slob_next mem free), b)
  else (g.set_slob mem b units free, b)

/-- The block goes between `prev` and `next`, merging with whichever it touches. -/
def reinsert_between (mem : Mem) (prev next b : Nat) (units : Int) : Mem :=
  let mem :=
    if !g.slob_last mem prev && (b : Int) + units == next then
      g.set_slob mem b (g.slobidx (units + slob_units mem next)) (g.slob_next mem next)
    else g.set_slob mem b units next
  if (prev : Int) + slob_units mem prev = b then
    g.set_slob mem prev (g.slobidx (slob_units mem b + slob_units mem prev)) (g.slob_next mem b)
  else g.set_slob mem prev (slob_units mem prev) b

/-- The end of `slob_free`: put a block back on the free list of a page that is
    partially free already. The result is the memory and the list head. -/
def slob_free_reinsert (mem : Mem) (free b : Nat) (units : Int) : Except Fault (Mem × Nat) :=
  if b < free then .ok (g.reinsert_first mem free b units)
  else do
    let (prev, next) ← g.slob_free_loop mem b g.pageUnits free (g.slob_next mem free)
    return (g.reinsert_between mem prev next b units, free)

variable {g} {mem : Mem} {base : Nat}

/-- Writing the header of a block in front of a free list extends the list by it. -/
theorem Holds.set_cons {l : List Interval} {z : Interval} (hdvd : g.pageUnits ∣ base)
    (hz : Spaced 0 (base + g.pageUnits) base (z :: l)) (hchain : g.Chain mem (base + g.pageUnits) l) :
    g.Holds (g.set_slob mem z.start z.len (headAddr (base + g.pageUnits) l)) base (z :: l) ∧
      ∀ u, ¬ z.Covers u →
        g.set_slob mem z.start z.len (headAddr (base + g.pageUnits) l) u = mem u := by
  obtain ⟨hlo, hlen, hhi, hl⟩ := hz
  have hhead := headAddr_bounds hl hhi
  have hframe : ∀ u, ¬ z.Covers u →
      g.set_slob mem z.start z.len (headAddr (base + g.pageUnits) l) u = mem u :=
    fun u hu => set_slob_frame mem (by omega) hu hlen
  refine ⟨⟨hdvd, ⟨hlo, hlen, hhi, hl⟩, ?_, ?_⟩, hframe⟩
  · exact set_slob_encoded mem hdvd hlo hlen hhi (by omega) hhead.2
  · apply hchain.frame hl
    intro u hu
    apply hframe
    intro hzu
    have := (hl.covers_bounds hu).1
    have := hzu.2
    omega

theorem Holds.tail {l : List Interval} {c : Interval} (h : g.Holds mem base (c :: l)) :
    g.Holds mem base l := by
  obtain ⟨hlo, _, _, hl⟩ := h.spaced
  exact ⟨h.dvd, hl.mono (by omega), h.chain.2⟩

/-- The walk stops at the last free block before `b`, after at most one step per
    remaining free block. -/
theorem slob_free_loop_spec {init post : List Interval} {p : Interval} {b fuel : Nat}
    (h : g.Holds mem base (init ++ p :: post)) (hp : p.start < b) (hb : b < base + g.pageUnits)
    (hfuel : post.length < fuel) :
    ∃ init' p' post', init ++ p :: post = init' ++ p' :: post' ∧ p'.start < b ∧
      b ≤ headAddr (base + g.pageUnits) post' ∧
      g.slob_free_loop mem b fuel p.start (headAddr (base + g.pageUnits) post) =
        .ok (p'.start, headAddr (base + g.pageUnits) post') := by
  induction post generalizing init p fuel with
  | nil =>
    cases fuel with
    | zero => simp at hfuel
    | succ fuel =>
      have hle : b ≤ headAddr (base + g.pageUnits) [] := by
        simp only [headAddr_nil]
        omega
      refine ⟨init, p, [], rfl, hp, hle, ?_⟩
      rw [slob_free_loop, if_neg (by omega)]
  | cons c post ih =>
    cases fuel with
    | zero => simp at hfuel
    | succ fuel =>
      rw [slob_free_loop]
      by_cases hc : b > c.start
      · have hshift : init ++ p :: c :: post = (init ++ [p]) ++ c :: post := by simp
        rw [hshift] at h ⊢
        rw [headAddr_cons, if_pos hc, h.block.2]
        exact ih h hc (by simpa using hfuel)
      · refine ⟨init, p, c :: post, rfl, hp, ?_, ?_⟩
        · simp only [headAddr_cons]
          omega
        · rw [if_neg (by simpa using hc)]

/-- Write the header of the first block of a free list that ends at `e`. -/
def setFront (g : Geometry) (mem : Mem) (e : Nat) : List Interval → Mem
  | [] => mem
  | z :: l => g.set_slob mem z.start z.len (headAddr e l)

/-- One header turns the list `l` into `mergeFront y l` when `l` starts at or behind
    the end of `y`. -/
theorem Holds.mergeFront {l : List Interval} {y : Interval} (h : g.Holds mem base l)
    (hlo : base ≤ y.start) (hlen : 0 < y.len) (hhi : y.start + y.len ≤ base + g.pageUnits)
    (hl : Spaced 0 (base + g.pageUnits) (y.start + y.len) l) :
    g.Holds (g.setFront mem (base + g.pageUnits) (mergeFront y l)) base (mergeFront y l) ∧
      ∀ u, ¬ y.Covers u → ¬ covers l u →
        g.setFront mem (base + g.pageUnits) (interval.mergeFront y l) u = mem u := by
  have hplain := Holds.set_cons h.dvd ⟨hlo, hlen, hhi, hl⟩ h.chain
  cases l with
  | nil => exact ⟨hplain.1, fun u hy _ => hplain.2 u hy⟩
  | cons c l =>
    simp only [interval.mergeFront]
    split
    · rename_i htouch
      obtain ⟨hclo, hclen, hchi, htl⟩ := hl
      have hz : Spaced 0 (base + g.pageUnits) base (⟨y.start, y.len + c.len⟩ :: l) :=
        ⟨hlo, by simp only; omega, by simp only; omega, htl.mono (by simp only; omega)⟩
      obtain ⟨hholds, hframe⟩ := Holds.set_cons h.dvd hz h.chain.2
      refine ⟨hholds, fun u hy hc => hframe u ?_⟩
      simp only [covers_cons, Interval.Covers, not_or] at hy hc ⊢
      omega
    · exact ⟨hplain.1, fun u hy _ => hplain.2 u hy⟩

theorem reinsert_first_eq {l : List Interval} {x : Interval} (h : g.Holds mem base l) (hne : l ≠ [])
    (hlen : 0 < x.len) (hlo : base ≤ x.start) (hl : Spaced 0 (base + g.pageUnits) (x.start + x.len) l) :
    g.reinsert_first mem (headAddr (base + g.pageUnits) l) x.start x.len =
      (g.setFront mem (base + g.pageUnits) (mergeFront x l), x.start) := by
  cases l with
  | nil => exact absurd rfl hne
  | cons c l =>
    obtain ⟨hclo, hclen, hchi, -⟩ := hl
    obtain ⟨hunits, hnext⟩ := h.first
    rw [reinsert_first, headAddr_cons, hunits, hnext, mergeFront]
    by_cases htouch : x.start + x.len = c.start
    · rw [if_pos (by omega), if_pos htouch, g.slobidx_eq (by omega) (by omega)]
      simp only [setFront, Nat.cast_add]
    · rw [if_neg (by omega), if_neg htouch]
      simp only [setFront, headAddr_cons]

theorem reinsert_between_eq {init post : List Interval} {p x : Interval}
    (h : g.Holds mem base (init ++ p :: post)) (hlen : 0 < x.len)
    (hp : p.start + p.len ≤ x.start) (hhi : x.start + x.len ≤ base + g.pageUnits)
    (hpost : Spaced 0 (base + g.pageUnits) (x.start + x.len) post) :
    g.reinsert_between mem p.start (headAddr (base + g.pageUnits) post) x.start x.len =
      g.setFront (g.setFront mem (base + g.pageUnits) (mergeFront x post)) (base + g.pageUnits)
        (mergeFront p (mergeFront x post)) := by
  obtain ⟨hplo, hplen, -⟩ := h.spaced.bounds p (by simp)
  obtain ⟨-, hptail, -⟩ := Spaced.append_iff.mp h.spaced
  obtain ⟨hunits, -⟩ := h.block
  obtain ⟨-, hpenc, hchpost⟩ := Chain.append_iff.mp h.chain
  have hholds : g.Holds mem base post := ⟨h.dvd, hptail.2.2.2.mono (by omega), hchpost⟩
  obtain ⟨hfirst, hframe⟩ := hholds.mergeFront (by omega) hlen hhi hpost
  -- the first header written is the one of the block that is freed
  have hstep : (if !g.slob_last mem p.start && (x.start : Int) + x.len ==
        (headAddr (base + g.pageUnits) post : Nat) then
      g.set_slob mem x.start
        (g.slobidx (x.len + slob_units mem (headAddr (base + g.pageUnits) post)))
        (g.slob_next mem (headAddr (base + g.pageUnits) post))
      else g.set_slob mem x.start x.len (headAddr (base + g.pageUnits) post)) =
      g.setFront mem (base + g.pageUnits) (mergeFront x post) := by
    cases post with
    | nil =>
      rw [h.slob_last_iff.mpr rfl]
      rfl
    | cons c post =>
      obtain ⟨hclo, hclen, hchi, -⟩ := hpost
      obtain ⟨hcunits, hcnext⟩ := hholds.first
      have hlast : g.slob_last mem p.start = false := by
        rw [← Bool.not_eq_true, h.slob_last_iff]
        simp
      rw [hlast, headAddr_cons, hcunits, hcnext, mergeFront]
      by_cases htouch : x.start + x.len = c.start
      · rw [if_pos (by simp; omega), if_pos htouch, g.slobidx_eq (by omega) (by omega)]
        simp only [setFront, Nat.cast_add]
      · rw [if_neg (by simp; omega), if_neg htouch]
        simp only [setFront, headAddr_cons]
  rw [reinsert_between, hstep]
  generalize hmem : g.setFront mem (base + g.pageUnits) (mergeFront x post) = mem₁ at hfirst hframe
  have hpcells : ∀ u, p.Covers u → mem₁ u = mem u := by
    intro u hu
    apply hframe
    · intro hx
      have := hu.2
      have := hx.1
      omega
    · intro hc
      have := (hptail.2.2.2.covers_bounds hc).1
      have := hu.2
      omega
  have hpunits : slob_units mem₁ p.start = p.len := by
    rw [slob_units, hpcells p.start ⟨le_refl _, by omega⟩]
    exact hunits
  obtain ⟨z, tl, hz, hzstart⟩ := mergeFront_eq_cons x post
  rw [hz] at hfirst ⊢
  obtain ⟨hzlo, hzlen, hzhi, -⟩ := hfirst.spaced
  obtain ⟨hzunits, hznext⟩ := hfirst.first
  rw [hzstart] at hzunits hznext
  rw [hpunits, hzunits, hznext, mergeFront]
  by_cases htouch : p.start + p.len = z.start
  · rw [if_pos (by omega), if_pos htouch, g.slobidx_eq (by omega) (by omega), add_comm]
    simp only [setFront, Nat.cast_add]
  · rw [if_neg (by omega), if_neg htouch]
    simp only [setFront, headAddr_cons, hzstart]

/-- Putting a block back between two neighbours, with each of the four combinations
    of merges, leaves the blocks before the left neighbour alone. -/
theorem reinsert_between_spec {init post : List Interval} {p x : Interval}
    (h : g.Holds mem base (init ++ p :: post)) (hlen : 0 < x.len)
    (hp : p.start + p.len ≤ x.start) (hhi : x.start + x.len ≤ base + g.pageUnits)
    (hpost : Spaced 0 (base + g.pageUnits) (x.start + x.len) post) :
    g.Holds (g.reinsert_between mem p.start (headAddr (base + g.pageUnits) post) x.start x.len) base
        (init ++ mergeFront p (mergeFront x post)) ∧
      ∀ u, ¬ x.Covers u → ¬ covers (init ++ p :: post) u →
        g.reinsert_between mem p.start (headAddr (base + g.pageUnits) post) x.start x.len u = mem u := by
  obtain ⟨hplo, hplen, hphi⟩ := h.spaced.bounds p (by simp)
  obtain ⟨hinit, hptail, hsep⟩ := Spaced.append_iff.mp h.spaced
  obtain ⟨hchinit, -, hchpost⟩ := Chain.append_iff.mp h.chain
  have hholds : g.Holds mem base post := ⟨h.dvd, hptail.2.2.2.mono (by omega), hchpost⟩
  obtain ⟨hholds₁, hframe₁⟩ := hholds.mergeFront (by omega) hlen hhi hpost
  obtain ⟨z, tl, hz, hzstart⟩ := mergeFront_eq_cons x post
  have hl₁ : Spaced 0 (base + g.pageUnits) (p.start + p.len) (mergeFront x post) := by
    rw [hz] at hholds₁ ⊢
    exact ⟨by omega, hholds₁.spaced.2⟩
  obtain ⟨hholds₂, hframe₂⟩ := hholds₁.mergeFront hplo hplen hphi hl₁
  rw [← reinsert_between_eq h hlen hp hhi hpost] at hholds₂ hframe₂
  have hframe : ∀ u, ¬ p.Covers u → ¬ x.Covers u → ¬ covers post u →
      g.reinsert_between mem p.start (headAddr (base + g.pageUnits) post) x.start x.len u = mem u := by
    intro u hnp hnx hnpost
    rw [hframe₂ u hnp (by rw [covers_mergeFront]; tauto), hframe₁ u hnx hnpost]
  have hinitcells : ∀ u, covers init u → ¬ p.Covers u ∧ ¬ x.Covers u ∧ ¬ covers post u := by
    rintro u ⟨a, ha, hau⟩
    have hap := hsep a ha p (by simp)
    have hend := hau.2
    refine ⟨fun hu => ?_, fun hu => ?_, fun hu => ?_⟩
    · have := hu.1
      omega
    · have := hu.1
      omega
    · have := (hptail.2.2.2.covers_bounds hu).1
      omega
  obtain ⟨w, tl', hw, hwstart⟩ := mergeFront_eq_cons p (mergeFront x post)
  refine ⟨⟨h.dvd, ?_, ?_⟩, fun u hx hl => ?_⟩
  · refine Spaced.append_iff.mpr ⟨hinit, hholds₂.spaced, fun a ha d hd => ?_⟩
    have hap := hsep a ha p (by simp)
    have hbound := hholds₂.spaced
    rw [hw] at hd hbound
    obtain rfl | hd := List.mem_cons.mp hd
    · omega
    · have := (hbound.2.2.2.bounds d hd).1
      omega
  · refine Chain.append_iff.mpr ⟨?_, hholds₂.chain⟩
    rw [hw, headAddr_cons, hwstart]
    apply hchinit.frame hinit
    intro u hu
    obtain ⟨hnp, hnx, hnpost⟩ := hinitcells u hu
    exact hframe u hnp hnx hnpost
  · simp only [covers_append, covers_cons, not_or] at hl
    exact hframe u hl.2.1 hx hl.2.2

/-- Putting a block back refines merging it into the abstract free list: the walk
    ends, the cells decode to the merged list, and only cells of the block and of
    the free list are written. -/
theorem slob_free_reinsert_spec {l : List Interval} {x : Interval} (h : g.Holds mem base l)
    (hgap : Gapped (base + g.pageUnits) base l) (hne : l ≠ []) (hlo : base ≤ x.start)
    (hlen : 0 < x.len) (hhi : x.start + x.len ≤ base + g.pageUnits)
    (hdisj : ∀ u, x.Covers u → ¬ covers l u) :
    ∃ mem', g.slob_free_reinsert mem (headAddr (base + g.pageUnits) l) x.start x.len =
        .ok (mem', headAddr (base + g.pageUnits) (merge x l)) ∧
      g.Holds mem' base (merge x l) ∧ ∀ u, ¬ x.Covers u → ¬ covers l u → mem' u = mem u := by
  have hafter : ∀ c ∈ l, x.start < c.start → x.start + x.len ≤ c.start := by
    intro c hc hlt
    by_contra hnot
    have := (hgap.bounds c hc).2.1
    exact hdisj c.start ⟨by omega, by omega⟩ ⟨c, hc, le_refl _, by omega⟩
  have hbefore : ∀ c ∈ l, c.start ≤ x.start → c.start + c.len ≤ x.start := by
    intro c hc hle
    by_contra hnot
    exact hdisj x.start ⟨le_refl _, by omega⟩ ⟨c, hc, hle, by omega⟩
  rw [slob_free_reinsert]
  by_cases hfirst : x.start < headAddr (base + g.pageUnits) l
  · have hl : Spaced 0 (base + g.pageUnits) (x.start + x.len) l := by
      cases l with
      | nil => exact absurd rfl hne
      | cons c l => exact ⟨hafter c (by simp) hfirst, h.spaced.2⟩
    have hall : ∀ c ∈ l, x.start < c.start := by
      intro c hc
      have := (hl.bounds c hc).1
      omega
    obtain ⟨hholds, hframe⟩ := h.mergeFront hlo hlen hhi hl
    rw [if_pos hfirst, reinsert_first_eq h hne hlen hlo hl, merge_eq_mergeFront hall]
    refine ⟨_, ?_, hholds, hframe⟩
    obtain ⟨z, tl, hz, hzstart⟩ := mergeFront_eq_cons x l
    rw [hz, headAddr_cons, hzstart]
  · rw [if_neg hfirst]
    cases l with
    | nil => exact absurd rfl hne
    | cons c l =>
      rw [headAddr_cons] at hfirst ⊢
      have hcx : c.start < x.start := by
        have := hbefore c (by simp) (by omega)
        have := (hgap.bounds c (by simp)).2.1
        omega
      have hfuel : l.length < g.pageUnits := by
        have hlength := hgap.length_le_total
        have htotal := hgap.total_le (by omega)
        simp only [List.length_cons] at hlength
        omega
      obtain ⟨init, p, post, hsplit, hp, hpost, hloop⟩ :=
        slob_free_loop_spec (show g.Holds mem base ([] ++ c :: l) from h) hcx (by omega) hfuel
      rw [List.nil_append] at hsplit
      rw [h.first.2, hloop]
      rw [hsplit] at h hgap hdisj hbefore hafter ⊢
      obtain ⟨-, hptail, -⟩ := Spaced.append_iff.mp h.spaced
      have hpx := hbefore p (by simp) (by omega)
      have hl : Spaced 0 (base + g.pageUnits) (x.start + x.len) post := by
        cases post with
        | nil => trivial
        | cons d post =>
          have hd : x.start < d.start := by
            have := hbefore d (by simp)
            have := hptail.2.2.2.2.1
            simp only [headAddr_cons] at hpost
            omega
          exact ⟨hafter d (by simp) hd, hptail.2.2.2.2⟩
      have hall : ∀ c ∈ post, x.start < c.start := by
        intro c hc
        have := (hl.bounds c hc).1
        omega
      obtain ⟨hholds, hframe⟩ := reinsert_between_spec h hlen hpx hhi hl
      rw [merge_append hgap hp hall]
      refine ⟨_, ?_, hholds, hframe⟩
      obtain ⟨w, tl, hw, hwstart⟩ := mergeFront_eq_cons p (mergeFront x post)
      have hhead := congrArg (headAddr (base + g.pageUnits)) hsplit
      rw [headAddr_cons, headAddr_append, headAddr_cons] at hhead
      rw [headAddr_append, hw, headAddr_cons, hwstart, ← hhead]
      rfl

end Geometry

end cs444.slob
