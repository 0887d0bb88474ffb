import Cs444.Slob.PageAlloc

open interval

namespace cs444.slob

namespace Geometry

variable {g : Geometry} {mem : Mem} {base : Nat}

/-- Redirecting the next pointer of the last block of `pre`, or the list head when
    `pre` is empty, writes only cells of `pre`. -/
theorem relink_spec {pre : List Interval} {n : Nat} (next : Nat) (hdvd : g.pageUnits ∣ base)
    (hpre : Spaced 0 (base + g.pageUnits) base pre) (hchain : g.Chain mem n pre)
    (hn : ∀ p ∈ pre, p.start < n) (hnext : ∀ p ∈ pre, p.start < next)
    (hend : next ≤ base + g.pageUnits) :
    g.Chain (g.relink mem (headAddr n pre) (lastAddr pre) next).1 next pre ∧
      (g.relink mem (headAddr n pre) (lastAddr pre) next).2 = headAddr next pre ∧
      ∀ u, ¬ covers pre u → (g.relink mem (headAddr n pre) (lastAddr pre) next).1 u = mem u := by
  obtain rfl | ⟨init, p, rfl⟩ := pre.eq_nil_or_concat'
  · exact ⟨trivial, rfl, fun _ _ => rfl⟩
  · obtain ⟨hlo, hlen, hhi⟩ := hpre.bounds p (by simp)
    obtain ⟨hinit, hp⟩ := Chain.append_iff.mp hchain
    have hsep := (Spaced.append_iff.mp hpre).2.2
    have hpage : g.pageBase p.start = base := g.pageBase_eq hdvd hlo (by omega)
    have hunits : slob_units mem p.start = p.len :=
      hp.1.slob_units_eq hlen (by have := hn p (by simp); simpa [hpage] using by omega)
    have hframe : ∀ u, ¬ p.Covers u → g.set_slob mem p.start p.len next u = mem u :=
      fun u hu => set_slob_frame mem (by omega) hu hlen
    simp only [relink, lastAddr_concat, hunits]
    refine ⟨Chain.append_iff.mpr ⟨?_, ?_, trivial⟩, ?_, fun u hu => hframe u fun hc => ?_⟩
    · apply Chain.frame (by simpa using hinit) (Spaced.append_iff.mp hpre).1
      intro u hu
      obtain ⟨a, ha, hau⟩ := hu
      apply hframe
      intro hc
      have := hsep a ha p (by simp)
      have := hau.2
      have := hc.1
      omega
    · exact set_slob_encoded mem hdvd hlo hlen hhi (hnext p (by simp)) hend
    · simp only [headAddr_append, headAddr_cons]
    · exact hu (by simp [hc])

/-- Splitting the units before the aligned address off the chosen block. Both
    headers are written before the old one is read again, so the list the cells
    decode to is the old one with that block cut in two. -/
theorem fragment_head_spec {pre post : List Interval} {b : Interval} {best : Candidate} {units : Nat}
    (h : g.Holds mem base (pre ++ b :: post)) (hprev : best.prev = lastAddr pre)
    (hcur : best.cur = b.start) (hal : best.delta ≠ 0 → best.aligned = b.start + best.delta)
    (hunits : 0 < units) (hfit : units + best.delta ≤ b.len) :
    ∃ mem' prev, g.fragment_head mem best = (mem', prev, b.start + best.delta) ∧
      prev = lastAddr (pre ++ piece b.start best.delta) ∧
      g.Holds mem' base
        ((pre ++ piece b.start best.delta) ++ ⟨b.start + best.delta, b.len - best.delta⟩ :: post) ∧
      ∀ u, ¬ b.Covers u → mem' u = mem u := by
  by_cases hzero : best.delta = 0
  · refine ⟨mem, best.prev, ?_, ?_, ?_, fun _ _ => rfl⟩
    · simp [fragment_head, hzero, hcur]
    · simp [hprev, hzero, piece]
    · simpa [hzero, piece] using h
  obtain ⟨hlo, hlen, hhi⟩ := h.spaced.bounds b (by simp)
  obtain ⟨hpre, hb, hsep⟩ := Spaced.append_iff.mp h.spaced
  obtain ⟨hchpre, hbenc, hchpost⟩ := Chain.append_iff.mp h.chain
  obtain ⟨hdec, hdecn⟩ := h.block
  have hpost := hb.2.2.2
  let x : Interval := ⟨b.start, best.delta⟩
  let y : Interval := ⟨b.start + best.delta, b.len - best.delta⟩
  let e := headAddr (base + g.pageUnits) post
  have he : b.start + b.len ≤ e ∧ e ≤ base + g.pageUnits := headAddr_bounds hpost hhi
  have hlens : 0 < x.len ∧ 0 < y.len ∧ x.len ≤ g.pageUnits ∧ y.len ≤ g.pageUnits := by
    simp only [x, y]
    omega
  -- the first header written is the aligned one, the second overwrites at most its own cells
  let mem₁ := g.set_slob mem y.start y.len e
  let mem₂ := g.set_slob mem₁ x.start x.len y.start
  have hrun : g.fragment_head mem best = (mem₂, some b.start, b.start + best.delta) := by
    have hsub : (b.len : Int) - best.delta = (y.len : Nat) := by simp only [y]; omega
    simp only [fragment_head, if_neg hzero, hcur, hal hzero, hdec, hdecn, hsub, mem₂, mem₁, x, y, e]
  have hxy : ∀ u, y.Covers u → ¬ x.Covers u := by
    intro u hy hx
    have := hy.1
    have := hx.2
    simp only [x, y] at *
    omega
  have hin : ∀ u, ¬ b.Covers u → ¬ x.Covers u ∧ ¬ y.Covers u := by
    intro u hu
    simp only [Interval.Covers, x, y] at *
    omega
  have hframe : ∀ u, ¬ b.Covers u → mem₂ u = mem u := by
    intro u hu
    obtain ⟨hx, hy⟩ := hin u hu
    simp only [mem₂, mem₁]
    rw [set_slob_frame _ hlens.2.2.1 hx hlens.1, set_slob_frame _ hlens.2.2.2 hy hlens.2.1]
  have hyenc : g.Encoded mem₂ y e := by
    apply Encoded.frame (set_slob_encoded mem h.dvd _ hlens.2.1 _ _ he.2) hlens.2.1
    · intro u hu
      exact set_slob_frame _ hlens.2.2.1 (hxy u hu) hlens.1
    all_goals simp only [y]; omega
  have hxenc : g.Encoded mem₂ x y.start := by
    apply set_slob_encoded mem₁ h.dvd _ hlens.1 <;> simp only [x, y] <;> omega
  have houter : ∀ u, covers pre u ∨ covers post u → ¬ b.Covers u := by
    rintro u (⟨a, ha, hau⟩ | hu) hbu
    · have := hsep a ha b (by simp)
      have := hau.2
      have := hbu.1
      omega
    · have := (hpost.covers_bounds hu).1
      have := hbu.2
      omega
  refine ⟨mem₂, some b.start, hrun, ?_, ⟨h.dvd, ?_, ?_⟩, hframe⟩
  · simp [piece, hzero]
  · rw [List.append_assoc, Spaced.append_iff]
    refine ⟨hpre, ?_, fun a ha c hc => ?_⟩
    · apply Spaced.piece_append hb.1 (by omega)
      exact ⟨by simp, hlens.2.1, by simp only; omega, hpost.mono (by simp only; omega)⟩
    · have hab := hsep a ha b (by simp)
      obtain hc | hc := List.mem_append.mp hc
      · rw [mem_piece hc]
        exact hab
      · obtain rfl | hc := List.mem_cons.mp hc
        · simp only
          omega
        · exact hsep a ha c (by simp [hc])
  · rw [List.append_assoc, Chain.append_iff]
    refine ⟨?_, ?_⟩
    · have hhead : headAddr (base + g.pageUnits) (piece b.start best.delta ++ y :: post) = b.start := by
        simp [piece, hzero]
      rw [hhead]
      exact hchpre.frame hpre fun u hu => hframe u (houter u (.inl hu))
    · rw [piece, if_neg hzero]
      exact ⟨hxenc, hyenc, hchpost.frame hpost fun u hu => hframe u (houter u (.inr hu))⟩

/-- Taking units from the front of a free block, exact fit or not, with or without
    a predecessor. Only cells that stay free are written. -/
theorem unlink_front_spec {pre post : List Interval} {b : Interval} {units : Nat}
    (h : g.Holds mem base (pre ++ b :: post)) (hunits : 0 < units) (hfit : units ≤ b.len) :
    ∃ mem' free', g.unlink_front mem (headAddr (base + g.pageUnits) (pre ++ b :: post))
        (lastAddr pre) b.start units = (mem', free') ∧
      g.Holds mem' base (pre ++ piece (b.start + units) (b.len - units) ++ post) ∧
      free' = headAddr (base + g.pageUnits) (pre ++ piece (b.start + units) (b.len - units) ++ post) ∧
      ∀ u, ¬ covers (pre ++ piece (b.start + units) (b.len - units)) u → mem' u = mem u := by
  obtain ⟨hlo, hlen, hhi⟩ := h.spaced.bounds b (by simp)
  obtain ⟨hpre, hb, hsep⟩ := Spaced.append_iff.mp h.spaced
  obtain ⟨hchpre, hbenc, hchpost⟩ := Chain.append_iff.mp h.chain
  obtain ⟨hdec, hdecn⟩ := h.block
  have hpost := hb.2.2.2
  have hbefore : ∀ p ∈ pre, p.start < b.start := by
    intro p hp
    have := hsep p hp b (by simp)
    have := (hpre.bounds p hp).2.1
    omega
  have hpostpre : ∀ u, covers post u → ¬ covers pre u := by
    rintro u hu ⟨a, ha, hau⟩
    have := (hpost.covers_bounds hu).1
    have := hsep a ha b (by simp)
    have := hau.2
    omega
  rw [headAddr_append, headAddr_cons]
  by_cases hexact : b.len = units
  · have hpiece : piece (b.start + units) (b.len - units) = [] := by simp [piece, hexact]
    let e := headAddr (base + g.pageUnits) post
    let r := g.relink mem (headAddr b.start pre) (lastAddr pre) e
    have he : b.start + b.len ≤ e ∧ e ≤ base + g.pageUnits := headAddr_bounds hpost hhi
    obtain ⟨hch, hfree, hframe⟩ := relink_spec e h.dvd hpre hchpre hbefore
      (fun p hp => by have := hbefore p hp; omega) he.2
    refine ⟨r.1, r.2, ?_, ⟨h.dvd, ?_, ?_⟩, ?_, ?_⟩
    · rw [unlink_front, hdec, if_pos (by omega), hdecn]
    · rw [hpiece, List.append_nil]
      exact Spaced.append_iff.mpr ⟨hpre, hpost.mono (by omega), fun a ha c hc => hsep a ha c (by simp [hc])⟩
    · rw [hpiece, List.append_nil, Chain.append_iff]
      exact ⟨hch, hchpost.frame hpost fun u hu => hframe u (hpostpre u hu)⟩
    · rw [hpiece, List.append_nil, headAddr_append]
      exact hfree
    · rw [hpiece, List.append_nil]
      exact hframe
  · have hpiece : piece (b.start + units) (b.len - units) = [⟨b.start + units, b.len - units⟩] := by
      rw [piece, if_neg (by omega)]
    let z : Interval := ⟨b.start + units, b.len - units⟩
    have hz : 0 < z.len ∧ z.len ≤ g.pageUnits := by
      simp only [z]
      omega
    obtain ⟨hch, hfree, hframe⟩ := relink_spec (b.start + units) h.dvd hpre hchpre hbefore
      (fun p hp => by have := hbefore p hp; omega) (by omega)
    let r := g.relink mem (headAddr b.start pre) (lastAddr pre) (b.start + units)
    let e := headAddr (base + g.pageUnits) post
    have he : b.start + b.len ≤ e ∧ e ≤ base + g.pageUnits := headAddr_bounds hpost hhi
    have hzframe : ∀ u, ¬ z.Covers u → g.set_slob r.1 z.start z.len e u = r.1 u :=
      fun u hu => set_slob_frame _ hz.2 hu hz.1
    have hzpre : ∀ u, covers pre u → ¬ z.Covers u := by
      rintro u ⟨a, ha, hau⟩ hzu
      have := hsep a ha b (by simp)
      have := hau.2
      have := hzu.1
      simp only [z] at *
      omega
    have hzpost : ∀ u, covers post u → ¬ z.Covers u := by
      intro u hu hzu
      have := (hpost.covers_bounds hu).1
      have := hzu.2
      simp only [z] at *
      omega
    have hrun : g.unlink_front mem (headAddr b.start pre) (lastAddr pre) b.start units =
        (g.set_slob r.1 z.start z.len e, r.2) := by
      have hsub : (b.len : Int) - units = (z.len : Nat) := by simp only [z]; omega
      rw [unlink_front, hdec, if_neg (by omega), hdecn, hsub]
    refine ⟨_, _, hrun, ⟨h.dvd, ?_, ?_⟩, ?_, ?_⟩
    · rw [hpiece, List.append_assoc, Spaced.append_iff]
      refine ⟨hpre, ⟨by simp only; omega, hz.1, by simp only; omega, hpost.mono (by simp only; omega)⟩, ?_⟩
      intro a ha c hc
      have hab := hsep a ha b (by simp)
      obtain rfl | hc := List.mem_cons.mp hc
      · simp only
        omega
      · exact hsep a ha c (List.mem_cons_of_mem b hc)
    · rw [hpiece, List.append_assoc, Chain.append_iff]
      refine ⟨?_, ?_, ?_⟩
      · exact hch.frame hpre fun u hu => hzframe u (hzpre u hu)
      · apply set_slob_encoded r.1 h.dvd _ hz.1 _ _ he.2 <;> simp only [z] <;> omega
      · apply hchpost.frame hpost
        intro u hu
        exact (hzframe u (hzpost u hu)).trans (hframe u (hpostpre u hu))
    · rw [hpiece, List.append_assoc, headAddr_append]
      exact hfree
    · intro u hu
      rw [hpiece] at hu
      simp only [covers_append, covers_cons, covers_nil, or_false, not_or] at hu
      exact (hzframe u hu.2).trans (hframe u hu.1)

/-- The commit step of `slob_page_alloc` cuts the chosen units out of the free list. -/
theorem slob_page_alloc_commit_spec {pre post : List Interval} {b : Interval} {best : Candidate}
    {units : Nat} (h : g.Holds mem base (pre ++ b :: post)) (hprev : best.prev = lastAddr pre)
    (hcur : best.cur = b.start) (hal : best.delta ≠ 0 → best.aligned = b.start + best.delta)
    (hunits : 0 < units) (hfit : units + best.delta ≤ b.len) :
    ∃ mem' free', g.slob_page_alloc_commit mem (headAddr (base + g.pageUnits) (pre ++ b :: post))
        units best = (b.start + best.delta, mem', free') ∧
      g.Holds mem' base (cut ⟨b.start + best.delta, units⟩ (pre ++ b :: post)) ∧
      free' = headAddr (base + g.pageUnits) (cut ⟨b.start + best.delta, units⟩ (pre ++ b :: post)) ∧
      ∀ u, ¬ covers (pre ++ b :: post) u → mem' u = mem u := by
  obtain ⟨mem₁, prev, hfrag, rfl, hholds, hframe⟩ :=
    fragment_head_spec h hprev hcur hal hunits hfit
  obtain ⟨mem₂, free', hunlink, hholds', hfree, hframe'⟩ :=
    unlink_front_spec hholds hunits (by simp only; omega)
  have hcut := cut_append (x := ⟨b.start + best.delta, units⟩) h.spaced
    (by simp) hunits (by simp only; omega)
  have hlist : (pre ++ piece b.start best.delta) ++
      piece (b.start + best.delta + units) (b.len - best.delta - units) ++ post =
      cut ⟨b.start + best.delta, units⟩ (pre ++ b :: post) := by
    rw [hcut]
    simp only [List.append_assoc, Nat.add_sub_cancel_left]
    congr 4
    omega
  have hhead : headAddr (base + g.pageUnits) (pre ++ b :: post) = headAddr (base + g.pageUnits)
      ((pre ++ piece b.start best.delta) ++ ⟨b.start + best.delta, b.len - best.delta⟩ :: post) := by
    by_cases hzero : best.delta = 0
    · simp [headAddr_append, piece, hzero]
    · simp [headAddr_append, piece, hzero]
  refine ⟨mem₂, free', ?_, hlist ▸ hholds', hlist ▸ hfree, fun u hu => ?_⟩
  · rw [slob_page_alloc_commit, hfrag, hhead]
    simp only [hunlink]
  · simp only [covers_append, covers_cons, not_or] at hu
    have hrest : ¬ covers ((pre ++ piece b.start best.delta) ++
        piece (b.start + best.delta + units) (b.len - best.delta - units)) u := by
      simp only [covers_append, covers_piece, Interval.Covers, not_or] at hu ⊢
      refine ⟨⟨hu.1, ?_⟩, ?_⟩ <;> omega
    exact (hframe' u hrest).trans (hframe u hu.2.1)

end Geometry

end cs444.slob
