import Cs444.Slob.PageOps

open interval

open Function

namespace cs444.slob

variable {g : Geometry} {h : Heap} {pfn : Nat} {l : List Interval}

/-- What putting a block back may change besides the page it belongs to. A page
    that was full goes to the front of the list for the size of the freed block. -/
structure ReturnedTo (h h' : Heap) (pfn : Nat) (l : List Interval) (x : Interval) (size : Nat) :
    Prop where
  other : ∀ q, q ≠ pfn → h'.page q = h.page q
  slab : (h'.page pfn).slab = (h.page pfn).slab
  mem : ∀ u, ¬ x.Covers u → ¬ covers l u → h'.mem u = h.mem u
  list : h'.list = if l = [] then
    update h.list (sizeClass size) (pfn :: h.list (sizeClass size)) else h.list
  used : h'.mem_used = toInt (h.mem_used - size)
  claimed : h'.mem_claimed = h.mem_claimed

/-- What giving a page back changes. -/
structure Released (g : Geometry) (h h' : Heap) (pfn size : Nat) : Prop where
  other : ∀ q, q ≠ pfn → h'.page q = h.page q
  slab : (h'.page pfn).slab = false
  slobFree : (h'.page pfn).slobFree = false
  mem : h'.mem = h.mem
  list : h'.list = if (h.page pfn).slobFree then fun c => (h.list c).erase pfn else h.list
  used : h'.mem_used = toInt (h.mem_used - size)
  claimed : h'.mem_claimed = toInt (h.mem_claimed - g.PAGE_SIZE)

/-- A block of a held page: where it lies and what it does not overlap. -/
structure Returnable (g : Geometry) (pfn : Nat) (l : List Interval) (b size : Nat) : Prop where
  pos : 0 < pfn
  size_pos : 0 < size
  lo : pfn * g.pageUnits ≤ b
  hi : b + g.SLOB_UNITS size ≤ pfn * g.pageUnits + g.pageUnits
  disjoint : ∀ u, (⟨b, g.SLOB_UNITS size⟩ : Interval).Covers u → ¬ covers l u

theorem Returnable.not_null {b size : Nat} (hr : Returnable g pfn l b size) :
    ¬ b * g.SLOB_UNIT ≤ 16 := by
  have hsize := g.lt_PAGE_SIZE
  have hunits : g.pageUnits ≤ b := (Nat.le_mul_of_pos_left _ hr.pos).trans hr.lo
  have hmul := Nat.mul_le_mul_right g.SLOB_UNIT hunits
  rw [g.pageUnits_mul] at hmul
  omega

theorem Returnable.virt_to_page_eq {b size : Nat} (hr : Returnable g pfn l b size) :
    g.virt_to_page b = pfn := by
  have hunits := g.SLOB_UNITS_pos hr.size_pos
  have hhi := hr.hi
  exact Geometry.virt_to_page_eq_iff.mpr ⟨hr.lo, by omega⟩

theorem Returnable.slobidx_units {b size : Nat} (hr : Returnable g pfn l b size) :
    g.slobidx (g.SLOB_UNITS size) = g.SLOB_UNITS size := by
  have hlo := hr.lo
  have hhi := hr.hi
  exact g.slobidx_eq (by omega) (by omega)

/-- The free units of a page together with a block of it fill at most the page. -/
theorem PageOk.total_add_le {b size : Nat} (hp : PageOk g h pfn l) (hr : Returnable g pfn l b size) :
    total l + g.SLOB_UNITS size ≤ g.pageUnits := by
  have hgap := hp.gapped.merge (x := ⟨b, g.SLOB_UNITS size⟩) hr.lo (g.SLOB_UNITS_pos hr.size_pos)
    hr.hi hr.disjoint
  have htotal := hgap.total_le (Nat.le_add_right _ _)
  rw [total_merge] at htotal
  simp only at htotal
  omega

/-- The last block of a page: `slob_free` gives the page back. -/
theorem slob_free_last {b size : Nat} (hp : PageOk g h pfn l) (hr : Returnable g pfn l b size)
    (hfull : total l + g.SLOB_UNITS size = g.pageUnits) :
    ∃ h', g.slob_free h b size = .ok h' ∧ Released g h h' pfn size := by
  have hcond : (h.page pfn).units + g.SLOB_UNITS size = g.pageUnits := by
    rw [hp.units]
    omega
  refine ⟨g.slob_free_release { h with mem_used := toInt (h.mem_used - size) } pfn, ?_, ?_⟩
  · simp only [Geometry.slob_free, if_neg hr.not_null, if_neg hr.size_pos.ne', hr.virt_to_page_eq,
      hr.slobidx_units, hcond, if_true]
    rfl
  · by_cases hflag : (h.page pfn).slobFree = true
    · constructor <;>
        simp_all [Geometry.slob_free_release, Heap.clear_slob_page_free, Heap.setPage]
    · constructor <;> simp_all [Geometry.slob_free_release, Heap.setPage]

/-- Any other block: `slob_free` merges its units into the free list of its page. -/
theorem slob_free_other {b size : Nat} (hp : PageOk g h pfn l) (hr : Returnable g pfn l b size)
    (hmore : total l + g.SLOB_UNITS size ≠ g.pageUnits) :
    ∃ h', g.slob_free h b size = .ok h' ∧ PageOk g h' pfn (merge ⟨b, g.SLOB_UNITS size⟩ l) ∧
      ReturnedTo h h' pfn l ⟨b, g.SLOB_UNITS size⟩ size := by
  have hcond : ¬ (h.page pfn).units + g.SLOB_UNITS size = g.pageUnits := by
    rw [hp.units]
    omega
  have hunits := g.SLOB_UNITS_pos hr.size_pos
  have hlo := hr.lo
  have hhi := hr.hi
  by_cases hempty : l = []
  · subst hempty
    have hflag : (h.page pfn).slobFree = false := by
      rw [← Bool.not_eq_true, hp.flag]
      simp
    have hmask : g.pageBase (b + g.pageUnits) = pfn * g.pageUnits + g.pageUnits := by
      apply g.pageBase_eq
      · exact (Nat.dvd_add_right (Nat.dvd_mul_left _ _)).mpr (dvd_refl _)
      · omega
      · omega
    have hspaced : Spaced 1 (pfn * g.pageUnits + g.pageUnits) (pfn * g.pageUnits)
        [⟨b, g.SLOB_UNITS size⟩] := ⟨hlo, hunits, hhi, trivial⟩
    obtain ⟨hholds, hframe⟩ := Geometry.Holds.set_cons hp.holds.dvd
      (hspaced.weaken (Nat.zero_le _)) hp.holds.chain
    refine ⟨g.slob_free_first { h with mem_used := toInt (h.mem_used - size) } pfn b
      (g.SLOB_UNITS size) size, ?_, ?_, ?_⟩
    · simp only [Geometry.slob_free, if_neg hr.not_null, if_neg hr.size_pos.ne',
        hr.virt_to_page_eq, hr.slobidx_units, if_neg hcond, hflag, if_true]
      rfl
    · exact ⟨⟨by simpa [Geometry.slob_free_first, Heap.set_slob_page_free, Heap.setPage, hmask, merge]
          using hholds, hspaced,
        by simp [Geometry.slob_free_first, Heap.set_slob_page_free, Heap.setPage, merge]⟩,
        by simp [Geometry.slob_free_first, Heap.set_slob_page_free, Heap.setPage, merge],
        by simp [Geometry.slob_free_first, Heap.set_slob_page_free, Heap.setPage, merge]⟩
    · refine ⟨fun q hq => ?_, ?_, fun u hu _ => ?_, ?_, ?_, ?_⟩
      · simp [Geometry.slob_free_first, Heap.set_slob_page_free, Heap.setPage, update_of_ne hq]
      · simp [Geometry.slob_free_first, Heap.set_slob_page_free, Heap.setPage]
      · have := hframe u hu
        simpa [Geometry.slob_free_first, Heap.set_slob_page_free, Heap.setPage, hmask] using this
      · simp [Geometry.slob_free_first, Heap.set_slob_page_free, Heap.setPage]
      · rfl
      · rfl
  · have hflag : ¬ (h.page pfn).slobFree = false := by
      rw [Bool.not_eq_false, hp.flag]
      exact hempty
    obtain ⟨mem', hrun, hholds, hframe⟩ := Geometry.slob_free_reinsert_spec
      (x := ⟨b, g.SLOB_UNITS size⟩) hp.holds hp.gapped hempty hlo hunits hhi hr.disjoint
    rw [← hp.free] at hrun
    have hcap := hp.total_add_le hr
    have hadd : g.slobidx ((h.page pfn).units + g.SLOB_UNITS size) =
        (total (merge ⟨b, g.SLOB_UNITS size⟩ l) : Nat) := by
      rw [hp.units, total_merge, g.slobidx_eq (by omega) (by omega)]
      simp only
      omega
    have hgap := hp.gapped.merge (x := ⟨b, g.SLOB_UNITS size⟩) hlo hunits hhi hr.disjoint
    have hne : merge ⟨b, g.SLOB_UNITS size⟩ l ≠ [] := by
      intro hnil
      have := total_merge ⟨b, g.SLOB_UNITS size⟩ l
      rw [hnil] at this
      simp only [total_nil] at this
      omega
    rw [Bool.not_eq_false] at hflag
    let h₀ : Heap := { h with mem_used := toInt (h.mem_used - size) }
    let sp : slob_page := { h.page pfn with
      units := (total (merge ⟨b, g.SLOB_UNITS size⟩ l) : Nat)
      free := Geometry.headAddr (pfn * g.pageUnits + g.pageUnits) (merge ⟨b, g.SLOB_UNITS size⟩ l) }
    refine ⟨{ h₀.setPage pfn sp with mem := mem' }, ?_, ⟨⟨hholds, hgap, ?_⟩, ?_, ?_⟩,
      ⟨fun q hq => ?_, ?_, hframe, ?_, rfl, rfl⟩⟩
    · simp only [Geometry.slob_free, if_neg hr.not_null, if_neg hr.size_pos.ne',
        hr.virt_to_page_eq, hr.slobidx_units, if_neg hcond, hflag, Bool.true_eq_false, if_false, hrun,
        hadd, bind, Except.bind, pure, Except.pure, h₀, sp]
    · simp [Heap.setPage, sp]
    · simp [Heap.setPage, sp]
    · simp [Heap.setPage, sp, hflag, hne]
    · simp [Heap.setPage, update_of_ne hq, h₀]
    · simp [Heap.setPage, sp]
    · simp [Heap.setPage, hempty, h₀]

end cs444.slob
