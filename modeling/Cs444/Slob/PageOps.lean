import Cs444.Slob.Heap
import Cs444.Slob.PageCommit

open interval

open Function

namespace cs444.slob

variable {g : Geometry} {h : Heap} {pfn : Nat} {l : List Interval}

theorem Geometry.virt_to_page_eq_iff {u : Nat} :
    g.virt_to_page u = pfn ↔ pfn * g.pageUnits ≤ u ∧ u < pfn * g.pageUnits + g.pageUnits := by
  rw [virt_to_page, Nat.div_eq_iff g.pageUnits_pos]
  have := g.pageUnits_pos
  omega

/-- The cells of a page and its list head spell out the free list `l`, whatever the rest of the
    descriptor says. -/
structure FreeListOk (g : Geometry) (h : Heap) (pfn : Nat) (l : List Interval) : Prop where
  holds : g.Holds h.mem (pfn * g.pageUnits) l
  gapped : Gapped (pfn * g.pageUnits + g.pageUnits) (pfn * g.pageUnits) l
  free : (h.page pfn).free = Geometry.headAddr (pfn * g.pageUnits + g.pageUnits) l

/-- The descriptor and the cells of a held page agree with its free list `l`. -/
structure PageOk (g : Geometry) (h : Heap) (pfn : Nat) (l : List Interval) : Prop extends FreeListOk g h pfn l where
  units : (h.page pfn).units = total l
  flag : (h.page pfn).slobFree = true ↔ l ≠ []

theorem FreeListOk.total_le (hp : FreeListOk g h pfn l) : total l ≤ g.pageUnits := by
  have := hp.gapped.total_le (Nat.le_add_right _ _)
  omega

theorem FreeListOk.length_le (hp : FreeListOk g h pfn l) : l.length ≤ g.pageUnits :=
  hp.gapped.length_le_total.trans hp.total_le

theorem PageOk.covers_page (hp : PageOk g h pfn l) {u : Nat} (hu : covers l u) :
    g.virt_to_page u = pfn :=
  Geometry.virt_to_page_eq_iff.mpr (hp.gapped.covers_bounds hu)

/-- A page keeps its free list while its descriptor and its free cells stay as they are. -/
theorem PageOk.frame {h' : Heap} (hp : PageOk g h pfn l) (hpage : h'.page pfn = h.page pfn)
    (hmem : ∀ u, covers l u → h'.mem u = h.mem u) : PageOk g h' pfn l where
  holds := ⟨hp.holds.dvd, hp.holds.spaced, hp.holds.chain.frame hp.holds.spaced hmem⟩
  gapped := hp.gapped
  units := by rw [hpage]; exact hp.units
  free := by rw [hpage]; exact hp.free
  flag := by rw [hpage]; exact hp.flag

/-- The free list of a page is determined by its cells. -/
theorem PageOk.unique {l' : List Interval} (hp : PageOk g h pfn l) (hp' : PageOk g h pfn l') :
    l = l' := by
  have hend : ∀ {l : List Interval}, PageOk g h pfn l →
      ∀ b ∈ l, b.start < pfn * g.pageUnits + g.pageUnits := by
    intro l hp b hb
    have := hp.gapped.bounds b hb
    omega
  have hhead := hp.free.symm.trans hp'.free
  obtain ⟨hholds, hgap⟩ := And.intro hp.holds hp.gapped
  obtain ⟨hholds', hgap'⟩ := And.intro hp'.holds hp'.gapped
  have hlt := hend hp
  have hlt' := hend hp'
  clear hp hp' hend hgap hgap'
  induction l generalizing l' with
  | nil =>
    cases l' with
    | nil => rfl
    | cons c l' =>
      have := hlt' c (by simp)
      simp only [Geometry.headAddr_nil, Geometry.headAddr_cons] at hhead
      omega
  | cons b l ih =>
    cases l' with
    | nil =>
      have := hlt b (by simp)
      simp only [Geometry.headAddr_nil, Geometry.headAddr_cons] at hhead
      omega
    | cons c l' =>
      simp only [Geometry.headAddr_cons] at hhead
      obtain ⟨hu, hn⟩ := hholds.first
      obtain ⟨hu', hn'⟩ := hholds'.first
      rw [hhead] at hu hn
      have hbc : b = c := Interval.ext hhead (by omega)
      rw [hbc, ih (hn.symm.trans hn') hholds.tail hholds'.tail
        (fun b hb => hlt b (by simp [hb])) (fun b hb => hlt' b (by simp [hb]))]

/-- A request behind which `slob_page_alloc` runs on one page. -/
structure Request (g : Geometry) (size align : Nat) : Prop where
  pos : 0 < size
  le : size ≤ g.PAGE_SIZE
  isAlign : Geometry.IsAlign align

/-- What `slob_page_alloc` may change besides the page it works on: nothing of the
    other pages, of the counters, or of memory outside the page's free blocks. A
    page that has become full leaves its list. -/
structure CarvedFrom (h h' : Heap) (pfn : Nat) (l l' : List Interval) : Prop where
  other : ∀ q, q ≠ pfn → h'.page q = h.page q
  slab : (h'.page pfn).slab = (h.page pfn).slab
  mem : ∀ u, ¬ covers l u → h'.mem u = h.mem u
  list : h'.list = if l' = [] then fun c => (h.list c).erase pfn else h.list
  used : h'.mem_used = h.mem_used
  claimed : h'.mem_claimed = h.mem_claimed

/-- The block an allocation on an abstract free list is taken from. -/
theorem bestFit_spec {align units : Nat} {c : Option Candidate}
    (hm : g.Matches units align l c (bestFit (g.delta align) units l none)) :
    (c = none ∧ listAlloc (g.delta align) units l = none) ∨
      ∃ pre b post best, c = some best ∧ l = pre ++ b :: post ∧
        Fits (g.delta align) units b ∧ best.prev = Geometry.lastAddr pre ∧ best.cur = b.start ∧
        (best.delta ≠ 0 → best.aligned = b.start + best.delta) ∧
        best.delta = g.delta align b.start ∧
        listAlloc (g.delta align) units l =
          some (b.start + best.delta, cut ⟨b.start + best.delta, units⟩ l) := by
  cases hb : bestFit (g.delta align) units l none with
  | none =>
    rw [hb] at hm
    cases c with
    | none => exact .inl ⟨rfl, by rw [listAlloc, hb]; rfl⟩
    | some c => exact absurd hm id
  | some b =>
    rw [hb] at hm
    cases c with
    | none => exact absurd hm id
    | some best =>
      obtain ⟨pre, post, hl, hfit, rfl⟩ := hm
      refine .inr ⟨pre, b, post, _, rfl, hl, hfit, rfl, rfl, fun hne => ?_, rfl, ?_⟩
      · apply Geometry.aligned_eq_add_delta
        rintro rfl
        exact hne rfl
      · rw [listAlloc, hb]
        rfl

/-- The heap after `units` units of a page were taken: the cells, the list head and the count of
    the page change, and a page whose count is 0 leaves its list. -/
def Geometry.carved (g : Geometry) (h : Heap) (pfn units : Nat) (mem : Mem) (free : Nat) : Heap :=
  let sp := { h.page pfn with units := g.slobidx ((h.page pfn).units - units), free }
  let h := { h.setPage pfn sp with mem }
  if sp.units = 0 then h.clear_slob_page_free pfn else h

@[simp] theorem carved_mem (units : Nat) (mem : Mem) (free : Nat) :
    (g.carved h pfn units mem free).mem = mem := by
  rw [Geometry.carved]
  split <;> rfl

@[simp] theorem carved_free (units : Nat) (mem : Mem) (free : Nat) :
    ((g.carved h pfn units mem free).page pfn).free = free := by
  rw [Geometry.carved]
  split <;> simp [Heap.clear_slob_page_free, Heap.setPage]

theorem carved_other {q : Nat} (units : Nat) (mem : Mem) (free : Nat) (hq : q ≠ pfn) :
    (g.carved h pfn units mem free).page q = h.page q := by
  rw [Geometry.carved]
  split <;> simp [Heap.clear_slob_page_free, Heap.setPage, update_of_ne hq]

/-- `slob_page_alloc` on a page with free units does to the cells what best-fit allocation does to
    the free list they spell out. -/
theorem FreeListOk.slob_page_alloc {size : Nat} (hp : FreeListOk g h pfn l) (align : Nat) (hne : l ≠ [])
    (hunits : 0 < g.SLOB_UNITS size) :
    match listAlloc (g.delta align) (g.SLOB_UNITS size) l with
    | none => g.slob_page_alloc h pfn size align = .ok (none, h)
    | some (b, l') => ∃ mem free,
        g.slob_page_alloc h pfn size align = .ok (some b, g.carved h pfn (g.SLOB_UNITS size) mem free) ∧
        FreeListOk g (g.carved h pfn (g.SLOB_UNITS size) mem free) pfn l' ∧
        total l' + g.SLOB_UNITS size = total l ∧ ∀ u, ¬ covers l u → mem u = h.mem u := by
  have hfuel := hp.length_le
  have hstart : g.Matches (g.SLOB_UNITS size) align l none none := trivial
  obtain ⟨c, hloop, hm⟩ :=
    Geometry.slob_page_alloc_loop_spec hp.holds (List.nil_append l).symm hne hfuel hstart
  rw [Geometry.lastAddr_nil, ← hp.free] at hloop
  obtain ⟨rfl, hnone⟩ | ⟨pre, b, post, best, rfl, rfl, hfit, hprev, hcur, hal, hdelta, hsome⟩ :=
    bestFit_spec hm
  · rw [hnone]
    simp only [Geometry.slob_page_alloc, hloop]
    rfl
  · rw [hsome]
    have hle : g.SLOB_UNITS size + best.delta ≤ b.len := by
      rw [hdelta]
      exact hfit
    obtain ⟨mem', free', hcommit, hholds, hfree, hframe⟩ :=
      Geometry.slob_page_alloc_commit_spec hp.holds hprev hcur hal hunits hle
    rw [← hp.free] at hcommit
    have hgap := hp.gapped.cut (x := ⟨b.start + best.delta, g.SLOB_UNITS size⟩)
      (by simp) hunits (by simp only; omega) hunits
    have htotal := total_cut (x := ⟨b.start + best.delta, g.SLOB_UNITS size⟩) hp.gapped
      (by simp) hunits (by simp only; omega)
    refine ⟨mem', free', ?_, ⟨?_, hgap, ?_⟩, htotal, hframe⟩
    · simp only [Geometry.slob_page_alloc, hloop, hcommit, bind, Except.bind, pure, Except.pure,
        Geometry.carved]
    · rw [carved_mem]
      exact hholds
    · rw [carved_free]
      exact hfree

/-- The same with the count of free units and the flag of the page, which stay right. -/
theorem slob_page_alloc_spec {size align : Nat} (hp : PageOk g h pfn l) (hne : l ≠ [])
    (hreq : Request g size align) :
    match listAlloc (g.delta align) (g.SLOB_UNITS size) l with
    | none => g.slob_page_alloc h pfn size align = .ok (none, h)
    | some (b, l') => ∃ h', g.slob_page_alloc h pfn size align = .ok (some b, h') ∧
        PageOk g h' pfn l' ∧ CarvedFrom h h' pfn l l' := by
  have hspec := hp.toFreeListOk.slob_page_alloc align hne (g.SLOB_UNITS_pos hreq.pos)
  split at hspec
  · exact hspec
  · rename_i b l' _
    obtain ⟨mem', free', hrun, hlist, htotal, hframe⟩ := hspec
    have hcap := hp.total_le
    have hsub : g.slobidx ((h.page pfn).units - g.SLOB_UNITS size) = (total l' : Nat) := by
      rw [hp.units, g.slobidx_eq (by omega) (by omega)]
      omega
    refine ⟨_, hrun, ?_⟩
    clear hrun
    rw [Geometry.carved, hsub] at hlist ⊢
    by_cases hempty : l' = []
    · subst hempty
      simp only [total_nil, Nat.cast_zero, if_true] at hlist ⊢
      refine ⟨⟨hlist, ?_, ?_⟩, ?_⟩
      · simp [Heap.clear_slob_page_free, Heap.setPage]
      · simp [Heap.clear_slob_page_free, Heap.setPage]
      · constructor <;> simp_all [Heap.clear_slob_page_free, Heap.setPage, update_of_ne]
    · have hpos := hlist.gapped.total_pos hempty
      have hflag : (h.page pfn).slobFree = true := hp.flag.mpr hne
      dsimp only at hlist ⊢
      rw [if_neg (by omega)] at hlist ⊢
      refine ⟨⟨hlist, ?_, ?_⟩, ?_⟩
      · simp [Heap.setPage]
      · simp [Heap.setPage, hflag, hempty]
      · constructor <;> simp_all [Heap.setPage, update_of_ne]

end cs444.slob
