import Cs444.Slob.Run

open interval

namespace cs444.slob

variable {g : Geometry} {h : Heap} {pfn : Nat} {l : List Interval} {s : State} {cs : List Call}

section Decode

/-- Read a free list off the cells: follow `slob_next` from `cur` to the last block. -/
def Geometry.decode (g : Geometry) (mem : Mem) : Nat → Nat → List Interval
  | 0, _ => []
  | fuel + 1, cur =>
    ⟨cur, (slob_units mem cur).toNat⟩ ::
      if g.slob_last mem cur then [] else g.decode mem fuel (g.slob_next mem cur)

/-- The free list of a page, read from `sp->free`; a page without free units has none. -/
def freeList (g : Geometry) (h : Heap) (pfn : Nat) : List Interval :=
  if (h.page pfn).units = 0 then [] else g.decode h.mem g.pageUnits (h.page pfn).free

/-- From `cur`, `slob_units` and `slob_next` spell out the blocks of `l`, and the last
    next pointer is `e`. -/
def Geometry.Links (g : Geometry) (mem : Mem) (e : Nat) : Nat → List Interval → Prop
  | cur, [] => cur = e
  | cur, b :: l => b.start = cur ∧ slob_units mem cur = b.len ∧ g.Links mem e (g.slob_next mem cur) l

theorem Geometry.Holds.links {mem : Mem} {base : Nat} (hh : g.Holds mem base l) :
    g.Links mem (base + g.pageUnits) (headAddr (base + g.pageUnits) l) l := by
  induction l with
  | nil => rfl
  | cons b l ih =>
    obtain ⟨hunits, hnext⟩ := hh.first
    refine ⟨rfl, hunits, ?_⟩
    rw [headAddr_cons, hnext]
    exact ih hh.tail

theorem Geometry.Holds.first_slob_last_iff {mem : Mem} {base : Nat} {b : Interval}
    (hh : g.Holds mem base (b :: l)) : g.slob_last mem b.start = true ↔ l = [] := by
  rw [← List.nil_append (b :: l)] at hh
  exact hh.slob_last_iff

theorem Geometry.Holds.decode {mem : Mem} {base fuel : Nat} {b : Interval}
    (hh : g.Holds mem base (b :: l)) (hfuel : (b :: l).length ≤ fuel) :
    g.decode mem fuel b.start = b :: l := by
  induction l generalizing b fuel with
  | nil =>
    obtain ⟨fuel, rfl⟩ : ∃ n, fuel = n + 1 := ⟨fuel - 1, by simp at hfuel; omega⟩
    have hlast := hh.first_slob_last_iff.mpr rfl
    rw [Geometry.decode, hlast, hh.first.1]
    rfl
  | cons c l ih =>
    obtain ⟨fuel, rfl⟩ : ∃ n, fuel = n + 1 := ⟨fuel - 1, by simp at hfuel; omega⟩
    have hlast : g.slob_last mem b.start = false := by
      rw [← Bool.not_eq_true, hh.first_slob_last_iff]
      simp
    rw [Geometry.decode, hlast, hh.first.1, hh.first.2, headAddr_cons, ih hh.tail (by simpa using hfuel)]
    rfl

/-- The free list of the invariant is the one the cells decode to. -/
theorem PageOk.freeList_eq (hp : PageOk g h pfn l) : freeList g h pfn = l := by
  cases l with
  | nil => rw [freeList, if_pos (by simpa using hp.units)]
  | cons b l =>
    have hpos := hp.gapped.total_pos (by simp)
    have hunits := hp.units
    have hfree : (h.page pfn).free = b.start := hp.free
    rw [freeList, if_neg (by omega), hfree]
    exact hp.holds.decode hp.length_le

theorem Core.freeList {live : List Block} (hc : Core g h live) (hslab : (h.page pfn).slab = true) :
    PageOk g h pfn (freeList g h pfn) ∧ Complements g live pfn (freeList g h pfn) := by
  obtain ⟨l, hp, hcomp⟩ := hc.pages pfn hslab
  rw [hp.freeList_eq]
  exact ⟨hp, hcomp⟩

end Decode

section Partition

/-- The live blocks and the free lists share out the units of the held pages: a live
    block lies in one held page at its alignment, apart from the other live blocks
    and from the free blocks of the page, and every unit of a held page belongs to
    exactly one live or free block. -/
structure Partition (g : Geometry) (s : State) : Prop where
  inPage : ∀ b ∈ s.live, ∃ pfn, (s.heap.page pfn).slab = true ∧ pfn * g.pageUnits ≤ b.addr ∧
    b.addr + g.SLOB_UNITS b.size ≤ pfn * g.pageUnits + g.pageUnits
  aligned : ∀ b ∈ s.live, b.align ≠ 0 → b.align ∣ b.addr * g.SLOB_UNIT
  apart : s.live.Pairwise fun a b => ∀ u, ¬ ((a.extent g).Covers u ∧ (b.extent g).Covers u)
  offFree : ∀ b ∈ s.live, ∀ f ∈ freeList g s.heap (g.virt_to_page b.addr),
    ∀ u, ¬ ((b.extent g).Covers u ∧ f.Covers u)
  once : ∀ pfn, (s.heap.page pfn).slab = true → ∀ u, g.virt_to_page u = pfn →
    (s.live.map (Block.extent g) ++ freeList g s.heap pfn).countP (fun x => x.Covers u) = 1

theorem Core.extents_disjoint {live : List Block} (hc : Core g h live) :
    (live.map (Block.extent g)).Pairwise fun x y => ∀ u, ¬ (x.Covers u ∧ y.Covers u) := by
  rw [List.pairwise_map]
  apply hc.apart.imp
  intro a b hab u hu
  simp only [Block.Apart, Interval.Covers, Block.extent] at hab hu
  omega

theorem PageOk.freeList_disjoint (hp : PageOk g h pfn l) :
    l.Pairwise fun x y => ∀ u, ¬ (x.Covers u ∧ y.Covers u) := by
  apply hp.gapped.pairwise.imp
  intro a b hab u hu
  simp only [Interval.Covers] at hu
  omega

theorem Inv.partition (hi : Inv g s) : Partition g s where
  inPage b hb := by
    have hok := hi.core.blocks b hb
    exact ⟨_, hok.held, (Geometry.virt_to_page_eq_iff.mp rfl).1, hok.fits⟩
  aligned b hb := (hi.core.blocks b hb).aligned
  apart := List.pairwise_map.mp hi.core.extents_disjoint
  offFree b hb f hf u hu := by
    have hok := hi.core.blocks b hb
    obtain ⟨hp, hcomp⟩ := hi.core.freeList hok.held
    exact (hcomp u (hok.page_of_covers hu.1)).mp ⟨f, hf, hu.2⟩ (liveUnit_of_mem hb hu.1)
  once pfn hslab u hu := by
    obtain ⟨hp, hcomp⟩ := hi.core.freeList hslab
    apply countP_covers
    · rw [List.pairwise_append]
      refine ⟨hi.core.extents_disjoint, hp.freeList_disjoint, fun x hx f hf v hv => ?_⟩
      have hv' := hp.covers_page ⟨f, hf, hv.2⟩
      exact (hcomp v hv').mp ⟨f, hf, hv.2⟩ ⟨x, hx, hv.1⟩
    · rw [covers_append, hcomp u hu]
      exact Classical.em _

/-- Over every sequence of matched calls, the live blocks and the free blocks of a
    held page cover its units exactly once. Only the promises of the callers and of
    the page allocator are assumed; every call returns. -/
theorem run_partition (hs : Initial s) (hv : ValidRun g s cs) :
    ∃ s', run g s cs = .ok s' ∧ Partition g s' := by
  obtain ⟨s', hrun, hi⟩ := hs.inv.run_ok hv
  exact ⟨s', hrun, hi.partition⟩

theorem run_partition_sample : Initial boot ∧ ValidRun page4096 boot sampleCalls ∧
    ∃ s', run page4096 boot sampleCalls = .ok s' ∧ Partition page4096 s' :=
  ⟨boot_initial, sampleCalls_valid, run_partition boot_initial sampleCalls_valid⟩

end Partition

section Canonical

/-- The list of a page is the sorted list of the maximal runs of its free units,
    linked up to the end of the page, and `sp->units` counts its units. -/
structure Canonical (g : Geometry) (s : State) (pfn : Nat) : Prop where
  links : g.Links s.heap.mem (pfn * g.pageUnits + g.pageUnits) (s.heap.page pfn).free
    (freeList g s.heap pfn)
  sorted : (freeList g s.heap pfn).Pairwise fun a b => a.start + a.len < b.start
  runs : ∀ b, b ∈ freeList g s.heap pfn ↔
    MaximalRun (fun u => g.virt_to_page u = pfn ∧ ¬ LiveUnit g s.live u) b
  units : (s.heap.page pfn).units = total (freeList g s.heap pfn)

theorem Inv.canonical (hi : Inv g s) (hslab : (s.heap.page pfn).slab = true) : Canonical g s pfn := by
  obtain ⟨hp, hcomp⟩ := hi.core.freeList hslab
  have hfree : covers (freeList g s.heap pfn) = fun u => g.virt_to_page u = pfn ∧ ¬ LiveUnit g s.live u := by
    funext u
    apply propext
    constructor
    · intro hu
      have hpage := hp.covers_page hu
      exact ⟨hpage, (hcomp u hpage).mp hu⟩
    · rintro ⟨hpage, hu⟩
      exact (hcomp u hpage).mpr hu
  refine ⟨?_, ?_, ?_, hp.units⟩
  · rw [hp.free]
    exact hp.holds.links
  · exact hp.gapped.pairwise.imp fun hab => hab
  · intro b
    rw [← hfree]
    exact hp.gapped.mem_iff_maximalRun b

/-- Pages with the same live units have the same free list. -/
theorem Inv.freeList_congr {s t : State} (hi : Inv g s) (hi' : Inv g t)
    (hslab : (s.heap.page pfn).slab = true) (hslab' : (t.heap.page pfn).slab = true)
    (hlive : ∀ u, g.virt_to_page u = pfn → (LiveUnit g s.live u ↔ LiveUnit g t.live u)) :
    freeList g s.heap pfn = freeList g t.heap pfn := by
  obtain ⟨hp, hcomp⟩ := hi.core.freeList hslab
  obtain ⟨hp', hcomp'⟩ := hi'.core.freeList hslab'
  apply hp.gapped.ext hp'.gapped
  intro u
  constructor
  · intro hu
    have hpage := hp.covers_page hu
    rw [hcomp' u hpage, ← hlive u hpage, ← hcomp u hpage]
    exact hu
  · intro hu
    have hpage := hp'.covers_page hu
    rw [hcomp u hpage, hlive u hpage, ← hcomp' u hpage]
    exact hu

/-- Over every sequence of matched calls, the free list of every held page is the
    sorted list of the maximal runs of its free units, and it depends on the live
    units of the page only: two sequences that leave the same units live leave the
    same list, whatever the order of their calls. -/
theorem run_canonical (hs : Initial s) (hv : ValidRun g s cs) :
    ∃ s', run g s cs = .ok s' ∧ (∀ pfn, (s'.heap.page pfn).slab = true → Canonical g s' pfn) ∧
      ∀ t ds t', Initial t → ValidRun g t ds → run g t ds = .ok t' →
        ∀ pfn, (s'.heap.page pfn).slab = true → (t'.heap.page pfn).slab = true →
          (∀ u, g.virt_to_page u = pfn → (LiveUnit g s'.live u ↔ LiveUnit g t'.live u)) →
          freeList g s'.heap pfn = freeList g t'.heap pfn := by
  obtain ⟨s', hrun, hi⟩ := hs.inv.run_ok hv
  refine ⟨s', hrun, fun pfn hslab => hi.canonical hslab, ?_⟩
  intro t ds t' ht hvt hrunt pfn hslab hslab' hlive
  obtain ⟨t₁, hrun₁, hi₁⟩ := ht.inv.run_ok hvt
  obtain rfl : t₁ = t' := by simpa [hrun₁] using hrunt
  exact hi.freeList_congr hi₁ hslab hslab' hlive

theorem run_canonical_sample : Initial boot ∧ ValidRun page4096 boot sampleCalls ∧
    ∃ s', run page4096 boot sampleCalls = .ok s' ∧
      ∀ pfn, (s'.heap.page pfn).slab = true → Canonical page4096 s' pfn := by
  obtain ⟨s', hrun, hcanon, -⟩ := run_canonical boot_initial sampleCalls_valid
  exact ⟨boot_initial, sampleCalls_valid, s', hrun, hcanon⟩

example : (run page4096 boot sampleCalls).map (fun s => freeList page4096 s.heap 1) =
    .ok [⟨2048, 8⟩, ⟨2068, 2028⟩] := rfl

end Canonical

section Simulation

/-- Freeing on an abstract free list: the units are merged into it, unless that would
    fill the page, which is then given back. -/
def listFree (pageUnits : Nat) (x : Interval) (l : List Interval) : Option (List Interval) :=
  if total l + x.len = pageUnits then none else some (merge x l)

/-- After an operation on one page its cells decode to the sorted list `l'`, the other
    held pages decode to what they did, and no cell of the given blocks has changed. -/
structure Simulated (g : Geometry) (h h' : Heap) (live : List Block) (pfn : Nat) (l' : List Interval) :
    Prop where
  decoded : freeList g h' pfn = l'
  links : g.Links h'.mem (pfn * g.pageUnits + g.pageUnits) (h'.page pfn).free l'
  sorted : Gapped (pfn * g.pageUnits + g.pageUnits) (pfn * g.pageUnits) l'
  others : ∀ q, q ≠ pfn → (h.page q).slab = true → freeList g h' q = freeList g h q
  live : ∀ u, LiveUnit g live u → h'.mem u = h.mem u

/-- The heaps `slob_page_alloc` is called on: between two calls, or with a page the
    allocator has just been given. -/
def Reached (g : Geometry) (s : State) (h : Heap) : Prop :=
  h = s.heap ∨ ∃ size pfn, (s.heap.page pfn).slab = false ∧ h = g.slob_alloc_setup s.heap size pfn

theorem Inv.reached (hi : Inv g s) (hr : Reached g s h) : Core g h s.live := by
  obtain rfl | ⟨size, pfn, hslab, rfl⟩ := hr
  · exact hi.core
  · exact (hi.core.slob_alloc_setup hslab size).1

theorem PageOk.simulated {h' : Heap} {live : List Block} {l' : List Interval} (hp' : PageOk g h' pfn l')
    (hothers : ∀ q, q ≠ pfn → (h.page q).slab = true → freeList g h' q = freeList g h q)
    (hlive : ∀ u, LiveUnit g live u → h'.mem u = h.mem u) : Simulated g h h' live pfn l' := by
  refine ⟨hp'.freeList_eq, ?_, hp'.gapped, hothers, hlive⟩
  rw [hp'.free]
  exact hp'.holds.links

theorem Core.simulate_alloc {live : List Block} {size align : Nat} (hc : Core g h live)
    (hslab : (h.page pfn).slab = true) (hfree : (h.page pfn).slobFree = true)
    (hreq : Request g size align) :
    match listAlloc (g.delta align) (g.SLOB_UNITS size) (slob.freeList g h pfn) with
    | none => g.slob_page_alloc h pfn size align = .ok (none, h)
    | some (b, l') => ∃ h', g.slob_page_alloc h pfn size align = .ok (some b, h') ∧
        Simulated g h h' live pfn l' := by
  obtain ⟨hp, hcomp⟩ := hc.freeList hslab
  have hspec := slob_page_alloc_spec hp (hp.flag.mp hfree) hreq
  split
  · rename_i hnone
    rw [hnone] at hspec
    exact hspec
  · rename_i b l' hsome
    rw [hsome] at hspec
    obtain ⟨h', hcall, hp', hrest⟩ := hspec
    refine ⟨h', hcall, hp'.simulated (fun q hq hslabq => ?_) fun u hu => ?_⟩
    · obtain ⟨hpq, -⟩ := hc.freeList hslabq
      apply PageOk.freeList_eq
      apply hpq.frame (hrest.other q hq)
      exact fun u hu => hrest.mem u fun hul => hq ((hpq.covers_page hu).symm.trans (hp.covers_page hul))
    · exact hrest.mem u fun hul => (hcomp u (hp.covers_page hul)).mp hul hu

theorem Core.simulate_free {live : List Block} {b : Block} (hc : Core g h live) (hb : b ∈ live) :
    match listFree g.pageUnits (b.extent g) (slob.freeList g h (g.virt_to_page b.addr)) with
    | none => ∃ h', g.slob_free h b.addr b.size = .ok h' ∧
        (h'.page (g.virt_to_page b.addr)).slab = false ∧ h'.mem = h.mem ∧
        ∀ q, q ≠ g.virt_to_page b.addr → h'.page q = h.page q
    | some l' => ∃ h', g.slob_free h b.addr b.size = .ok h' ∧
        Simulated g h h' (live.filter fun a => a.addr ≠ b.addr) (g.virt_to_page b.addr) l' := by
  have hok := hc.blocks b hb
  obtain ⟨hp, hcomp⟩ := hc.freeList hok.held
  have hr := hc.returnable hb hcomp
  by_cases hfull : total (slob.freeList g h (g.virt_to_page b.addr)) + g.SLOB_UNITS b.size = g.pageUnits
  · rw [listFree, if_pos (by exact hfull)]
    obtain ⟨h', hcall, hrel⟩ := slob_free_last hp hr hfull
    exact ⟨h', hcall, hrel.slab, hrel.mem, hrel.other⟩
  · rw [listFree, if_neg (by exact hfull)]
    obtain ⟨h', hcall, hp', hret⟩ := slob_free_other hp hr hfull
    refine ⟨h', hcall, hp'.simulated (fun q hq hslabq => ?_) fun u hu => ?_⟩
    · obtain ⟨hpq, -⟩ := hc.freeList hslabq
      apply PageOk.freeList_eq
      apply hpq.frame (hret.other q hq)
      intro u hu
      have hpage := hpq.covers_page hu
      apply hret.mem u
      · exact fun hbu => hq (hpage.symm.trans (hok.page_of_covers hbu))
      · exact fun hul => hq (hpage.symm.trans (hp.covers_page hul))
    · obtain ⟨hlive, hbu⟩ := (hc.liveUnit_filter hb u).mp hu
      exact hret.mem u hbu fun hul => (hcomp u (hp.covers_page hul)).mp hul hlive

/-- The cells simulate the abstract lists. In every heap reached by matched calls,
    `slob_page_alloc` on a page with free units answers as `listAlloc` does on the
    list its cells decode to, and `slob_free` of a live block as `listFree` does.
    Both return, so their loops along `slob_next` have ended, and neither writes a
    cell of a live block other than the freed one. -/
theorem run_simulates (hs : Initial s) (hv : ValidRun g s cs) :
    ∃ s', run g s cs = .ok s' ∧
      (∀ h pfn size align, Reached g s' h → (h.page pfn).slab = true → (h.page pfn).slobFree = true →
        Request g size align →
        match listAlloc (g.delta align) (g.SLOB_UNITS size) (freeList g h pfn) with
        | none => g.slob_page_alloc h pfn size align = .ok (none, h)
        | some (b, l') => ∃ h', g.slob_page_alloc h pfn size align = .ok (some b, h') ∧
            Simulated g h h' s'.live pfn l') ∧
      ∀ b ∈ s'.live,
        match listFree g.pageUnits (b.extent g) (freeList g s'.heap (g.virt_to_page b.addr)) with
        | none => ∃ h', g.slob_free s'.heap b.addr b.size = .ok h' ∧
            (h'.page (g.virt_to_page b.addr)).slab = false ∧ h'.mem = s'.heap.mem ∧
            ∀ q, q ≠ g.virt_to_page b.addr → h'.page q = s'.heap.page q
        | some l' => ∃ h', g.slob_free s'.heap b.addr b.size = .ok h' ∧
            Simulated g s'.heap h' (s'.live.filter fun a => a.addr ≠ b.addr)
              (g.virt_to_page b.addr) l' := by
  obtain ⟨s', hrun, hi⟩ := hs.inv.run_ok hv
  refine ⟨s', hrun, ?_, fun b hb => hi.core.simulate_free hb⟩
  intro h pfn size align hr hslab hfree hreq
  exact (hi.reached hr).simulate_alloc hslab hfree hreq

theorem run_simulates_sample : Initial boot ∧ ValidRun page4096 boot sampleCalls ∧
    ∃ s', run page4096 boot sampleCalls = .ok s' ∧
      ∀ pfn, (s'.heap.page pfn).slab = true → (s'.heap.page pfn).slobFree = true →
        match listAlloc (page4096.delta 8) (page4096.SLOB_UNITS 40) (freeList page4096 s'.heap pfn) with
        | none => page4096.slob_page_alloc s'.heap pfn 40 8 = .ok (none, s'.heap)
        | some (b, l') => ∃ h', page4096.slob_page_alloc s'.heap pfn 40 8 = .ok (some b, h') ∧
            Simulated page4096 s'.heap h' s'.live pfn l' := by
  obtain ⟨s', hrun, halloc, -⟩ := run_simulates boot_initial sampleCalls_valid
  refine ⟨boot_initial, sampleCalls_valid, s', hrun, fun pfn hslab hfree => ?_⟩
  exact halloc s'.heap pfn 40 8 (.inl rfl) hslab hfree ⟨by decide, by decide, .inr ⟨3, rfl⟩⟩

end Simulation

section NewPages

variable {s' : State} {size align : Nat}

/-- `slob_alloc` comes to `slob_new_pages`: the walk over the list of the size has found no block. -/
def AsksForPage (g : Geometry) (h : Heap) (size align : Nat) : Prop :=
  ∃ h', g.slob_alloc_walk h size align (h.list (sizeClass size)) = .ok (none, h')

/-- The answer of the page allocator is looked at only when it is asked. -/
theorem slob_alloc_congr_page (hnot : ¬ AsksForPage g h size align) (zero : Bool) (page page' : Option Nat) :
    g.slob_alloc h size align zero page = g.slob_alloc h size align zero page' := by
  rw [Geometry.slob_alloc, Geometry.slob_alloc]
  cases hwalk : g.slob_alloc_walk h size align (h.list (sizeClass size)) with
  | error e => rfl
  | ok r =>
    obtain ⟨_ | b, h'⟩ := r
    · exact absurd ⟨h', hwalk⟩ hnot
    · rfl

/-- The walk finds nothing exactly if no block of a listed page can hold the request: a page that is
    passed over because of its free units has none. -/
theorem Inv.asksForPage_iff (hi : Inv g s) (hreq : Request g size align) :
    AsksForPage g s.heap size align ↔ ∀ pfn ∈ s.heap.list (sizeClass size), ∀ b ∈ freeList g s.heap pfn,
      ¬ Fits (g.delta align) (g.SLOB_UNITS size) b := by
  have hheld : ∀ pfn ∈ s.heap.list (sizeClass size), PageOk g s.heap pfn (freeList g s.heap pfn) :=
    fun pfn hpfn => (hi.core.freeList (hi.core.listed _ pfn hpfn).1).1
  obtain ⟨hwalk, hnone⟩ | ⟨pfn, hpfn, b, l, l', h₁, hcarved, hwalk⟩ :=
    hi.core.slob_alloc_walk hreq _ fun _ hq => hq
  · refine iff_of_true ⟨_, hwalk⟩ fun pfn hpfn => ?_
    exact listAlloc_eq_none.mp (hnone pfn hpfn _ (hheld pfn hpfn))
  · refine iff_of_false (fun ⟨h', hasks⟩ => ?_) fun hall => ?_
    · rw [hwalk] at hasks
      cases hasks
    · have halloc := hcarved.alloc
      rw [← hcarved.before.freeList_eq, listAlloc_eq_none.mpr (hall pfn hpfn)] at halloc
      cases halloc

/-- In every heap reached by valid calls: `slob_alloc` asks for a new page exactly if no block of the
    listed pages can hold the request at its alignment, and looks at the answer only then; it returns,
    so that its `BUG_ON` is not reached; and it returns `NULL` only when it was refused a page, with the
    whole heap as it was. -/
theorem run_slob_alloc (hs : Initial s) (hv : ValidRun g s cs) (hrun : run g s cs = .ok s') (zero : Bool)
    (page : Option Nat) (hcall : (Call.slob_alloc size align zero page).Valid g s') :
    (AsksForPage g s'.heap size align ↔ ∀ pfn ∈ s'.heap.list (sizeClass size),
        ∀ b ∈ freeList g s'.heap pfn, ¬ Fits (g.delta align) (g.SLOB_UNITS size) b) ∧
      (¬ AsksForPage g s'.heap size align →
        ∀ page', g.slob_alloc s'.heap size align zero page' = g.slob_alloc s'.heap size align zero page) ∧
      (∃ r, g.slob_alloc s'.heap size align zero page = .ok r) ∧
      ∀ h', g.slob_alloc s'.heap size align zero page = .ok (none, h') →
        AsksForPage g s'.heap size align ∧ page = none ∧ h' = s'.heap := by
  have hi : Inv g s' := by
    obtain ⟨s₁, hrun₁, hi⟩ := hs.inv.run_ok hv
    obtain rfl := Except.ok.inj (hrun₁.symm.trans hrun)
    exact hi
  obtain ⟨hreq, hout⟩ := hi.alloc_outcome hcall
  have hasks := hi.asksForPage_iff hreq
  refine ⟨hasks, fun hnot page' => slob_alloc_congr_page hnot zero page' page, ?_⟩
  generalize g.slob_alloc s'.heap size align zero page = r at hout
  cases hout with
  | refused hnone =>
    refine ⟨⟨_, rfl⟩, fun h' heq => ⟨hasks.mpr fun pfn hpfn => ?_, rfl, (Prod.mk.inj (Except.ok.inj heq)).2.symm⟩⟩
    obtain ⟨hp, -⟩ := hi.core.freeList (hi.core.listed _ pfn hpfn).1
    exact listAlloc_eq_none.mp (hnone pfn hpfn _ hp)
  | listed hlisted hcarved => exact ⟨⟨_, rfl⟩, fun h' heq => absurd heq (by simp)⟩
  | fresh hnone hcarved => exact ⟨⟨_, rfl⟩, fun h' heq => absurd heq (by simp)⟩

/-- The page on the list has a free block that is too small for 200 bytes and one that is not. The list for
    4096 bytes is empty, and `NULL` is returned when no page is to be had. -/
theorem run_slob_alloc_sample : ∃ s', run page4096 boot sampleCalls = .ok s' ∧
    s'.heap.list (sizeClass 200) = [1] ∧ freeList page4096 s'.heap 1 = [⟨2048, 8⟩, ⟨2068, 2028⟩] ∧
    ¬ AsksForPage page4096 s'.heap 200 0 ∧
    page4096.slob_alloc s'.heap 4096 0 false none = .ok (none, s'.heap) ∧ AsksForPage page4096 s'.heap 4096 0 := by
  obtain ⟨s', hrun, -⟩ := boot_initial.inv.run_ok sampleCalls_valid
  have hheap : (run page4096 boot sampleCalls).map (fun s =>
      (s.heap.list (sizeClass 200), freeList page4096 s.heap 1, s.heap.list (sizeClass 4096))) =
      .ok ([1], [⟨2048, 8⟩, ⟨2068, 2028⟩], []) := rfl
  rw [hrun] at hheap
  obtain ⟨hlist, hfree, hlarge⟩ : s'.heap.list (sizeClass 200) = [1] ∧
      freeList page4096 s'.heap 1 = [⟨2048, 8⟩, ⟨2068, 2028⟩] ∧ s'.heap.list (sizeClass 4096) = [] := by
    simpa [Except.map] using hheap
  have hcall : ∀ size, 0 < size → size ≤ 4096 → (Call.slob_alloc size 0 false none).Valid page4096 s' :=
    fun size hpos hle => ⟨hpos, hle, .inl rfl, by decide, by simp⟩
  obtain ⟨hasks, -⟩ :=
    run_slob_alloc boot_initial sampleCalls_valid hrun false none (hcall 200 (by decide) (by decide))
  obtain ⟨-, -, -, hrefused⟩ :=
    run_slob_alloc boot_initial sampleCalls_valid hrun false none (hcall 4096 (by decide) (by decide))
  have hnull : page4096.slob_alloc s'.heap 4096 0 false none = .ok (none, s'.heap) := by
    rw [Geometry.slob_alloc, hlarge]
    rfl
  refine ⟨s', hrun, hlist, hfree, fun hnot => ?_, hnull, (hrefused _ hnull).1⟩
  exact hasks.mp hnot 1 (by simp [hlist]) ⟨2068, 2028⟩ (by simp [hfree]) (by decide)

end NewPages

end cs444.slob
