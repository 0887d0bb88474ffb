import Mathlib.Data.List.Pairwise
import Cs444.Slob.FreeOps

open interval

namespace cs444.slob

variable {g : Geometry} {h h' : Heap} {live live' : List Block} {pfn : Nat} {l : List Interval}

/-- Two blocks share no unit. -/
def Block.Apart (g : Geometry) (a b : Block) : Prop :=
  a.addr + g.SLOB_UNITS a.size ≤ b.addr ∨ b.addr + g.SLOB_UNITS b.size ≤ a.addr

instance (g : Geometry) : Std.Symm (Block.Apart g) := ⟨fun _ _ hab => hab.symm⟩

/-- A live block lies in one held page and at its alignment. -/
structure BlockOk (g : Geometry) (h : Heap) (b : Block) : Prop where
  held : (h.page (g.virt_to_page b.addr)).slab = true
  pos : 0 < g.virt_to_page b.addr
  size_pos : 0 < b.size
  size_le : b.size ≤ g.PAGE_SIZE
  fits : b.addr + g.SLOB_UNITS b.size ≤ g.virt_to_page b.addr * g.pageUnits + g.pageUnits
  aligned : b.align ≠ 0 → b.align ∣ b.addr * g.SLOB_UNIT

/-- The free list of a held page covers exactly its units outside the live blocks. -/
def Complements (g : Geometry) (live : List Block) (pfn : Nat) (l : List Interval) : Prop :=
  ∀ u, g.virt_to_page u = pfn → (covers l u ↔ ¬ LiveUnit g live u)

/-- The invariant of the heap, except that a page may be held without a live block. -/
structure Core (g : Geometry) (h : Heap) (live : List Block) : Prop where
  pages : ∀ pfn, (h.page pfn).slab = true → ∃ l, PageOk g h pfn l ∧ Complements g live pfn l
  blocks : ∀ b ∈ live, BlockOk g h b
  apart : live.Pairwise (Block.Apart g)
  listed : ∀ c pfn, pfn ∈ h.list c → (h.page pfn).slab = true ∧ (h.page pfn).slobFree = true
  onList : ∀ pfn, (h.page pfn).slab = true → (h.page pfn).slobFree = true → ∃ c, pfn ∈ h.list c
  nodup : ∀ c, (h.list c).Nodup
  oneList : ∀ c c' pfn, pfn ∈ h.list c → pfn ∈ h.list c' → c = c'
  listClass : ∀ c pfn, pfn ∈ h.list c → ∀ b ∈ live, g.virt_to_page b.addr = pfn → sizeClass b.size = c
  pageClass : ∀ a ∈ live, ∀ b ∈ live, g.virt_to_page a.addr = g.virt_to_page b.addr →
    sizeClass a.size = sizeClass b.size
  unheld : ∀ pfn, (h.page pfn).slab = false → (h.page pfn).slobFree = false

/-- The invariant between two calls. -/
structure Inv (g : Geometry) (s : State) : Prop where
  core : Core g s.heap s.live
  occupied : ∀ pfn, (s.heap.page pfn).slab = true → ∃ b ∈ s.live, g.virt_to_page b.addr = pfn

@[simp] theorem liveUnit_cons (b : Block) (u : Nat) :
    LiveUnit g (b :: live) u ↔ (b.extent g).Covers u ∨ LiveUnit g live u := by
  simp [LiveUnit]

theorem liveUnit_of_mem {b : Block} {u : Nat} (hb : b ∈ live) (hu : (b.extent g).Covers u) :
    LiveUnit g live u :=
  ⟨b.extent g, List.mem_map_of_mem hb, hu⟩

/-- The units of a live block lie in its page. -/
theorem BlockOk.page_of_covers {b : Block} (hb : BlockOk g h b) {u : Nat}
    (hu : (b.extent g).Covers u) : g.virt_to_page u = g.virt_to_page b.addr := by
  rw [Geometry.virt_to_page_eq_iff]
  have hlo := (Geometry.virt_to_page_eq_iff.mp (rfl : g.virt_to_page b.addr = _)).1
  have hfits := hb.fits
  obtain ⟨hu₁, hu₂⟩ := hu
  simp only [Block.extent] at hu₁ hu₂
  omega

theorem BlockOk.addr_covers {b : Block} (hb : BlockOk g h b) : (b.extent g).Covers b.addr := by
  have := g.SLOB_UNITS_pos hb.size_pos
  exact ⟨le_refl _, by simp only [Block.extent]; omega⟩

/-- Different live blocks are apart. -/
theorem Core.apart_of_ne (hc : Core g h live) {a b : Block} (ha : a ∈ live) (hb : b ∈ live)
    (hne : a ≠ b) : Block.Apart g a b :=
  hc.apart.forall ha hb hne

/-- A live block is known by its address. -/
theorem Core.eq_of_addr (hc : Core g h live) {a b : Block} (ha : a ∈ live) (hb : b ∈ live)
    (haddr : a.addr = b.addr) : a = b := by
  by_contra hne
  have hap := hc.apart_of_ne ha hb hne
  have hpa := g.SLOB_UNITS_pos (hc.blocks a ha).size_pos
  have hpb := g.SLOB_UNITS_pos (hc.blocks b hb).size_pos
  rw [Block.Apart] at hap
  omega

theorem BlockOk.frame {b : Block} (hb : BlockOk g h b)
    (hslab : (h'.page (g.virt_to_page b.addr)).slab = (h.page (g.virt_to_page b.addr)).slab) : BlockOk g h' b :=
  ⟨hslab.trans hb.held, hb.pos, hb.size_pos, hb.size_le, hb.fits, hb.aligned⟩

section Pages

/-- The part of the invariant that is about one page: its descriptor and its free list, the blocks
    on it and the lists it is on. A call works on one page, so that of all others is kept by
    `OnPage.frame` and only that of its own page is to be shown. -/
structure OnPage (g : Geometry) (h : Heap) (live : List Block) (pfn : Nat) : Prop where
  free : (h.page pfn).slab = true → ∃ l, PageOk g h pfn l ∧ Complements g live pfn l
  blocks : ∀ b ∈ live, g.virt_to_page b.addr = pfn → BlockOk g h b
  listed : ∀ c, pfn ∈ h.list c → (h.page pfn).slab = true ∧ (h.page pfn).slobFree = true
  onList : (h.page pfn).slab = true → (h.page pfn).slobFree = true → ∃ c, pfn ∈ h.list c
  oneList : ∀ c c', pfn ∈ h.list c → pfn ∈ h.list c' → c = c'
  listClass : ∀ c, pfn ∈ h.list c → ∀ b ∈ live, g.virt_to_page b.addr = pfn → sizeClass b.size = c
  pageClass : ∀ a ∈ live, ∀ b ∈ live, g.virt_to_page a.addr = pfn → g.virt_to_page b.addr = pfn →
    sizeClass a.size = sizeClass b.size
  unheld : (h.page pfn).slab = false → (h.page pfn).slobFree = false

theorem Core.onPage (hc : Core g h live) (pfn : Nat) : OnPage g h live pfn where
  free := hc.pages pfn
  blocks b hb _ := hc.blocks b hb
  listed c := hc.listed c pfn
  onList := hc.onList pfn
  oneList c c' := hc.oneList c c' pfn
  listClass c := hc.listClass c pfn
  pageClass a ha b hb hpa hpb := hc.pageClass a ha b hb (hpa.trans hpb.symm)
  unheld := hc.unheld pfn

theorem Core.of_pages (hpages : ∀ pfn, OnPage g h live pfn) (apart : live.Pairwise (Block.Apart g))
    (nodup : ∀ c, (h.list c).Nodup) : Core g h live where
  pages pfn := (hpages pfn).free
  blocks b hb := (hpages _).blocks b hb rfl
  apart := apart
  listed c pfn := (hpages pfn).listed c
  onList pfn := (hpages pfn).onList
  nodup := nodup
  oneList c c' pfn := (hpages pfn).oneList c c'
  listClass c pfn := (hpages pfn).listClass c
  pageClass a ha b hb hpages' := (hpages _).pageClass a ha b hb hpages' rfl
  unheld pfn := (hpages pfn).unheld

/-- Nothing has changed for a page: its descriptor, its blocks and its free cells are the same, and
    it is on the same lists. -/
theorem OnPage.frame (ho : OnPage g h live pfn) (hpage : h'.page pfn = h.page pfn)
    (hlist : ∀ c, pfn ∈ h'.list c ↔ pfn ∈ h.list c)
    (hblocks : ∀ a, g.virt_to_page a.addr = pfn → (a ∈ live' ↔ a ∈ live))
    (hunits : ∀ u, g.virt_to_page u = pfn → (LiveUnit g live' u ↔ LiveUnit g live u))
    (hmem : (h.page pfn).slab = true → ∀ u, g.virt_to_page u = pfn → ¬ LiveUnit g live u → h'.mem u = h.mem u) :
    OnPage g h' live' pfn where
  free hslab := by
    rw [hpage] at hslab
    obtain ⟨l, hp, hcomp⟩ := ho.free hslab
    refine ⟨l, hp.frame hpage fun u hu => ?_, fun u hu => (hcomp u hu).trans (not_congr (hunits u hu)).symm⟩
    have hin := hp.covers_page hu
    exact hmem hslab u hin ((hcomp u hin).mp hu)
  blocks b hb hpb := (ho.blocks b ((hblocks b hpb).mp hb) hpb).frame (by rw [hpb, hpage])
  listed c hin := by
    rw [hpage]
    exact ho.listed c ((hlist c).mp hin)
  onList := by
    rw [hpage]
    simpa only [hlist] using ho.onList
  oneList c c' h₁ h₂ := ho.oneList c c' ((hlist c).mp h₁) ((hlist c').mp h₂)
  listClass c hin b hb hpb := ho.listClass c ((hlist c).mp hin) b ((hblocks b hpb).mp hb) hpb
  pageClass a ha b hb hpa hpb := ho.pageClass a ((hblocks a hpa).mp ha) b ((hblocks b hpb).mp hb) hpa hpb
  unheld := by
    rw [hpage]
    exact ho.unheld

/-- A page that the heap does not hold has no block and is on no list. -/
theorem OnPage.of_unheld (hslab : (h.page pfn).slab = false) (hflag : (h.page pfn).slobFree = false)
    (hlist : ∀ c, pfn ∉ h.list c) (hlive : ∀ b ∈ live, g.virt_to_page b.addr ≠ pfn) : OnPage g h live pfn where
  free hheld := absurd (hslab.symm.trans hheld) (by simp)
  blocks b hb hpb := absurd hpb (hlive b hb)
  listed c hin := absurd hin (hlist c)
  onList hheld _ := absurd (hslab.symm.trans hheld) (by simp)
  oneList c _ hin _ := absurd hin (hlist c)
  listClass c hin := absurd hin (hlist c)
  pageClass a ha _ _ hpa _ := absurd hpa (hlive a ha)
  unheld _ := hflag

/-- And the other way round. -/
theorem Core.unheld_page (hc : Core g h live) (hslab : (h.page pfn).slab = false) :
    (∀ c, pfn ∉ h.list c) ∧ ∀ b ∈ live, g.virt_to_page b.addr ≠ pfn := by
  refine ⟨fun c hin => ?_, fun b hb hpb => ?_⟩
  · exact absurd (hslab.symm.trans (hc.listed c pfn hin).1) (by simp)
  · exact absurd (hslab.symm.trans (hpb ▸ (hc.blocks b hb).held)) (by simp)

end Pages

section Heap

/-- The heap with the same blocks, descriptors and lists, up to the order of the latter. -/
theorem Core.congr (hc : Core g h live) (hpage : h'.page = h.page)
    (hlist : ∀ c pfn, pfn ∈ h'.list c ↔ pfn ∈ h.list c) (hnodup : ∀ c, (h'.list c).Nodup)
    (hmem : ∀ u, (h.page (g.virt_to_page u)).slab = true → ¬ LiveUnit g live u → h'.mem u = h.mem u) :
    Core g h' live := by
  refine .of_pages (fun q => ?_) hc.apart hnodup
  refine (hc.onPage q).frame (by rw [hpage]) (fun c => hlist c q) (fun _ _ => Iff.rfl) (fun _ _ => Iff.rfl) ?_
  rintro hslab u rfl hu
  exact hmem u hslab hu

/-- Writes to live blocks, or to pages that are not held, do not disturb the heap. -/
theorem Core.of_mem (hc : Core g h live) {mem' : Mem}
    (hsame : ∀ u, (h.page (g.virt_to_page u)).slab = true → ¬ LiveUnit g live u → mem' u = h.mem u) :
    Core g { h with mem := mem' } live :=
  hc.congr rfl (fun _ _ => Iff.rfl) hc.nodup hsame

/-- Rotating a list of pages does not disturb the heap. -/
theorem Core.of_list (hc : Core g h live) {list' : SizeClass → List Nat}
    (hmem : ∀ c pfn, pfn ∈ list' c ↔ pfn ∈ h.list c) (hnodup : ∀ c, (list' c).Nodup) :
    Core g { h with list := list' } live :=
  hc.congr rfl hmem hnodup fun _ _ _ => rfl

/-- The counters are no part of the invariant. -/
theorem Core.of_counters (hc : Core g h live) (used claimed : Int) :
    Core g { h with mem_used := used, mem_claimed := claimed } live :=
  hc.congr rfl (fun _ _ => Iff.rfl) hc.nodup fun _ _ _ => rfl

theorem Core.rotate (hc : Core g h live) (c : SizeClass) (prev : Option Nat) :
    Core g (h.rotate c prev) live := by
  rw [Heap.rotate]
  split
  · apply hc.of_list
    · intro c' pfn
      by_cases hcc : c' = c
      · subst hcc
        simp [ring.mem_moveHead]
      · simp [Function.update_of_ne hcc]
    · intro c'
      by_cases hcc : c' = c
      · subst hcc
        simpa [ring.nodup_moveHead] using hc.nodup c'
      · simpa [Function.update_of_ne hcc] using hc.nodup c'
  · exact hc

end Heap

end cs444.slob
