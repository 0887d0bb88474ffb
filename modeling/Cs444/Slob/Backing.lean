import Cs444.Slob.Frontend

open interval

namespace cs444.slob

section Frames

variable {g : Geometry} {h h₁ h₂ : Heap} {live : List Block} {pfn size align : Nat} {page : Option Nat} {s : State}

/-- What a call leaves as it is: the cells of the blocks `live`, and the pages that the heap does not hold,
    except for the page it is given. -/
structure Untouched (g : Geometry) (h h' : Heap) (live : List Block) (page : Option Nat) : Prop where
  mem : ∀ u, LiveUnit g live u → h'.mem u = h.mem u
  outside : ∀ u, (h.page (g.virt_to_page u)).slab = false → page ≠ some (g.virt_to_page u) → h'.mem u = h.mem u
  slab : ∀ q, (h.page q).slab = false → page ≠ some q → (h'.page q).slab = false

theorem Untouched.trans (h₁₂ : Untouched g h h₁ live page) (h₂₃ : Untouched g h₁ h₂ live none) :
    Untouched g h h₂ live page where
  mem u hu := (h₂₃.mem u hu).trans (h₁₂.mem u hu)
  outside u hslab hpage :=
    (h₂₃.outside u (h₁₂.slab _ hslab hpage) (Option.some_ne_none _).symm).trans (h₁₂.outside u hslab hpage)
  slab q hslab hpage := h₂₃.slab q (h₁₂.slab q hslab hpage) (Option.some_ne_none _).symm

/-- The free units of a held page are in none of the live blocks, and in no page that is not held. -/
theorem Carved.untouched {b : Nat} {l l' : List Interval} (hcarved : Carved g h h₁ live pfn size align b l l')
    (hslab : (h.page pfn).slab = true) : Untouched g h h₁ live none where
  mem u hu := by
    refine hcarved.rest.mem u fun hfree => ?_
    exact (hcarved.complements u (hcarved.before.covers_page hfree)).mp hfree hu
  outside u hout _ := by
    refine hcarved.rest.mem u fun hfree => ?_
    rw [hcarved.before.covers_page hfree, hslab] at hout
    exact Bool.noConfusion hout
  slab q hq _ := by rw [hcarved.rest.slab_eq, hq]

theorem Core.slob_alloc_setup_untouched (hc : Core g h live) (hslab : (h.page pfn).slab = false) :
    Untouched g h (g.slob_alloc_setup h size pfn) live (some pfn) where
  mem u hu := slob_alloc_setup_frame fun hpage => hc.not_liveUnit hslab hpage hu
  outside u _ hpage := slob_alloc_setup_frame fun hsame => hpage (by rw [hsame])
  slab q hq hpage := by
    rw [slob_alloc_setup_page fun hsame => hpage (by rw [hsame])]
    exact hq

theorem Core.slob_alloc_zero_untouched {b : Block} (hc : Core g h (b :: live)) (zero : Bool) :
    Untouched g h (g.slob_alloc_zero h b.addr b.size zero) live none := by
  cases zero with
  | false => exact ⟨fun _ _ => rfl, fun _ _ _ => rfl, fun _ hq _ => hq⟩
  | true =>
    refine ⟨fun u hu => memset_frame fun hcov => ?_, fun u hout _ => memset_frame fun hcov => ?_, fun _ hq _ => hq⟩
    · obtain ⟨x, hx, hxu⟩ := hu
      obtain ⟨a, ha, rfl⟩ := List.mem_map.mp hx
      have hap := (List.pairwise_cons.mp hc.apart).1 a ha
      simp only [Block.Apart, Interval.Covers, Block.extent] at hap hxu hcov
      omega
    · have hok := hc.blocks b List.mem_cons_self
      rw [hok.page_of_covers hcov, hok.held] at hout
      exact Bool.noConfusion hout

/-- `slob_alloc` fails only without a page, and else leaves what it has no business with. -/
theorem Inv.slob_alloc_spec (hi : Inv g s) {zero : Bool} (hv : (Call.slob_alloc size align zero page).Valid g s) :
    (page = none ∧ g.slob_alloc s.heap size align zero page = .ok (none, s.heap)) ∨
      ∃ b h', g.slob_alloc s.heap size align zero page = .ok (some b, h') ∧
        Inv g ⟨h', ⟨b, size, align⟩ :: s.live⟩ ∧ Untouched g s.heap h' s.live page := by
  obtain ⟨s', hstep, hi'⟩ := hi.slob_alloc zero hv
  obtain ⟨hreq, hout⟩ := hi.alloc_outcome hv
  obtain ⟨-, -, -, -, hpage⟩ := hv
  generalize hr : g.slob_alloc s.heap size align zero page = r at hout
  rw [step, hr] at hstep
  cases hout with
  | refused hnone => exact .inl ⟨rfl, rfl⟩
  | listed hlisted hcarved =>
    rename_i pfn b l l' h₁
    cases hstep
    refine .inr ⟨b, _, rfl, hi', ?_⟩
    have hheld := (hi.core.listed _ pfn hlisted).1
    have hcore := hcarved.core hi.core hlisted (hi.pos_of_held hheld) hreq
    have hzero := ((hcore.of_counters (toInt (h₁.mem_used + size)) h₁.mem_claimed).rotate (sizeClass size)
      (ring.prev (s.heap.list (sizeClass size)) (some pfn))).slob_alloc_zero_untouched zero
    have hcarve := hcarved.untouched hheld
    refine Untouched.trans ⟨fun u hu => ?_, fun u hu _ => ?_, fun q hq _ => ?_⟩ hzero
    · rw [Heap.rotate_mem]
      exact hcarve.mem u hu
    · rw [Heap.rotate_mem]
      exact hcarve.outside u hu (Option.some_ne_none _).symm
    · rw [Heap.rotate_page]
      exact hcarve.slab q hq (Option.some_ne_none _).symm
  | fresh hnone hcarved =>
    rename_i pfn b l' h₁
    cases hstep
    refine .inr ⟨b, _, rfl, hi', ?_⟩
    obtain ⟨hpfn, hunheld⟩ := hpage pfn rfl
    obtain ⟨hcore', -⟩ := hi.core.slob_alloc_setup hunheld size
    have hlisted : pfn ∈ (g.slob_alloc_setup s.heap size pfn).list (sizeClass size) :=
      mem_slob_alloc_setup_list.mpr (.inr ⟨rfl, rfl⟩)
    have hcore := hcarved.core hcore' hlisted hpfn hreq
    have hzero := (hcore.of_counters h₁.mem_used
      (toInt (h₁.mem_claimed + g.PAGE_SIZE))).slob_alloc_zero_untouched zero
    have hcarve := hcarved.untouched slob_alloc_setup_slab
    have hsetup := (hi.core.slob_alloc_setup_untouched hunheld).trans hcarve
    have hcounted : Untouched g s.heap { h₁ with mem_claimed := toInt (h₁.mem_claimed + g.PAGE_SIZE) } s.live
        (some pfn) := ⟨hsetup.mem, hsetup.outside, hsetup.slab⟩
    exact hcounted.trans hzero

/-- `slob_free` of a live block. -/
theorem Inv.slob_free_spec (hi : Inv g s) {b : Block} (hb : b ∈ s.live) :
    ∃ h', g.slob_free s.heap b.addr b.size = .ok h' ∧ Inv g ⟨h', s.live.filter fun a => a.addr ≠ b.addr⟩ ∧
      Untouched g s.heap h' (s.live.filter fun a => a.addr ≠ b.addr) none := by
  obtain ⟨s', hstep, hi'⟩ := hi.slob_free hb
  have hok := hi.core.blocks b hb
  have hout := hi.core.slob_free hb
  generalize hr : g.slob_free s.heap b.addr b.size = r at hout
  rw [step, hr] at hstep
  cases hout with
  | released hlast hrel =>
    cases hstep
    refine ⟨_, rfl, hi', fun u _ => by rw [hrel.mem], fun u _ _ => by rw [hrel.mem], fun q hq _ => ?_⟩
    by_cases hqp : q = g.virt_to_page b.addr
    · rw [hqp, hrel.slab]
    · rw [hrel.other q hqp]
      exact hq
  | returned hp hcomp hp' hret hmore =>
    cases hstep
    refine ⟨_, rfl, hi', fun u hu => ?_, fun u hu _ => ?_, fun q hq _ => ?_⟩
    · obtain ⟨hlive, hnot⟩ := (hi.core.liveUnit_filter hb u).mp hu
      exact hret.mem u hnot fun hfree => (hcomp u (hp.covers_page hfree)).mp hfree hlive
    · refine hret.mem u (fun hcov => ?_) fun hfree => ?_
      · rw [hok.page_of_covers hcov, hok.held] at hu
        exact Bool.noConfusion hu
      · rw [hp.covers_page hfree, hok.held] at hu
        exact Bool.noConfusion hu
    · by_cases hqp : q = g.virt_to_page b.addr
      · rw [hqp, hret.slab]
        rwa [hqp] at hq
      · rw [hret.other q hqp]
        exact hq

/-- The invariant without the alignment of a block. -/
theorem Inv.forget_align {b : Nat} (hi : Inv g ⟨h, ⟨b, size, align⟩ :: live⟩) : Inv g ⟨h, ⟨b, size, 0⟩ :: live⟩ := by
  have hc := hi.core
  have hsame : ∀ a ∈ (⟨b, size, 0⟩ : Block) :: live, ∃ a' ∈ (⟨b, size, align⟩ : Block) :: live,
      a'.addr = a.addr ∧ a'.size = a.size := by
    intro a ha
    obtain rfl | ha := List.mem_cons.mp ha
    · exact ⟨_, List.mem_cons_self, rfl, rfl⟩
    · exact ⟨a, List.mem_cons_of_mem _ ha, rfl, rfl⟩
  refine ⟨{ hc with blocks := ?_, apart := ?_, listClass := ?_, pageClass := ?_ }, ?_⟩
  · intro a ha
    obtain rfl | ha := List.mem_cons.mp ha
    · have hok := hc.blocks _ List.mem_cons_self
      exact ⟨hok.held, hok.pos, hok.size_pos, hok.size_le, hok.fits, fun hne => absurd rfl hne⟩
    · exact hc.blocks a (List.mem_cons_of_mem _ ha)
  · obtain ⟨hhead, htail⟩ := List.pairwise_cons.mp hc.apart
    exact List.pairwise_cons.mpr ⟨hhead, htail⟩
  · intro c pfn hin a ha hpage
    obtain ⟨a', ha', haddr, hsize⟩ := hsame a ha
    rw [← hsize]
    exact hc.listClass c pfn hin a' ha' (by rw [haddr, hpage])
  · intro a ha d hd hpage
    obtain ⟨a', ha', haddr, hsize⟩ := hsame a ha
    obtain ⟨d', hd', haddr', hsize'⟩ := hsame d hd
    rw [← hsize, ← hsize']
    exact hc.pageClass a' ha' d' hd' (by rw [haddr, haddr', hpage])
  · intro pfn hslab
    obtain ⟨a, ha, hpage⟩ := hi.occupied pfn hslab
    obtain rfl | ha := List.mem_cons.mp ha
    · exact ⟨_, List.mem_cons_self, hpage⟩
    · exact ⟨a, List.mem_cons_of_mem _ ha, hpage⟩

end Frames

namespace frontend

variable {P : Platform} {k k' : Kernel} {xs : List Extent} {x y : Extent} {b size align pfn order u : Nat}
  {page : Option Nat}

section Extents

/-- The units of an extent. -/
def Extent.Covers (P : Platform) : Extent → Nat → Prop
  | .block b size, u => b ≤ u ∧ u < b + P.SLOB_UNITS size
  | .pages pfn order, u => pfn ≤ P.virt_to_page u ∧ P.virt_to_page u < pfn + 2 ^ order

/-- A block as the heap knows it; its alignment is of no interest here. -/
def Extent.toBlock : Extent → Option Block
  | .block b size => some ⟨b, size, 0⟩
  | .pages _ _ => none

/-- No unit is in both. -/
def Extent.Apart (P : Platform) (x y : Extent) : Prop := ∀ u, ¬ (x.Covers P u ∧ y.Covers P u)

theorem Extent.Apart.symm (h : x.Apart P y) : y.Apart P x := fun u hu => h u hu.symm

theorem mem_toBlock : (⟨b, size, 0⟩ : Block) ∈ xs.filterMap Extent.toBlock ↔ .block b size ∈ xs := by
  simp only [List.mem_filterMap]
  constructor
  · rintro ⟨x, hx, hblock⟩
    cases x with
    | block b' size' => simp_all [Extent.toBlock]
    | pages pfn order => simp [Extent.toBlock] at hblock
  · exact fun hx => ⟨_, hx, rfl⟩

theorem mem_toBlock_iff {a : Block} :
    a ∈ xs.filterMap Extent.toBlock ↔ ∃ b size, a = ⟨b, size, 0⟩ ∧ .block b size ∈ xs := by
  constructor
  · intro ha
    obtain ⟨x, hx, hblock⟩ := List.mem_filterMap.mp ha
    cases x with
    | block b size => exact ⟨b, size, (Option.some.inj hblock).symm, hx⟩
    | pages pfn order => simp [Extent.toBlock] at hblock
  · rintro ⟨b, size, rfl, hx⟩
    exact mem_toBlock.mpr hx

theorem liveUnit_iff : LiveUnit P.toGeometry (xs.filterMap Extent.toBlock) u ↔
    ∃ b size, .block b size ∈ xs ∧ (Extent.block b size).Covers P u := by
  constructor
  · rintro ⟨i, hi, hu⟩
    obtain ⟨a, ha, rfl⟩ := List.mem_map.mp hi
    obtain ⟨b, size, rfl, hx⟩ := mem_toBlock_iff.mp ha
    exact ⟨b, size, hx, hu⟩
  · rintro ⟨b, size, hx, hu⟩
    exact liveUnit_of_mem (mem_toBlock.mpr hx) hu

end Extents

/-- The extents `xs` are what was taken from the two back ends and not given back. -/
structure Backed (P : Platform) (k : Kernel) (xs : List Extent) : Prop where
  heap : slob.Inv P.toGeometry ⟨k.heap, xs.filterMap Extent.toBlock⟩
  pages : ∀ pfn order, .pages pfn order ∈ xs → 0 < pfn ∧ ∀ q, pfn ≤ q → q < pfn + 2 ^ order →
    k.used q = true ∧ (k.heap.page q).slab = false
  used : ∀ q, k.used q = true → ∃ pfn order, .pages pfn order ∈ xs ∧ pfn ≤ q ∧ q < pfn + 2 ^ order
  apart : xs.Pairwise (Extent.Apart P)
  log : ledger.Balanced k.log xs

namespace Backed

/-- The block of an extent is in one held page. -/
theorem block_ok (h : Backed P k xs) (hx : .block b size ∈ xs) : BlockOk P.toGeometry k.heap ⟨b, size, 0⟩ :=
  h.heap.core.blocks _ (mem_toBlock.mpr hx)

theorem slab_of_covers (h : Backed P k xs) (hx : .block b size ∈ xs) (hu : (Extent.block b size).Covers P u) :
    (k.heap.page (P.virt_to_page u)).slab = true := by
  have hok := h.block_ok hx
  rw [hok.page_of_covers hu]
  exact hok.held

theorem exists_covers (h : Backed P k xs) (hx : x ∈ xs) : ∃ u, x.Covers P u := by
  cases x with
  | block b size => exact ⟨b, (h.block_ok hx).addr_covers⟩
  | pages pfn order =>
    refine ⟨pfn * P.pageUnits, ?_⟩
    have hpage : P.virt_to_page (pfn * P.pageUnits) = pfn := Nat.mul_div_cancel _ P.pageUnits_pos
    rw [Extent.Covers, hpage]
    exact ⟨Nat.le_refl _, Nat.lt_add_of_pos_right (Nat.two_pow_pos order)⟩

/-- Two extents with a unit in common are one. -/
theorem eq_of_covers (h : Backed P k xs) (hx : x ∈ xs) (hy : y ∈ xs) (hxu : x.Covers P u) (hyu : y.Covers P u) :
    x = y := by
  by_contra hne
  have hsymm : Std.Symm (Extent.Apart P) := ⟨fun _ _ hxy => hxy.symm⟩
  exact h.apart.forall hx hy hne u ⟨hxu, hyu⟩

theorem nodup (h : Backed P k xs) : xs.Nodup := by
  rw [List.nodup_iff_pairwise_ne]
  refine (List.Pairwise.and_mem.mp h.apart).imp ?_
  rintro x y ⟨hx, -, hapart⟩ rfl
  obtain ⟨u, hu⟩ := h.exists_covers hx
  exact hapart u ⟨hu, hu⟩

/-- Page 0 is not used. -/
theorem page_pos (h : Backed P k xs) (hx : x ∈ xs) (hu : x.Covers P u) : 0 < P.virt_to_page u := by
  cases x with
  | block b size =>
    have hok := h.block_ok hx
    rw [hok.page_of_covers hu]
    exact hok.pos
  | pages pfn order => exact (h.pages pfn order hx).1.trans_le hu.1

/-- Writes to what was taken, or to pages that the heap does not hold. -/
theorem of_mem (h : Backed P k xs) {mem' : Mem}
    (hmem : ∀ u, (k.heap.page (P.virt_to_page u)).slab = true → (∀ x ∈ xs, ¬ x.Covers P u) →
      mem' u = k.heap.mem u) : Backed P { k with heap.mem := mem' } xs where
  heap := by
    refine ⟨h.heap.core.of_mem fun u hslab hlive => hmem u hslab fun x hx hu => ?_, h.heap.occupied⟩
    cases x with
    | block b size => exact hlive (liveUnit_iff.mpr ⟨b, size, hx, hu⟩)
    | pages pfn order =>
      have hout := ((h.pages pfn order hx).2 _ hu.1 hu.2).2
      rw [hslab] at hout
      exact Bool.noConfusion hout
  pages := h.pages
  used := h.used
  apart := h.apart
  log := h.log

end Backed

section Keeps

/-- What is said of the extents `xs` stays as it is. -/
structure Keeps (P : Platform) (k k' : Kernel) (xs : List Extent) : Prop where
  mem : ∀ x ∈ xs, ∀ u, x.Covers P u → k'.heap.mem u = k.heap.mem u
  page_private : ∀ pfn order, .pages pfn order ∈ xs → k'.page_private pfn = k.page_private pfn
  compound_order : ∀ pfn order, .pages pfn order ∈ xs → k'.compound_order pfn = k.compound_order pfn

theorem Keeps.trans {k'' : Kernel} (h : Keeps P k k' xs) (h' : Keeps P k' k'' xs) : Keeps P k k'' xs where
  mem x hx u hu := (h'.mem x hx u hu).trans (h.mem x hx u hu)
  page_private pfn order hx := (h'.page_private pfn order hx).trans (h.page_private pfn order hx)
  compound_order pfn order hx := (h'.compound_order pfn order hx).trans (h.compound_order pfn order hx)

/-- One more extent was taken. -/
structure Took (P : Platform) (k k' : Kernel) (xs : List Extent) (x : Extent) : Prop where
  backed : Backed P k' (x :: xs)
  keeps : Keeps P k k' xs
  rcu : k'.rcu = k.rcu
  log : k'.log = .acquired x :: k.log

/-- An extent was given back. -/
structure GaveBack (P : Platform) (k k' : Kernel) (xs : List Extent) (x : Extent) : Prop where
  backed : Backed P k' (xs.erase x)
  keeps : Keeps P k k' (xs.erase x)
  rcu : k'.rcu = k.rcu
  log : k'.log = .released x :: k.log

end Keeps

section BackEnds

/-- `slob_alloc` takes a block that has nothing in common with what was taken before. -/
theorem Backed.slob_alloc (h : Backed P k xs) (hsize : 0 < size ∧ size ≤ P.PAGE_SIZE)
    (halign : Geometry.IsAlign align ∧ align ≤ P.PAGE_SIZE) (zero : Bool) (hpage : FreePages k page 0) :
    (page = none ∧ k.slob_alloc P size align zero page = .ok (none, k)) ∨
      ∃ b k', k.slob_alloc P size align zero page = .ok (some b, k') ∧ Took P k k' xs (.block b size) := by
  have hfree : ∀ pfn, page = some pfn → k.used pfn = false ∧ (k.heap.page pfn).slab = false :=
    fun pfn hpfn => (hpage pfn hpfn).2 pfn (Nat.le_refl _) (by simp)
  have hv : (slob.Call.slob_alloc size align zero page).Valid P.toGeometry ⟨k.heap, xs.filterMap Extent.toBlock⟩ :=
    ⟨hsize.1, hsize.2, halign.1, halign.2, fun pfn hpfn => ⟨(hpage pfn hpfn).1, (hfree pfn hpfn).2⟩⟩
  -- A page that is in use is not the one that is given to the heap.
  have hother : ∀ q, k.used q = true → page ≠ some q := by
    intro q hq hpfn
    rw [(hfree q hpfn).1] at hq
    exact Bool.noConfusion hq
  obtain ⟨hnone, hcall⟩ | ⟨b, h', hcall, hinv, hun⟩ := h.heap.slob_alloc_spec hv
  · refine .inl ⟨hnone, ?_⟩
    simp only [Kernel.slob_alloc, hcall, bind, Except.bind, pure, Except.pure]
  · refine .inr ⟨b, { k with heap := h', log := .acquired (.block b size) :: k.log }, ?_, ?_, ?_, rfl, rfl⟩
    · simp only [Kernel.slob_alloc, hcall, bind, Except.bind, pure, Except.pure]
    · have hblock := hinv.core.blocks _ List.mem_cons_self
      refine ⟨hinv.forget_align, ?_, ?_, ?_, h.log.acquire _⟩
      · intro pfn order hx
        obtain ⟨hpos, hrange⟩ := h.pages pfn order (by simpa using hx)
        refine ⟨hpos, fun q hlo hhi => ?_⟩
        obtain ⟨hused, hslab⟩ := hrange q hlo hhi
        exact ⟨hused, hun.slab q hslab (hother q hused)⟩
      · intro q hq
        obtain ⟨pfn, order, hx, hrange⟩ := h.used q hq
        exact ⟨pfn, order, List.mem_cons_of_mem _ hx, hrange⟩
      · refine List.pairwise_cons.mpr ⟨fun y hy u hu => ?_, h.apart⟩
        cases y with
        | block b' size' =>
          have hap := (List.pairwise_cons.mp hinv.core.apart).1 _ (mem_toBlock.mpr hy)
          simp only [Block.Apart, Extent.Covers] at hap hu
          omega
        | pages pfn order =>
          obtain ⟨hused, hslab⟩ := (h.pages pfn order hy).2 _ hu.2.1 hu.2.2
          have hheld := hblock.held
          rw [← hblock.page_of_covers hu.1, hun.slab _ hslab (hother _ hused)] at hheld
          exact Bool.noConfusion hheld
    · refine ⟨fun x hx u hu => ?_, fun _ _ _ => rfl, fun _ _ _ => rfl⟩
      cases x with
      | block b' size' => exact hun.mem u (liveUnit_iff.mpr ⟨b', size', hx, hu⟩)
      | pages pfn order =>
        obtain ⟨hused, hslab⟩ := (h.pages pfn order hx).2 _ hu.1 hu.2
        exact hun.outside u hslab (hother _ hused)

/-- The blocks that are left. -/
theorem Backed.toBlock_erase (h : Backed P k xs) (hx : .block b size ∈ xs) :
    (xs.erase (.block b size)).filterMap Extent.toBlock =
      (xs.filterMap Extent.toBlock).filter fun a => a.addr ≠ b := by
  rw [h.nodup.erase_eq_filter, List.filterMap_filter, List.filter_filterMap]
  refine List.filterMap_congr fun y hy => ?_
  cases y with
  | pages pfn order => simp [Extent.toBlock]
  | block b' size' =>
    by_cases hb : b' = b
    · have hsame := h.heap.core.eq_of_addr (mem_toBlock.mpr hy) (mem_toBlock.mpr hx) hb
      simp_all [Extent.toBlock, Option.filter_some]
    · simp [Extent.toBlock, Option.filter_some, hb]

theorem Backed.slob_free (h : Backed P k xs) (hx : .block b size ∈ xs) :
    ∃ k', k.slob_free P b size = .ok k' ∧ GaveBack P k k' xs (.block b size) := by
  obtain ⟨h', hcall, hinv, hun⟩ := h.heap.slob_free_spec (mem_toBlock.mpr hx)
  dsimp only at hcall hinv hun
  rw [← h.toBlock_erase hx] at hinv hun
  refine ⟨{ k with heap := h', log := .released (.block b size) :: k.log }, ?_, ?_, ?_, rfl, rfl⟩
  · simp only [Kernel.slob_free, hcall, bind, Except.bind, pure, Except.pure]
  · refine ⟨hinv, ?_, ?_, h.apart.sublist List.erase_sublist, h.log.release hx⟩
    · intro pfn order hy
      obtain ⟨hpos, hrange⟩ := h.pages pfn order (List.mem_of_mem_erase hy)
      refine ⟨hpos, fun q hlo hhi => ?_⟩
      obtain ⟨hused, hslab⟩ := hrange q hlo hhi
      exact ⟨hused, hun.slab q hslab (Option.some_ne_none _).symm⟩
    · intro q hq
      obtain ⟨pfn, order, hy, hrange⟩ := h.used q hq
      exact ⟨pfn, order, (List.mem_erase_of_ne (by simp)).mpr hy, hrange⟩
  · refine ⟨fun y hy u hu => ?_, fun _ _ _ => rfl, fun _ _ _ => rfl⟩
    cases y with
    | block b' size' => exact hun.mem u (liveUnit_iff.mpr ⟨b', size', hy, hu⟩)
    | pages pfn order =>
      obtain ⟨-, hslab⟩ := (h.pages pfn order (List.mem_of_mem_erase hy)).2 _ hu.1 hu.2
      exact hun.outside u hslab (Option.some_ne_none _).symm

/-- Free pages have nothing in common with what was taken before. -/
theorem Backed.slob_new_pages (h : Backed P k xs) (gfp : gfp_t) (hpage : FreePages k (some pfn) order) :
    Took P k (k.slob_new_pages gfp order (some pfn)).2 xs (.pages pfn order) := by
  obtain ⟨hpos, hfree⟩ := hpage pfn rfl
  have hnew : ∀ q, k.used q = true → ¬ (pfn ≤ q ∧ q < pfn + 2 ^ order) := by
    intro q hq hrange
    rw [(hfree q hrange.1 hrange.2).1] at hq
    exact Bool.noConfusion hq
  have hapart : ∀ y ∈ xs, Extent.Apart P (.pages pfn order) y := by
    intro y hy u hu
    cases y with
    | block b size =>
      have hslab := h.slab_of_covers hy hu.2
      rw [(hfree _ hu.1.1 hu.1.2).2] at hslab
      exact Bool.noConfusion hslab
    | pages pfn' order' => exact hnew _ ((h.pages pfn' order' hy).2 _ hu.2.1 hu.2.2).1 hu.1
  refine ⟨⟨h.heap, ?_, ?_, List.pairwise_cons.mpr ⟨hapart, h.apart⟩, h.log.acquire _⟩, ?_, rfl, rfl⟩
  · intro pfn' order' hx
    obtain hsame | hx := List.mem_cons.mp hx
    · obtain ⟨rfl, rfl⟩ := Extent.pages.inj hsame
      exact ⟨hpos, fun q hlo hhi => ⟨by simp [Kernel.slob_new_pages, hlo, hhi], (hfree q hlo hhi).2⟩⟩
    · obtain ⟨hpos', hrange⟩ := h.pages pfn' order' hx
      exact ⟨hpos', fun q hlo hhi => ⟨by simp [Kernel.slob_new_pages, (hrange q hlo hhi).1], (hrange q hlo hhi).2⟩⟩
  · intro q hq
    by_cases hrange : pfn ≤ q ∧ q < pfn + 2 ^ order
    · exact ⟨pfn, order, List.mem_cons_self, hrange⟩
    · obtain ⟨pfn', order', hx, hrange'⟩ := h.used q (by simpa [Kernel.slob_new_pages, hrange] using hq)
      exact ⟨pfn', order', List.mem_cons_of_mem _ hx, hrange'⟩
  · refine ⟨fun _ _ _ _ => rfl, fun _ _ _ => rfl, fun pfn' order' hx => ?_⟩
    have hne : pfn' ≠ pfn := by
      rintro rfl
      have hused := ((h.pages pfn' order' hx).2 pfn' (Nat.le_refl _)
        (Nat.lt_add_of_pos_right (Nat.two_pow_pos order'))).1
      exact hnew pfn' hused ⟨Nat.le_refl _, Nat.lt_add_of_pos_right (Nat.two_pow_pos order)⟩
    exact Function.update_of_ne hne _ _

theorem Backed.free_pages (h : Backed P k xs) (hx : .pages pfn order ∈ xs) :
    GaveBack P k (k.free_pages pfn order) xs (.pages pfn order) := by
  refine ⟨⟨?_, ?_, ?_, h.apart.sublist List.erase_sublist, h.log.release hx⟩,
    ⟨fun _ _ _ _ => rfl, fun _ _ _ => rfl, fun _ _ _ => rfl⟩, rfl, rfl⟩
  · have hblocks : (xs.erase (.pages pfn order)).filterMap Extent.toBlock = xs.filterMap Extent.toBlock := by
      rw [h.nodup.erase_eq_filter, List.filterMap_filter]
      refine List.filterMap_congr fun y hy => ?_
      cases y with
      | block b size => simp [Extent.toBlock]
      | pages pfn' order' => simp [Extent.toBlock]
    rw [hblocks]
    exact h.heap
  · intro pfn' order' hy
    obtain ⟨hne, hy⟩ := h.nodup.mem_erase_iff.mp hy
    obtain ⟨hpos, hrange⟩ := h.pages pfn' order' hy
    refine ⟨hpos, fun q hlo hhi => ?_⟩
    obtain ⟨hused, hslab⟩ := hrange q hlo hhi
    have hnot : ¬ (pfn ≤ q ∧ q < pfn + 2 ^ order) := by
      intro hin
      have hpage : P.virt_to_page (q * P.pageUnits) = q := Nat.mul_div_cancel _ P.pageUnits_pos
      refine hne (h.eq_of_covers (u := q * P.pageUnits) hy hx ?_ ?_)
      · rw [Extent.Covers, hpage]
        exact ⟨hlo, hhi⟩
      · rw [Extent.Covers, hpage]
        exact hin
    refine ⟨?_, hslab⟩
    simp only [Kernel.free_pages, hused, hnot, decide_false, Bool.not_false, Bool.true_and]
  · intro q hq
    simp only [Kernel.free_pages, Bool.and_eq_true, Bool.not_eq_true', decide_eq_false_iff_not] at hq
    obtain ⟨pfn', order', hy, hrange⟩ := h.used q hq.2
    refine ⟨pfn', order', h.nodup.mem_erase_iff.mpr ⟨fun hsame => hq.1 ?_, hy⟩, hrange⟩
    obtain ⟨rfl, rfl⟩ := Extent.pages.inj hsame
    exact hrange

/-- Writing to one of the extents. -/
theorem Backed.write {a n : Nat} (h : Backed P k xs) (hx : x ∈ xs)
    (hin : ∀ c, a ≤ c → c < a + n → x.Covers P (c / P.SLOB_UNIT)) (v : Nat) :
    Backed P (k.write P a n v) xs ∧ Keeps P k (k.write P a n v) (xs.erase x) := by
  refine ⟨h.of_mem fun u _ hnone => bytes.store_of_forall_ne fun c hlo hhi hcell => ?_,
    fun y hy u hu => bytes.store_of_forall_ne fun c hlo hhi hcell => ?_, fun _ _ _ => rfl, fun _ _ _ => rfl⟩
  · subst hcell
    exact hnone x hx (hin c hlo hhi)
  · subst hcell
    obtain ⟨hne, hy⟩ := h.nodup.mem_erase_iff.mp hy
    exact hne (h.eq_of_covers hy hx hu (hin c hlo hhi))

/-- Writing to what was taken last. -/
theorem Took.write {a n : Nat} (h : Took P k k' xs x)
    (hin : ∀ c, a ≤ c → c < a + n → x.Covers P (c / P.SLOB_UNIT)) (v : Nat) : Took P k (k'.write P a n v) xs x := by
  obtain ⟨hback, hkeep⟩ := h.backed.write List.mem_cons_self hin v
  rw [List.erase_cons_head] at hkeep
  exact ⟨hback, h.keeps.trans hkeep, h.rcu, h.log⟩

end BackEnds

section InUse

/-- A unit is in use: it is in a page that is given out, or in a page of the heap and not free there. -/
def Kernel.InUse (P : Platform) (k : Kernel) (u : Nat) : Prop :=
  k.used (P.virt_to_page u) = true ∨
    ((k.heap.page (P.virt_to_page u)).slab = true ∧ ¬ covers (freeList P.toGeometry k.heap (P.virt_to_page u)) u)

/-- What is in use was taken and not given back. -/
theorem Backed.inUse_iff (h : Backed P k xs) : k.InUse P u ↔ ∃ x ∈ xs, x.Covers P u := by
  constructor
  · rintro (hused | ⟨hslab, hfree⟩)
    · obtain ⟨pfn, order, hx, hrange⟩ := h.used _ hused
      exact ⟨_, hx, hrange⟩
    · obtain ⟨-, hcomp⟩ := h.heap.core.freeList hslab
      rw [hcomp u rfl, not_not] at hfree
      obtain ⟨b, size, hx, hu⟩ := liveUnit_iff.mp hfree
      exact ⟨_, hx, hu⟩
  · rintro ⟨x, hx, hu⟩
    cases x with
    | block b size =>
      have hslab := h.slab_of_covers hx hu
      obtain ⟨-, hcomp⟩ := h.heap.core.freeList hslab
      refine .inr ⟨hslab, ?_⟩
      rw [hcomp u rfl, not_not]
      exact liveUnit_iff.mpr ⟨b, size, hx, hu⟩
    | pages pfn order => exact .inl ((h.pages pfn order hx).2 _ hu.1 hu.2).1

/-- A call has taken units that were not in use. -/
structure Obtained (P : Platform) (k k' : Kernel) (x : Extent) : Prop where
  log : k'.log = .acquired x :: k.log
  fresh : ∀ u, x.Covers P u → ¬ k.InUse P u
  inUse : ∀ u, k'.InUse P u ↔ k.InUse P u ∨ x.Covers P u

/-- A call has given back units, and these only. -/
structure Returned (P : Platform) (k k' : Kernel) (x : Extent) : Prop where
  log : k'.log = .released x :: k.log
  held : ∀ u, x.Covers P u → k.InUse P u
  inUse : ∀ u, k'.InUse P u ↔ k.InUse P u ∧ ¬ x.Covers P u

theorem Backed.obtained (h : Backed P k xs) (h' : Backed P k' (x :: xs)) (hlog : k'.log = .acquired x :: k.log) :
    Obtained P k k' x where
  log := hlog
  fresh u hu hin := by
    obtain ⟨y, hy, hyu⟩ := h.inUse_iff.mp hin
    exact (List.pairwise_cons.mp h'.apart).1 y hy u ⟨hu, hyu⟩
  inUse u := by
    rw [h'.inUse_iff, h.inUse_iff, List.exists_mem_cons_iff, or_comm]

theorem GaveBack.returned (hgave : GaveBack P k k' xs x) (h : Backed P k xs) (hx : x ∈ xs) : Returned P k k' x where
  log := hgave.log
  held u hu := h.inUse_iff.mpr ⟨x, hx, hu⟩
  inUse u := by
    rw [hgave.backed.inUse_iff, h.inUse_iff]
    constructor
    · rintro ⟨y, hy, hyu⟩
      obtain ⟨hne, hy⟩ := h.nodup.mem_erase_iff.mp hy
      exact ⟨⟨y, hy, hyu⟩, fun hu => hne (h.eq_of_covers hy hx hyu hu)⟩
    · rintro ⟨⟨y, hy, hyu⟩, hnot⟩
      refine ⟨y, h.nodup.mem_erase_iff.mpr ⟨?_, hy⟩, hyu⟩
      rintro rfl
      exact hnot hyu

end InUse

end frontend

end cs444.slob
