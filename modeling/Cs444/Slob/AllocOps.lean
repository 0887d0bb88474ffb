import Cs444.Slob.Carving

open interval

namespace cs444.slob

variable {g : Geometry} {h : Heap} {live : List Block} {pfn size align : Nat} {l : List Interval}

/-- No free block of the page can hold the request. -/
def NoFit (g : Geometry) (h : Heap) (size align pfn : Nat) : Prop :=
  ∀ l, PageOk g h pfn l → listAlloc (g.delta align) (g.SLOB_UNITS size) l = none

/-- A page skipped because of its free units has no block for the request. -/
theorem noFit_of_units (hsmall : (h.page pfn).units < g.SLOB_UNITS size) : NoFit g h size align pfn := by
  intro l hp
  rw [listAlloc_eq_none]
  intro b hb hfit
  have hlen := len_le_total hb
  have hunits := hp.units
  rw [Fits] at hfit
  omega

/-- A block of a listed page taken for a request. -/
structure Carved (g : Geometry) (h h₁ : Heap) (live : List Block) (pfn size align b : Nat)
    (l l' : List Interval) : Prop where
  before : PageOk g h pfn l
  complements : Complements g live pfn l
  alloc : listAlloc (g.delta align) (g.SLOB_UNITS size) l = some (b, l')
  call : g.slob_page_alloc h pfn size align = .ok (some b, h₁)
  after : PageOk g h₁ pfn l'
  rest : CarvedFrom h h₁ pfn l l'

/-- `slob_page_alloc` on a held page with free units: either no block fits and
    nothing changes, or a block is carved. -/
theorem Core.slob_page_alloc (hc : Core g h live) (hslab : (h.page pfn).slab = true)
    (hfree : (h.page pfn).slobFree = true) (hreq : Request g size align) :
    (g.slob_page_alloc h pfn size align = .ok (none, h) ∧ NoFit g h size align pfn) ∨
      ∃ b l l' h₁, Carved g h h₁ live pfn size align b l l' := by
  obtain ⟨l, hp, hcomp⟩ := hc.pages pfn hslab
  have hspec := slob_page_alloc_spec hp (hp.flag.mp hfree) hreq
  split at hspec
  · rename_i hnone
    refine .inl ⟨hspec, fun l₂ hp₂ => ?_⟩
    rw [hp₂.unique hp, hnone]
  · rename_i b l' hsome
    obtain ⟨h₁, hcall, hp', hrest⟩ := hspec
    exact .inr ⟨b, l, l', h₁, hp, hcomp, hsome, hcall, hp', hrest⟩

/-- What the walk over listed pages can end with: no page has a fitting block and
    nothing has changed, or a block is carved from a page and the list is rotated. -/
def WalkOutcome (g : Geometry) (h : Heap) (live : List Block) (size align : Nat) (pages : List Nat)
    (r : Except Fault (Option Nat × Heap)) : Prop :=
  (r = .ok (none, h) ∧ ∀ pfn ∈ pages, NoFit g h size align pfn) ∨
    ∃ pfn ∈ pages, ∃ b l l' h₁, Carved g h h₁ live pfn size align b l l' ∧
      r = .ok (some b, { h₁ with mem_used := toInt (h₁.mem_used + size) }.rotate (sizeClass size)
        (ring.prev (h.list (sizeClass size)) (some pfn)))

theorem WalkOutcome.cons {pages : List Nat} {r : Except Fault (Option Nat × Heap)}
    (hr : WalkOutcome g h live size align pages r) (hnone : NoFit g h size align pfn) :
    WalkOutcome g h live size align (pfn :: pages) r := by
  obtain ⟨hrun, hrest⟩ | ⟨q, hq, hfound⟩ := hr
  · refine .inl ⟨hrun, fun q hq => ?_⟩
    obtain rfl | hq := List.mem_cons.mp hq
    · exact hnone
    · exact hrest q hq
  · exact .inr ⟨q, List.mem_cons_of_mem _ hq, hfound⟩

theorem Core.slob_alloc_walk (hc : Core g h live) (hreq : Request g size align) (pages : List Nat)
    (hpages : ∀ pfn ∈ pages, pfn ∈ h.list (sizeClass size)) :
    WalkOutcome g h live size align pages (g.slob_alloc_walk h size align pages) := by
  induction pages with
  | nil => exact .inl ⟨rfl, by simp⟩
  | cons pfn rest ih =>
    have hrest := ih fun q hq => hpages q (List.mem_cons_of_mem _ hq)
    by_cases hsmall : (h.page pfn).units < g.SLOB_UNITS size
    · rw [Geometry.slob_alloc_walk, if_pos hsmall]
      exact hrest.cons (noFit_of_units hsmall)
    · rw [Geometry.slob_alloc_walk, if_neg hsmall]
      obtain ⟨hslab, hfree⟩ := hc.listed _ pfn (hpages pfn List.mem_cons_self)
      obtain ⟨hcall, hnone⟩ | ⟨b, l, l', h₁, hcarved⟩ := hc.slob_page_alloc hslab hfree hreq
      · rw [hcall]
        exact hrest.cons hnone
      · rw [hcarved.call]
        exact .inr ⟨pfn, List.mem_cons_self, b, l, l', h₁, hcarved, rfl⟩

/-- Carving keeps the invariant, with the new block live. -/
theorem Carved.core {h₁ : Heap} {b : Nat} {l l' : List Interval}
    (hcarved : Carved g h h₁ live pfn size align b l l') (hc : Core g h live)
    (hlisted : pfn ∈ h.list (sizeClass size)) (hpos : 0 < pfn) (hreq : Request g size align) :
    Core g h₁ (⟨b, size, align⟩ :: live) := by
  have hunits := g.SLOB_UNITS_pos hreq.pos
  obtain ⟨⟨c, hin, hfit, hb⟩, hsub, hcut⟩ :=
    listAlloc_eq_some hcarved.before.gapped hunits hcarved.alloc
  apply hc.carve (hc.listed _ pfn hlisted).1 hpos hcarved.complements hcarved.after hcarved.rest
  · exact ⟨hreq.pos, hreq.le⟩
  · intro hne
    rw [hb]
    exact Geometry.dvd_add_delta hreq.isAlign hne c.start
  · exact hsub
  · exact fun u hu => hcarved.before.covers_page hu
  · exact hcut
  · exact hlisted

theorem SLOB_UNITS_of_not_dvd (hnot : ¬ g.SLOB_UNIT ∣ size) : size / g.SLOB_UNIT < g.SLOB_UNITS size := by
  have hpos : 0 < size % g.SLOB_UNIT := Nat.pos_of_ne_zero fun h0 => hnot (Nat.dvd_of_mod_eq_zero h0)
  have hdiv := Nat.div_add_mod size g.SLOB_UNIT
  rw [Geometry.SLOB_UNITS, Nat.lt_iff_add_one_le, Nat.le_div_iff_mul_le g.SLOB_UNIT_pos, Nat.add_mul,
    Nat.mul_comm]
  omega

/-- `memset` writes inside the block only. -/
theorem memset_frame {mem : Mem} {b u : Nat} (hu : ¬ (⟨b, g.SLOB_UNITS size⟩ : Interval).Covers u) :
    g.memset mem b size u = mem u := by
  simp only [Interval.Covers] at hu
  rw [Geometry.memset]
  by_cases hdvd : g.SLOB_UNIT ∣ size
  · -- the block ends on a unit boundary, so no low bytes are cleared
    rw [← g.SLOB_UNITS_of_dvd hdvd, if_neg hu, Nat.mod_eq_zero_of_dvd hdvd]
    simp
  · have hlt := SLOB_UNITS_of_not_dvd hdvd
    generalize size / g.SLOB_UNIT = q at *
    rw [if_neg (by omega), if_neg (by omega)]

/-- The only block of a new page fits every request, at the start of the page. -/
theorem listAlloc_whole (hreq : Request g size align) (halign : align ≤ g.PAGE_SIZE) (pfn : Nat) :
    ∃ l', listAlloc (g.delta align) (g.SLOB_UNITS size) [⟨pfn * g.pageUnits, g.pageUnits⟩] =
      some (pfn * g.pageUnits, l') := by
  have hdelta : g.delta align (pfn * g.pageUnits) = 0 := by
    obtain rfl | ⟨k, rfl⟩ := hreq.isAlign
    · rfl
    · apply Geometry.delta_eq_zero
      rw [Nat.mul_assoc, g.pageUnits_mul]
      have hk : k ≤ g.PAGE_SHIFT := (Nat.pow_le_pow_iff_right (by omega)).mp halign
      exact (Nat.pow_dvd_pow 2 hk).mul_left pfn
  have hfit : Fits (g.delta align) (g.SLOB_UNITS size) ⟨pfn * g.pageUnits, g.pageUnits⟩ := by
    rw [Fits, hdelta]
    exact g.SLOB_UNITS_le hreq.le
  simp [listAlloc, bestFit, hfit, hdelta]

/-- A page the heap does not hold has no live unit. -/
theorem Core.not_liveUnit (hc : Core g h live) (hslab : (h.page pfn).slab = false) {u : Nat}
    (hu : g.virt_to_page u = pfn) : ¬ LiveUnit g live u := by
  rintro ⟨x, hx, hcov⟩
  obtain ⟨b, hb, rfl⟩ := List.mem_map.mp hx
  have hok := hc.blocks b hb
  have hheld := hok.held
  rw [← hok.page_of_covers hcov, hu, hslab] at hheld
  exact Bool.noConfusion hheld

/-- A new page is one free block. -/
theorem slob_alloc_setup_pageOk : PageOk g (g.slob_alloc_setup h size pfn) pfn
    [⟨pfn * g.pageUnits, g.pageUnits⟩] := by
  have hpos := g.pageUnits_pos
  have hspaced : Spaced 1 (pfn * g.pageUnits + g.pageUnits) (pfn * g.pageUnits)
      [⟨pfn * g.pageUnits, g.pageUnits⟩] := ⟨le_refl _, hpos, le_refl _, trivial⟩
  have hchain : g.Chain h.mem (pfn * g.pageUnits + g.pageUnits) [] := trivial
  obtain ⟨hholds, -⟩ := Geometry.Holds.set_cons (Nat.dvd_mul_left _ _)
    (hspaced.weaken (Nat.zero_le _)) hchain
  refine ⟨⟨hholds, hspaced, ?_⟩, ?_, ?_⟩
  · simp [Geometry.slob_alloc_setup, Heap.set_slob_page_free, Heap.setPage]
  · have hall : g.slobidx g.pageUnits = g.pageUnits := g.slobidx_eq (by omega) (by omega)
    simp [Geometry.slob_alloc_setup, Heap.set_slob_page_free, Heap.setPage, hall]
  · simp [Geometry.slob_alloc_setup, Heap.set_slob_page_free, Heap.setPage]

theorem slob_alloc_setup_slab : ((g.slob_alloc_setup h size pfn).page pfn).slab = true := by
  simp [Geometry.slob_alloc_setup, Heap.set_slob_page_free, Heap.setPage]

theorem slob_alloc_setup_page {q : Nat} (hq : q ≠ pfn) :
    (g.slob_alloc_setup h size pfn).page q = h.page q := by
  simp [Geometry.slob_alloc_setup, Heap.set_slob_page_free, Heap.setPage, Function.update_of_ne hq]

theorem slob_alloc_setup_mem_used : (g.slob_alloc_setup h size pfn).mem_used = h.mem_used := rfl

theorem mem_slob_alloc_setup_list {c : SizeClass} {q : Nat} :
    q ∈ (g.slob_alloc_setup h size pfn).list c ↔ q ∈ h.list c ∨ (q = pfn ∧ c = sizeClass size) := by
  by_cases hcc : c = sizeClass size
  · subst hcc
    simp [Geometry.slob_alloc_setup, Heap.set_slob_page_free, Heap.setPage, or_comm]
  · simp [Geometry.slob_alloc_setup, Heap.set_slob_page_free, Heap.setPage, hcc]

/-- What setting up a page changes besides the page. -/
theorem slob_alloc_setup_frame {u : Nat} (hu : g.virt_to_page u ≠ pfn) :
    (g.slob_alloc_setup h size pfn).mem u = h.mem u := by
  apply Geometry.set_slob_frame (b := ⟨pfn * g.pageUnits, g.pageUnits⟩)
  · exact le_refl _
  · intro hcov
    exact hu (Geometry.virt_to_page_eq_iff.mpr hcov)
  · exact g.pageUnits_pos

/-- Setting up a page the heap does not hold. -/
theorem Core.slob_alloc_setup (hc : Core g h live) (hslab : (h.page pfn).slab = false) (size : Nat) :
    Core g (g.slob_alloc_setup h size pfn) live ∧
      Complements g live pfn [⟨pfn * g.pageUnits, g.pageUnits⟩] := by
  have hcomp : Complements g live pfn [⟨pfn * g.pageUnits, g.pageUnits⟩] := by
    intro u hu
    have hnot := hc.not_liveUnit hslab hu
    have hbounds := Geometry.virt_to_page_eq_iff.mp hu
    simpa [Interval.Covers, hnot] using hbounds
  obtain ⟨hunlisted, hnotlive⟩ := hc.unheld_page hslab
  have hslab' : ((g.slob_alloc_setup h size pfn).page pfn).slab = true := slob_alloc_setup_slab
  have hfree' : ((g.slob_alloc_setup h size pfn).page pfn).slobFree = true := by
    simp [Geometry.slob_alloc_setup, Heap.set_slob_page_free, Heap.setPage]
  have hlist : ∀ c q, q ∈ (g.slob_alloc_setup h size pfn).list c ↔
      q ∈ h.list c ∨ (q = pfn ∧ c = sizeClass size) := fun _ _ => mem_slob_alloc_setup_list
  have hnew : OnPage g (g.slob_alloc_setup h size pfn) live pfn := by
    refine ⟨fun _ => ⟨_, slob_alloc_setup_pageOk, hcomp⟩, fun a ha hpa => absurd hpa (hnotlive a ha),
      fun _ _ => ⟨hslab', hfree'⟩, fun _ _ => ⟨_, (hlist _ _).mpr (.inr ⟨rfl, rfl⟩)⟩, fun c c' h₁ h₂ => ?_,
      fun _ _ a ha hpa => absurd hpa (hnotlive a ha), fun a ha _ _ hpa => absurd hpa (hnotlive a ha),
      fun hnot => absurd (hnot.symm.trans hslab') (by simp)⟩
    have hone : ∀ c, pfn ∈ (g.slob_alloc_setup h size pfn).list c → c = sizeClass size := fun c hin =>
      (((hlist c pfn).mp hin).resolve_left (hunlisted c)).2
    rw [hone c h₁, hone c' h₂]
  refine ⟨.of_pages (fun q => ?_) hc.apart fun c => ?_, hcomp⟩
  · by_cases hqp : q = pfn
    · rw [hqp]
      exact hnew
    · refine (hc.onPage q).frame (slob_alloc_setup_page hqp) (fun c => ?_) (fun _ _ => Iff.rfl) (fun _ _ => Iff.rfl)
        fun _ u hu _ => slob_alloc_setup_frame (by rwa [hu])
      simp [hlist, hqp]
  · by_cases hcc : c = sizeClass size
    · subst hcc
      simpa [Geometry.slob_alloc_setup, Heap.set_slob_page_free, Heap.setPage]
        using ⟨hunlisted _, hc.nodup _⟩
    · simpa [Geometry.slob_alloc_setup, Heap.set_slob_page_free, Heap.setPage, hcc] using hc.nodup c

/-- What `slob_alloc` can do. `refused`: no listed page has a fitting block and the
    page allocator gives none. `listed`: the block is carved from a page of the list
    and counted in `mem_used`. `fresh`: it is carved from a new page, which is counted
    in `mem_claimed`. -/
inductive AllocOutcome (g : Geometry) (h : Heap) (live : List Block) (size align : Nat) (zero : Bool) :
    Option Nat → Except Fault (Option Nat × Heap) → Prop where
  | refused (hnone : ∀ pfn ∈ h.list (sizeClass size), NoFit g h size align pfn) :
    AllocOutcome g h live size align zero none (.ok (none, h))
  | listed {page : Option Nat} {pfn b : Nat} {l l' : List Interval} {h₁ : Heap}
    (hlisted : pfn ∈ h.list (sizeClass size)) (hcarved : Carved g h h₁ live pfn size align b l l') :
    AllocOutcome g h live size align zero page (.ok (some b, g.slob_alloc_zero
      ({ h₁ with mem_used := toInt (h₁.mem_used + size) }.rotate (sizeClass size)
        (ring.prev (h.list (sizeClass size)) (some pfn))) b size zero))
  | fresh {pfn b : Nat} {l' : List Interval} {h₁ : Heap}
    (hnone : ∀ q ∈ h.list (sizeClass size), NoFit g h size align q)
    (hcarved : Carved g (g.slob_alloc_setup h size pfn) h₁ live pfn size align b
      [⟨pfn * g.pageUnits, g.pageUnits⟩] l') :
    AllocOutcome g h live size align zero (some pfn) (.ok (some b, g.slob_alloc_zero
      { h₁ with mem_claimed := toInt (h₁.mem_claimed + g.PAGE_SIZE) } b size zero))

/-- `slob_alloc` never runs into its `BUG_ON` and its loops end. -/
theorem Core.slob_alloc (hc : Core g h live) (hreq : Request g size align) (halign : align ≤ g.PAGE_SIZE)
    (zero : Bool) {page : Option Nat} (hpage : ∀ pfn, page = some pfn → (h.page pfn).slab = false) :
    AllocOutcome g h live size align zero page (g.slob_alloc h size align zero page) := by
  obtain ⟨hrun, hnone⟩ | ⟨pfn, hin, b, l, l', h₁, hcarved, hrun⟩ :=
    hc.slob_alloc_walk hreq (h.list (sizeClass size)) fun _ hq => hq
  · cases page with
    | none =>
      rw [Geometry.slob_alloc, hrun]
      exact .refused hnone
    | some pfn =>
      obtain ⟨-, hcomp⟩ := hc.slob_alloc_setup (hpage pfn rfl) size
      have hp : PageOk g (g.slob_alloc_setup h size pfn) pfn _ := slob_alloc_setup_pageOk
      obtain ⟨l', hwhole⟩ := listAlloc_whole hreq halign pfn
      have hspec := slob_page_alloc_spec hp (by simp) hreq
      rw [hwhole] at hspec
      obtain ⟨h₁, hcall, hp', hrest⟩ := hspec
      rw [Geometry.slob_alloc, hrun]
      simp only [Geometry.slob_alloc_new, hcall, bind, Except.bind]
      exact .fresh hnone ⟨hp, hcomp, hwhole, hcall, hp', hrest⟩
  · rw [Geometry.slob_alloc, hrun]
    exact .listed hin hcarved

/-- Zeroing a block does not disturb the heap. -/
theorem Core.slob_alloc_zero {b : Block} (hc : Core g h (b :: live)) (zero : Bool) :
    Core g (g.slob_alloc_zero h b.addr b.size zero) (b :: live) := by
  cases zero with
  | false => exact hc
  | true =>
    apply hc.of_mem
    intro u _ hu
    exact memset_frame fun hcov => hu ((liveUnit_cons b u).mpr (.inl hcov))

end cs444.slob
