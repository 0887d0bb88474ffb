import Cs444.Lib.Checked
import Cs444.Lib.Owners
import Cs444.Slob.Backing

open interval

open Function

namespace cs444.slob

section Sections

/-- The second section of `slob_alloc` under `slob_lock`: the new page is set up and the block carved. -/
def Geometry.slob_alloc_fill (g : Geometry) (h : Heap) (size align pfn : Nat) : Except Fault (Nat × Heap) := do
  match ← g.slob_page_alloc (g.slob_alloc_setup h size pfn) pfn size align with
  | (none, _) => throw .bug
  | (some b, h) => return (b, h)

/-- The section of `slob_free` under `slob_lock`. The page it answers goes back to the page allocator after
    the lock has been dropped. -/
def Geometry.slob_free_locked (g : Geometry) (h : Heap) (block size : Nat) :
    Except Fault (Option Nat × Heap) := do
  let pfn := g.virt_to_page block
  let units := g.slobidx (g.SLOB_UNITS size)
  if (h.page pfn).units + units = g.pageUnits then
    let h := { h with mem_claimed := toInt (h.mem_claimed - g.PAGE_SIZE) }
    return (some pfn, if (h.page pfn).slobFree then h.clear_slob_page_free pfn else h)
  else if (h.page pfn).slobFree = false then
    return (none, g.slob_free_first h pfn block units size)
  else
    let (mem, free) ← g.slob_free_reinsert h.mem (h.page pfn).free block units
    return (none, { h.setPage pfn { h.page pfn with units := g.slobidx ((h.page pfn).units + units), free }
      with mem })

/-- `clear_slob_page`, and `free_slob_page` on the map count. -/
def Heap.clear_slob_page (h : Heap) (pfn : Nat) : Heap := h.setPage pfn { h.page pfn with slab := false }

def Heap.free_slob_page (h : Heap) (pfn : Nat) : Heap := h.setPage pfn { h.page pfn with units := -1 }

def Heap.set_slob_page (h : Heap) (pfn : Nat) : Heap := h.setPage pfn { h.page pfn with slab := true }

variable {g : Geometry} {h h' : Heap} {live : List Block} {pfn size align block : Nat}

/-- `slob_alloc` behind its walk, without interruption. -/
theorem slob_alloc_new_eq : g.slob_alloc_new h size align pfn = (do
    let (b, h) ← g.slob_alloc_fill h size align pfn
    return (some b, { h with mem_claimed := toInt (h.mem_claimed + g.PAGE_SIZE) })) := by
  unfold Geometry.slob_alloc_new Geometry.slob_alloc_fill
  cases g.slob_page_alloc (g.slob_alloc_setup h size pfn) pfn size align with
  | error e => rfl
  | ok r =>
    obtain ⟨b, h₁⟩ := r
    cases b <;> rfl

/-- `slob_free` without interruption. -/
theorem slob_free_eq (hnull : ¬ block * g.SLOB_UNIT ≤ 16) (hsize : size ≠ 0) :
    g.slob_free h block size = (do
      let (page, h) ← g.slob_free_locked { h with mem_used := toInt (h.mem_used - size) } block size
      match page with
      | none => return h
      | some pfn => return (h.clear_slob_page pfn).free_slob_page pfn) := by
  unfold Geometry.slob_free Geometry.slob_free_locked
  simp only [if_neg hnull, if_neg hsize]
  split
  · simp [Geometry.slob_free_release, Heap.clear_slob_page, Heap.free_slob_page, Heap.setPage, bind, Except.bind,
      pure, Except.pure]
  · split
    · rfl
    · simp only [bind, Except.bind, pure, Except.pure]
      cases g.slob_free_reinsert h.mem (h.page (g.virt_to_page block)).free block _ <;> rfl

end Sections

section Masks

variable {g : Geometry} {h h' : Heap} {out out' : Nat → Prop} {pfn q size align block : Nat} {sp : slob_page}

open Classical in
/-- The heap with the pages in `out` masked: a thread has taken them and not set them up yet, or is about to
    give them back, and they count as pages the heap does not hold. -/
noncomputable def Heap.without (h : Heap) (out : Nat → Prop) : Heap :=
  { h with page := fun q => if out q then { h.page q with slab := false, units := -1 } else h.page q }

theorem Heap.without_page (hq : ¬ out q) : (h.without out).page q = h.page q := if_neg hq

theorem Heap.without_page_of_out (hq : out q) :
    (h.without out).page q = { h.page q with slab := false, units := -1 } := if_pos hq

@[simp] theorem Heap.without_mem : (h.without out).mem = h.mem := rfl

@[simp] theorem Heap.without_list : (h.without out).list = h.list := rfl

/-- A page that counts as held is not masked. -/
theorem Heap.not_out_of_slab (hslab : ((h.without out).page q).slab = true) : ¬ out q := by
  intro hq
  rw [Heap.without_page_of_out hq] at hslab
  exact Bool.noConfusion hslab

theorem Heap.eq_of_fields {a b : Heap} (hmem : a.mem = b.mem) (hpage : ∀ q, a.page q = b.page q)
    (hlist : a.list = b.list) (hused : a.mem_used = b.mem_used) (hclaimed : a.mem_claimed = b.mem_claimed) :
    a = b := by
  have hpages : a.page = b.page := funext hpage
  cases a
  cases b
  simp_all

/-- The mask hides no more than the pages in `out`. -/
theorem Heap.eq_of_without (hsame : h'.without out = h.without out)
    (hpage : ∀ q, out q → h'.page q = h.page q) : h' = h := by
  have hfields := Heap.mk.inj hsame
  refine Heap.eq_of_fields hfields.1 (fun q => ?_) hfields.2.2.1 hfields.2.2.2.1 hfields.2.2.2.2
  by_cases hq : out q
  · exact hpage q hq
  · rw [← Heap.without_page hq, hsame, Heap.without_page hq]

/-- Two heaps whose pages differ at most at `pfn` from one heap behind the mask and in front of it. -/
theorem Heap.eq_without {a b : Heap} (hq : ¬ out pfn) (hmem : a.mem = b.mem) (hlist : a.list = b.list)
    (hused : a.mem_used = b.mem_used) (hclaimed : a.mem_claimed = b.mem_claimed) (hpage : a.page pfn = b.page pfn)
    (ha : ∀ q, q ≠ pfn → a.page q = (h.without out).page q) (hb : ∀ q, q ≠ pfn → b.page q = h.page q) :
    a = b.without out := by
  refine Heap.eq_of_fields hmem (fun q => ?_) hlist hused hclaimed
  by_cases hqp : q = pfn
  · rw [hqp, Heap.without_page hq, hpage]
  · rw [ha q hqp, Heap.without, Heap.without]
    simp only [hb q hqp]

theorem Heap.without_setPage (hq : ¬ out pfn) :
    (h.without out).setPage pfn sp = (h.setPage pfn sp).without out := by
  apply Heap.eq_without (h := h) hq <;> simp +contextual [Heap.setPage, Heap.without]

/-- What is done to a masked page behind the mask. -/
theorem Heap.without_setPage_of_out (hq : out pfn) (hfree : sp.free = (h.page pfn).free)
    (hflag : sp.slobFree = (h.page pfn).slobFree) : (h.setPage pfn sp).without out = h.without out := by
  refine Heap.eq_of_fields rfl (fun q => ?_) rfl rfl rfl
  by_cases hqp : q = pfn
  · subst hqp
    rw [Heap.without_page_of_out hq, Heap.without_page_of_out hq]
    simp [Heap.setPage, hfree, hflag]
  · simp [Heap.without, Heap.setPage, update_of_ne hqp]

/-- A page is masked once it has been released. -/
theorem Heap.without_release (hout : ∀ q, out' q ↔ q = pfn ∨ out q) (hq : ¬ out pfn) :
    ((h.without out).clear_slob_page pfn).free_slob_page pfn = h.without out' := by
  have hset : ((h.without out).clear_slob_page pfn).free_slob_page pfn =
      (h.without out).setPage pfn { h.page pfn with slab := false, units := -1 } := by
    simp [Heap.clear_slob_page, Heap.free_slob_page, Heap.setPage, Heap.without_page hq]
  rw [hset, Heap.without_setPage hq]
  refine Heap.eq_of_fields rfl (fun q => ?_) rfl rfl rfl
  by_cases hqp : q = pfn
  · subst hqp
    rw [Heap.without_page_of_out ((hout q).mpr (.inl rfl)), Heap.without_page hq]
    simp [Heap.setPage]
  · by_cases hoq : out q
    · rw [Heap.without_page_of_out hoq, Heap.without_page_of_out ((hout q).mpr (.inr hoq))]
      simp [Heap.setPage, update_of_ne hqp]
    · rw [Heap.without_page hoq, Heap.without_page fun h' => ((hout q).mp h').elim hqp hoq]
      simp [Heap.setPage, update_of_ne hqp]

/-- Setting a page up takes its mask off. -/
theorem slob_alloc_setup_without (hout : ∀ q, out' q ↔ out q ∧ q ≠ pfn) :
    g.slob_alloc_setup (h.without out) size pfn = (g.slob_alloc_setup h size pfn).without out' := by
  refine Heap.eq_of_fields rfl (fun q => ?_) rfl rfl rfl
  by_cases hqp : q = pfn
  · subst hqp
    rw [Heap.without_page fun h' => ((hout q).mp h').2 rfl]
    simp only [Geometry.slob_alloc_setup, Heap.set_slob_page_free, Heap.setPage, update_self, Heap.without]
  · rw [slob_alloc_setup_page hqp]
    by_cases hoq : out q
    · rw [Heap.without_page_of_out hoq, Heap.without_page_of_out ((hout q).mpr ⟨hoq, hqp⟩),
        slob_alloc_setup_page hqp]
    · rw [Heap.without_page hoq, Heap.without_page fun h' => hoq ((hout q).mp h').1, slob_alloc_setup_page hqp]

/-- `slob_page_alloc` works on its page and looks at no other. -/
theorem slob_page_alloc_without (hq : ¬ out pfn) : g.slob_page_alloc (h.without out) pfn size align =
    (g.slob_page_alloc h pfn size align).map (Prod.map id fun h => h.without out) := by
  simp only [Geometry.slob_page_alloc, Heap.without_page hq, Heap.without_mem]
  cases g.slob_page_alloc_loop h.mem (g.SLOB_UNITS size) align g.pageUnits none (h.page pfn).free none with
  | error e => rfl
  | ok best =>
    cases best with
    | none => rfl
    | some best =>
      simp only [bind, Except.bind, pure, Except.pure, Except.map, Prod.map, id]
      congr 2
      split
      · apply Heap.eq_without (h := h) hq <;>
          simp +contextual [Heap.clear_slob_page_free, Heap.setPage, Heap.without]
      · apply Heap.eq_without (h := h) hq <;> simp +contextual [Heap.setPage, Heap.without]

theorem slob_page_alloc_page {r : Option Nat} (hcall : g.slob_page_alloc h pfn size align = .ok (r, h'))
    (hq : q ≠ pfn) : h'.page q = h.page q := by
  simp only [Geometry.slob_page_alloc] at hcall
  rw [checked.bind_eq_ok] at hcall
  obtain ⟨best, -, hcall⟩ := hcall
  cases best with
  | none =>
    cases hcall
    rfl
  | some best =>
    cases hcall
    split <;> simp [Heap.clear_slob_page_free, Heap.setPage, update_of_ne hq]

theorem slob_alloc_fill_without (size align : Nat) (hout : ∀ q, out' q ↔ out q ∧ q ≠ pfn) :
    g.slob_alloc_fill (h.without out) size align pfn =
      (g.slob_alloc_fill h size align pfn).map (Prod.map id fun h => h.without out') := by
  have hq : ¬ out' pfn := fun hq => ((hout pfn).mp hq).2 rfl
  rw [Geometry.slob_alloc_fill, Geometry.slob_alloc_fill, slob_alloc_setup_without hout, slob_page_alloc_without hq]
  cases g.slob_page_alloc (g.slob_alloc_setup h size pfn) pfn size align with
  | error e => rfl
  | ok r =>
    obtain ⟨b, h₁⟩ := r
    cases b <;> rfl

theorem slob_alloc_fill_page {b : Nat} (hcall : g.slob_alloc_fill h size align pfn = .ok (b, h')) (hq : q ≠ pfn) :
    h'.page q = h.page q := by
  obtain ⟨⟨r, h₁⟩, hpage, hrest⟩ := checked.bind_eq_ok.mp hcall
  have hsame := (slob_page_alloc_page hpage hq).trans (slob_alloc_setup_page hq)
  cases r with
  | none => cases hrest
  | some b =>
    cases hrest
    exact hsame

theorem Heap.rotate_without (c : SizeClass) (prev : Option Nat) :
    (h.without out).rotate c prev = (h.rotate c prev).without out := by
  by_cases hmove : prev ≠ ring.prev (h.list c) none ∧ ring.next (h.list c) none ≠ ring.next (h.list c) prev
  · have hmoved : h.rotate c prev = { h with
        list := update h.list c (ring.moveHead (h.list c) (ring.next (h.list c) prev)) } := if_pos hmove
    rw [hmoved]
    exact if_pos hmove
  · have hstays : h.rotate c prev = h := if_neg hmove
    rw [hstays]
    exact if_neg hmove

/-- The walk looks at listed pages only. -/
theorem slob_alloc_walk_without (size align : Nat) {pages : List Nat} (hpages : ∀ q ∈ pages, ¬ out q) :
    g.slob_alloc_walk (h.without out) size align pages =
      (g.slob_alloc_walk h size align pages).map (Prod.map id fun h => h.without out) := by
  induction pages generalizing h with
  | nil => rfl
  | cons pfn rest ih =>
    have hq := hpages pfn List.mem_cons_self
    have hrest : ∀ q ∈ rest, ¬ out q := fun q hq => hpages q (List.mem_cons_of_mem _ hq)
    simp only [Geometry.slob_alloc_walk, Heap.without_page hq, Heap.without_list]
    split
    · exact ih hrest
    · rw [slob_page_alloc_without hq]
      cases g.slob_page_alloc h pfn size align with
      | error e => rfl
      | ok r =>
        obtain ⟨b, h₁⟩ := r
        cases b with
        | none => exact ih hrest
        | some b =>
          have hrotate : ({ h₁ with mem_used := toInt (h₁.mem_used + size) }.without out).rotate (sizeClass size)
              (ring.prev (h.list (sizeClass size)) (some pfn)) = _ := Heap.rotate_without ..
          exact congrArg (fun h => Except.ok (some b, h)) hrotate

theorem slob_alloc_walk_page {pages : List Nat} {r : Option Nat}
    (hcall : g.slob_alloc_walk h size align pages = .ok (r, h')) (hq : q ∉ pages) : h'.page q = h.page q := by
  induction pages generalizing h with
  | nil =>
    cases hcall
    rfl
  | cons pfn rest ih =>
    have hqp := List.ne_of_not_mem_cons hq
    have hrest := List.not_mem_of_not_mem_cons hq
    rw [Geometry.slob_alloc_walk] at hcall
    split at hcall
    · exact ih hcall hrest
    · obtain ⟨⟨b, h₁⟩, hpage, hcall⟩ := checked.bind_eq_ok.mp hcall
      have hsame := slob_page_alloc_page hpage hqp
      cases b with
      | none => exact (ih hcall hrest).trans hsame
      | some b =>
        cases hcall
        rw [Heap.rotate_page]
        exact hsame

/-- The section of `slob_free` works on the page of the block and looks at no other. -/
theorem slob_free_locked_without (size : Nat) (hq : ¬ out (g.virt_to_page block)) :
    g.slob_free_locked (h.without out) block size =
      (g.slob_free_locked h block size).map (Prod.map id fun h => h.without out) := by
  simp only [Geometry.slob_free_locked, Heap.without_page hq, Heap.without_mem]
  split
  · simp only [pure, Except.pure, Except.map, Prod.map, id]
    congr 2
    split
    · apply Heap.eq_without (h := h) hq <;>
        simp +contextual [Heap.clear_slob_page_free, Heap.setPage, Heap.without, hq]
    · rfl
  · split
    · simp only [pure, Except.pure, Except.map, Prod.map, id, Geometry.slob_free_first]
      congr 2
      apply Heap.eq_without (h := h) hq <;>
        simp +contextual [Heap.set_slob_page_free, Heap.setPage, Heap.without, hq]
    · cases g.slob_free_reinsert h.mem (h.page (g.virt_to_page block)).free block
        (g.slobidx (g.SLOB_UNITS size)) with
      | error e => rfl
      | ok r =>
        simp only [bind, Except.bind, pure, Except.pure, Except.map, Prod.map, id]
        congr 2
        apply Heap.eq_without (h := h) hq <;> simp +contextual [Heap.setPage, Heap.without]

theorem slob_free_locked_page {r : Option Nat} (hcall : g.slob_free_locked h block size = .ok (r, h'))
    (hq : q ≠ g.virt_to_page block) : h'.page q = h.page q := by
  simp only [Geometry.slob_free_locked] at hcall
  split at hcall
  · cases hcall
    split <;> simp [Heap.clear_slob_page_free, Heap.setPage, update_of_ne hq]
  · split at hcall
    · cases hcall
      simp [Geometry.slob_free_first, Heap.set_slob_page_free, Heap.setPage, update_of_ne hq]
    · obtain ⟨r, -, hcall⟩ := checked.bind_eq_ok.mp hcall
      cases hcall
      simp [Heap.setPage, update_of_ne hq]

/-- It does not look at `mem_used`. -/
theorem slob_free_locked_used (used : Int) : g.slob_free_locked { h with mem_used := used } block size =
    (g.slob_free_locked h block size).map (Prod.map id fun h => { h with mem_used := used }) := by
  simp only [Geometry.slob_free_locked]
  split
  · simp only [pure, Except.pure, Except.map, Prod.map, id]
    congr 2
    split <;> rfl
  · split
    · rfl
    · cases g.slob_free_reinsert h.mem (h.page (g.virt_to_page block)).free block
        (g.slobidx (g.SLOB_UNITS size)) <;> rfl

end Masks

section Specs

variable {g : Geometry} {h h' : Heap} {live : List Block} {pfn size align : Nat}

/-- The order of the live blocks is no part of the invariant. -/
theorem Core.of_mem_iff (hc : Core g h live) {live' : List Block} (hmem : ∀ b, b ∈ live' ↔ b ∈ live)
    (hnodup : live'.Nodup) : Core g h live' := by
  have hunit : ∀ u, LiveUnit g live' u ↔ LiveUnit g live u := by
    intro u
    simp only [LiveUnit, covers, List.mem_map, hmem]
  refine .of_pages (fun q => ?_) ?_ hc.nodup
  · exact (hc.onPage q).frame rfl (fun _ => Iff.rfl) (fun b _ => hmem b) (fun u _ => hunit u) fun _ _ _ _ => rfl
  · apply hnodup.pairwise_of_forall_ne
    exact fun a ha b hb hne => hc.apart_of_ne ((hmem a).mp ha) ((hmem b).mp hb) hne

/-- The rest of the descriptor of a page the heap does not hold is no part of the invariant. -/
theorem Core.of_unheld (hc : Core g h live) (hunheld : (h.page pfn).slab = false) (hmem : h'.mem = h.mem)
    (hlist : h'.list = h.list) (hother : ∀ q, q ≠ pfn → h'.page q = h.page q)
    (hslab : (h'.page pfn).slab = false) (hflag : (h'.page pfn).slobFree = (h.page pfn).slobFree) :
    Core g h' live := by
  obtain ⟨hunlisted, hnotlive⟩ := hc.unheld_page hunheld
  refine .of_pages (fun q => ?_) hc.apart fun c => by rw [hlist]; exact hc.nodup c
  by_cases hqp : q = pfn
  · rw [hqp]
    exact .of_unheld hslab (hflag.trans (hc.unheld pfn hunheld)) (fun c => by rw [hlist]; exact hunlisted c) hnotlive
  · exact (hc.onPage q).frame (hother q hqp) (fun c => by rw [hlist]) (fun _ _ => Iff.rfl) (fun _ _ => Iff.rfl)
      fun _ u _ _ => by rw [hmem]

/-- What a section that carves a block leaves: the block is new, the heap is in order with it, and nothing
    that is in use has changed. -/
structure Served (g : Geometry) (h h' : Heap) (live : List Block) (b : Block) (page : Option Nat) : Prop where
  core : Core g h' (b :: live)
  untouched : Untouched g h h' live page
  slab : ∀ q, (h'.page q).slab = true ↔ (h.page q).slab = true ∨ page = some q
  page_eq : page ≠ none → page = some (g.virt_to_page b.addr)

/-- The first section of `slob_alloc`. -/
theorem Core.search (hc : Core g h live) (hpos : ∀ q, (h.page q).slab = true → 0 < q)
    (hreq : Request g size align) :
    g.slob_alloc_walk h size align (h.list (sizeClass size)) = .ok (none, h) ∨
      ∃ b h', g.slob_alloc_walk h size align (h.list (sizeClass size)) = .ok (some b, h') ∧
        Served g h h' live ⟨b, size, align⟩ none := by
  obtain ⟨hrun, -⟩ | ⟨pfn, hin, b, l, l', h₁, hcarved, hrun⟩ :=
    hc.slob_alloc_walk hreq (h.list (sizeClass size)) fun _ hq => hq
  · exact .inl hrun
  · have hheld := (hc.listed _ pfn hin).1
    have hcore := hcarved.core hc hin (hpos pfn hheld) hreq
    have hcarve := hcarved.untouched hheld
    refine .inr ⟨b, _, hrun, (hcore.of_counters _ _).rotate _ _, ⟨?_, ?_, ?_⟩, fun q => ?_, fun hne => absurd rfl hne⟩
    · intro u hu
      rw [Heap.rotate_mem]
      exact hcarve.mem u hu
    · intro u hu hpage
      rw [Heap.rotate_mem]
      exact hcarve.outside u hu hpage
    · intro q hq hpage
      rw [Heap.rotate_page]
      exact hcarve.slab q hq hpage
    · rw [Heap.rotate_page]
      simp [hcarved.rest.slab_eq]

/-- The second section of `slob_alloc`: its `BUG_ON` does not fire. -/
theorem Core.slob_alloc_fill (hc : Core g h live) (hunheld : (h.page pfn).slab = false) (hpfn : 0 < pfn)
    (hreq : Request g size align) (halign : align ≤ g.PAGE_SIZE) :
    ∃ b h', g.slob_alloc_fill h size align pfn = .ok (b, h') ∧
      Served g h h' live ⟨b, size, align⟩ (some pfn) := by
  obtain ⟨hcore', hcomp⟩ := hc.slob_alloc_setup hunheld size
  have hp : PageOk g (g.slob_alloc_setup h size pfn) pfn _ := slob_alloc_setup_pageOk
  obtain ⟨l', hwhole⟩ := listAlloc_whole hreq halign pfn
  have hspec := slob_page_alloc_spec hp (by simp) hreq
  rw [hwhole] at hspec
  obtain ⟨h₁, hcall, hp', hrest⟩ := hspec
  have hcarved : Carved g (g.slob_alloc_setup h size pfn) h₁ live pfn size align _ _ l' :=
    ⟨hp, hcomp, hwhole, hcall, hp', hrest⟩
  have hlisted : pfn ∈ (g.slob_alloc_setup h size pfn).list (sizeClass size) :=
    mem_slob_alloc_setup_list.mpr (.inr ⟨rfl, rfl⟩)
  refine ⟨pfn * g.pageUnits, h₁, ?_, ?_, ?_, fun q => ?_, fun _ => ?_⟩
  · rw [Geometry.slob_alloc_fill, hcall]
    rfl
  · exact hcarved.core hcore' hlisted hpfn hreq
  · exact (hc.slob_alloc_setup_untouched hunheld).trans (hcarved.untouched slob_alloc_setup_slab)
  · rw [hcarved.rest.slab_eq]
    by_cases hqp : q = pfn
    · subst hqp
      simp [slob_alloc_setup_slab]
    · rw [slob_alloc_setup_page hqp, Option.some_inj]
      exact (or_iff_left (Ne.symm hqp)).symm
  · rw [hcarved.page_eq hreq.pos]

/-- What the section of `slob_free` leaves when the page stays: another block is on it. -/
structure PutBack (g : Geometry) (h h' : Heap) (live : List Block) (b : Block) : Prop where
  core : Core g h' (live.filter fun a => a.addr ≠ b.addr)
  mem : ∀ u, LiveUnit g (live.filter fun a => a.addr ≠ b.addr) u → h'.mem u = h.mem u
  slab : ∀ q, (h'.page q).slab = (h.page q).slab
  more : ∃ a ∈ live, a ≠ b ∧ g.virt_to_page a.addr = g.virt_to_page b.addr

/-- What it leaves when the page goes: no other block was on it, and the heap is in order once the page is
    given up. -/
structure GivenUp (g : Geometry) (h h' : Heap) (live : List Block) (b : Block) : Prop where
  core : Core g ((h'.clear_slob_page (g.virt_to_page b.addr)).free_slob_page (g.virt_to_page b.addr))
    (live.filter fun a => a.addr ≠ b.addr)
  mem : h'.mem = h.mem
  slab : ∀ q, q ≠ g.virt_to_page b.addr → (h'.page q).slab = (h.page q).slab
  last : ∀ a ∈ live, g.virt_to_page a.addr = g.virt_to_page b.addr → a = b

theorem slob_free_locked_last {b : Nat} {l : List Interval} (hp : PageOk g h pfn l) (hr : Returnable g pfn l b size)
    (hfull : total l + g.SLOB_UNITS size = g.pageUnits) :
    ∃ h', g.slob_free_locked h b size = .ok (some pfn, h') ∧ h'.mem = h.mem := by
  have hcond : (h.page pfn).units + g.SLOB_UNITS size = g.pageUnits := by
    rw [hp.units]
    omega
  simp only [Geometry.slob_free_locked, hr.virt_to_page_eq, hr.slobidx_units, if_pos hcond]
  refine ⟨_, rfl, ?_⟩
  split <;> rfl

theorem slob_free_locked_other {b : Nat} {l : List Interval} {r : Option Nat} (hp : PageOk g h pfn l)
    (hr : Returnable g pfn l b size) (hmore : total l + g.SLOB_UNITS size ≠ g.pageUnits)
    (hcall : g.slob_free_locked h b size = .ok (r, h')) : r = none := by
  have hcond : ¬ (h.page pfn).units + g.SLOB_UNITS size = g.pageUnits := by
    rw [hp.units]
    omega
  simp only [Geometry.slob_free_locked, hr.virt_to_page_eq, hr.slobidx_units, if_neg hcond] at hcall
  split at hcall
  · exact (Prod.mk.inj (Except.ok.inj hcall)).1.symm
  · obtain ⟨_, -, hcall⟩ := checked.bind_eq_ok.mp hcall
    exact (Prod.mk.inj (Except.ok.inj hcall)).1.symm

/-- The section of `slob_free`: its loop ends. -/
theorem Core.slob_free_locked (hc : Core g h live) {b : Block} (hb : b ∈ live) :
    (∃ h', g.slob_free_locked h b.addr b.size = .ok (none, h') ∧ PutBack g h h' live b) ∨
      ∃ h', g.slob_free_locked h b.addr b.size = .ok (some (g.virt_to_page b.addr), h') ∧
        GivenUp g h h' live b := by
  obtain ⟨l, hp, hcomp⟩ := hc.pages _ (hc.blocks b hb).held
  have hr := hc.returnable hb hcomp
  have heq := slob_free_eq (h := h) hr.not_null hr.size_pos.ne'
  rw [slob_free_locked_used] at heq
  by_cases hfull : total l + g.SLOB_UNITS b.size = g.pageUnits
  · obtain ⟨h₂, hcall, hrel⟩ := slob_free_last hp hr hfull
    have hlast : ∀ a ∈ live, g.virt_to_page a.addr = g.virt_to_page b.addr → a = b :=
      fun a ha hpage => hc.last_on_page ha hb hp hcomp hfull hpage
    obtain ⟨h₁, hlocked, hmem⟩ := slob_free_locked_last hp hr hfull
    rw [hlocked, hcall] at heq
    have hsame : (h₁.clear_slob_page (g.virt_to_page b.addr)).free_slob_page (g.virt_to_page b.addr) =
        { h₂ with mem_used := h₁.mem_used, mem_claimed := h₂.mem_claimed } := by
      cases heq
      rfl
    refine .inr ⟨h₁, hlocked, ?_, hmem, fun q hq => ?_, hlast⟩
    · rw [hsame]
      exact (hc.release hb hlast hrel).of_counters _ _
    · rw [slob_free_locked_page hlocked hq]
  · obtain ⟨h₂, hcall, hp', hret⟩ := slob_free_other hp hr hfull
    have hmore := hc.other_on_page hb hp hcomp hfull
    rw [hcall] at heq
    obtain ⟨⟨page, h₁'⟩, hmap, hrest⟩ := checked.bind_eq_ok.mp heq.symm
    obtain ⟨⟨page', h₁⟩, hlocked, hfst⟩ := checked.map_eq_ok.mp hmap
    obtain rfl := slob_free_locked_other hp hr hfull hlocked
    obtain ⟨rfl, rfl⟩ := Prod.mk.inj hfst
    have hsame : h₁ = { h₂ with mem_used := h₁.mem_used, mem_claimed := h₂.mem_claimed } := by
      cases hrest
      rfl
    refine .inl ⟨h₁, hlocked, ?_, fun u hu => ?_, fun q => ?_, hmore⟩
    · rw [hsame]
      exact (hc.give_back hb hp hcomp hp' hret).of_counters _ _
    · rw [hsame]
      obtain ⟨hlive, hnot⟩ := (hc.liveUnit_filter hb u).mp hu
      exact hret.mem u hnot fun hfree => (hcomp u (hp.covers_page hfree)).mp hfree hlive
    · rw [hsame]
      by_cases hq : q = g.virt_to_page b.addr
      · rw [hq]
        exact hret.slab
      · exact congrArg slob_page.slab (hret.other q hq)

end Specs

end cs444.slob
