import Cs444.Slob.Smp

open interval owners

open Function

namespace cs444.slob.smp

variable {T : Type} {t : T} {b : Block} {live held : List Block} {blocks : T → Option Block}

theorem Owned.not_held (h : Owned live held blocks) (hb : blocks t = some b) : b ∉ held :=
  fun hheld => h.apart b hheld ⟨t, hb⟩

variable [DecidableEq T]

section Hands

variable (h : Owned live held blocks)

include h

/-- A new block is in the hands of the thread that carved it. -/
theorem Owned.carve (hnone : blocks t = none) (hfresh : b ∉ live) :
    Owned (b :: live) held (update blocks t (some b)) := by
  refine ⟨h.exclusive.take fun hb => hfresh ((h.live b).mpr (.inr hb)), fun a => ?_, fun a ha => ?_, h.nodup⟩
  · rw [held_take hnone, List.mem_cons, h.live a]
    tauto
  · rw [held_take hnone, not_or]
    refine ⟨?_, h.apart a ha⟩
    rintro rfl
    exact hfresh ((h.live a).mpr (.inl ha))

/-- `slob_alloc` returns the block to its caller. -/
theorem Owned.hand_over (hb : blocks t = some b) : Owned live (b :: held) (update blocks t none) := by
  have hnot := h.not_held hb
  have hnow : ∀ a, Held (update blocks t none) a ↔ Held blocks a ∧ a ≠ b := fun a => held_drop h.exclusive hb
  refine ⟨h.exclusive.drop, fun a => ?_, fun a ha hheld => ?_, List.nodup_cons.mpr ⟨hnot, h.nodup⟩⟩
  · rw [h.live a, List.mem_cons, hnow a]
    by_cases hab : a = b
    · subst hab
      simp [hnot, Held, ← hb]
    · simp [hab]
  · obtain ⟨hheld, hne⟩ := (hnow a).mp hheld
    exact h.apart a ((List.mem_cons.mp ha).resolve_left hne) hheld

/-- A caller passes a block to `slob_free`. -/
theorem Owned.take_back (hnone : blocks t = none) (hb : b ∈ held) :
    Owned live (held.erase b) (update blocks t (some b)) := by
  have hnow : ∀ a, Held (update blocks t (some b)) a ↔ a = b ∨ Held blocks a := fun a => held_take hnone
  refine ⟨h.exclusive.take (h.apart b hb), fun a => ?_, fun a ha hheld => ?_, h.nodup.erase b⟩
  · rw [h.live a, h.nodup.mem_erase_iff, hnow a]
    by_cases hab : a = b
    · subst hab
      simp [hb]
    · simp [hab]
  · obtain ⟨hne, ha⟩ := h.nodup.mem_erase_iff.mp ha
    exact h.apart a ha (((hnow a).mp hheld).resolve_left hne)

/-- The block leaves the hands of the thread and is live no more. -/
theorem Owned.put_back (hb : blocks t = some b) (haddr : ∀ a ∈ live, a.addr = b.addr → a = b) :
    Owned (live.filter fun a => a.addr ≠ b.addr) held (update blocks t none) := by
  have hnow : ∀ a, Held (update blocks t none) a ↔ Held blocks a ∧ a ≠ b := fun a => held_drop h.exclusive hb
  refine ⟨h.exclusive.drop, fun a => ?_, fun a ha hheld => h.apart a ha ((hnow a).mp hheld).1, h.nodup⟩
  rw [hnow a, List.mem_filter, decide_eq_true_eq, h.live a]
  constructor
  · rintro ⟨hheld | hheld, hne⟩
    · exact .inl hheld
    · exact .inr ⟨hheld, fun hab => hne (by rw [hab])⟩
  · rintro (hheld | ⟨hheld, hne⟩)
    · refine ⟨.inl hheld, fun heq => h.not_held hb ?_⟩
      rwa [← haddr a ((h.live a).mpr (.inl hheld)) heq]
    · exact ⟨.inr hheld, fun heq => hne (haddr a ((h.live a).mpr (.inr hheld)) heq)⟩

end Hands

section Updates

variable {g : Geometry} {s s' : Machine T} {ph ph₀ : Phase} {h' : Heap} {used' : Nat → Bool}
  {live' held' : List Block} {pfn : Nat}

/-- The other threads go on as before when their pages are left alone. -/
theorem Inv.phases_update (hi : Inv g s) (hok : ph.Ok g h')
    (hsame : ∀ t' q, t' ≠ t → s.pages t' = some q → h'.page q = s.heap.page q) (t' : T) :
    (update s.pc t ph t').Ok g h' := by
  by_cases htt : t' = t
  · rw [htt, update_self]
    exact hok
  · rw [update_of_ne htt]
    exact (hi.phases t').frame fun q hq => hsame t' q htt hq

/-- The invariant of the state a thread leaves, in terms of what the thread now has in its hands. -/
theorem Inv.of_update (core : Core g (h'.without (Held (update s.pages t ph.page))) live')
    (occupied : ∀ q, ((h'.without (Held (update s.pages t ph.page))).page q).slab = true →
      ∃ b ∈ live', g.virt_to_page b.addr = q)
    (returned : ∀ q, used' q = false → (h'.page q).slab = false ∧ ¬ Held (update s.pages t ph.page) q)
    (phases : ∀ t', (update s.pc t ph t').Ok g h') (pages : Exclusive (update s.pages t ph.page))
    (owned : Owned live' held' (update s.blocks t ph.block)) :
    Inv g ⟨h', used', live', held', update s.pc t ph⟩ := by
  have hpages : Phase.page ∘ update s.pc t ph = update s.pages t ph.page := comp_update ..
  have hblocks : Phase.block ∘ update s.pc t ph = update s.blocks t ph.block := comp_update ..
  rw [← hpages] at core occupied returned pages
  rw [← hblocks] at owned
  exact ⟨core, occupied, returned, phases, pages, owned⟩

theorem pages_update (hpc : s.pc t = ph₀) (hpage : ph.page = ph₀.page) : update s.pages t ph.page = s.pages := by
  rw [hpage, ← pages_eq hpc, update_eq_self]

theorem blocks_update (hpc : s.pc t = ph₀) (hblock : ph.block = ph₀.block) :
    update s.blocks t ph.block = s.blocks := by
  rw [hblock, ← blocks_eq hpc, update_eq_self]

/-- A step that leaves in the thread's hands what it had there, and touches no page but the one it has. -/
theorem Inv.stay (hi : Inv g s) (hpc : s.pc t = ph₀) (hpage : ph.page = ph₀.page) (hblock : ph.block = ph₀.block)
    (hcore : Core g (h'.without (Held s.pages)) s.live)
    (hsame : ∀ q, s.pages t ≠ some q → h'.page q = s.heap.page q) (hok : ph.Ok g h') :
    Inv g { s with heap := h', pc := update s.pc t ph } := by
  have hpages := pages_update hpc hpage
  apply Inv.of_update
  · rw [hpages]
    exact hcore
  · intro q hq
    rw [hpages] at hq
    have hout := Heap.not_out_of_slab hq
    apply hi.occupied q
    rwa [Heap.without_page hout, hsame q fun ht => hout ⟨t, ht⟩, ← Heap.without_page hout] at hq
  · intro q hq
    obtain ⟨hslab, hout⟩ := hi.returned q hq
    rw [hpages, hsame q fun ht => hout ⟨t, ht⟩]
    exact ⟨hslab, hout⟩
  · apply hi.phases_update hok
    intro t' q htt hq
    exact hsame q fun ht => htt (hi.pages _ _ _ hq ht)
  · rw [hpages]
    exact hi.pages
  · rw [blocks_update hpc hblock]
    exact hi.owned

/-- In particular one that leaves the heap alone, the counters apart. -/
theorem Inv.stay_counters (hi : Inv g s) (hpc : s.pc t = ph₀) (hpage : ph.page = ph₀.page)
    (hblock : ph.block = ph₀.block) (used claimed : Int)
    (hok : ph.Ok g { s.heap with mem_used := used, mem_claimed := claimed }) :
    Next g s { s with
      heap := { s.heap with mem_used := used, mem_claimed := claimed }, pc := update s.pc t ph } where
  inv := hi.stay hpc hpage hblock (hi.core.of_counters used claimed) (fun _ _ => rfl) hok
  mem _ _ := rfl
  held _ hb := hb

/-- And one that changes the page in the thread's hands behind the mask. -/
theorem Inv.stay_page (hi : Inv g s) {sp : slob_page} (hpc : s.pc t = ph₀) (hhas : ph₀.page = some pfn)
    (hpage : ph.page = some pfn) (hblock : ph.block = ph₀.block) (hfree : sp.free = (s.heap.page pfn).free)
    (hflag : sp.slobFree = (s.heap.page pfn).slobFree) (hok : ph.Ok g (s.heap.setPage pfn sp)) :
    Next g s { s with heap := s.heap.setPage pfn sp, pc := update s.pc t ph } where
  inv := by
    have hhand : s.pages t = some pfn := (pages_eq hpc).trans hhas
    apply hi.stay hpc (hpage.trans hhas.symm) hblock
    · rw [Heap.without_setPage_of_out ⟨t, hhand⟩ hfree hflag]
      exact hi.core
    · intro q hq
      have hqp : q ≠ pfn := fun hqp => hq (hqp ▸ hhand)
      simp [Heap.setPage, update_of_ne hqp]
    · exact hok
  mem _ _ := rfl
  held _ hb := hb

end Updates

section Steps

variable {g : Geometry} {s : Machine T} {ph : Phase} {h' : Heap} {pfn : Nat} {pg : Option Nat}

/-- A block just carved is in nobody's hands yet. -/
theorem Inv.fresh {h : Heap} (hc : Core g h (b :: live)) : b ∉ live := by
  intro hb
  have hap := (List.pairwise_cons.mp hc.apart).1 b hb
  have hunits := g.SLOB_UNITS_pos (hc.blocks b List.mem_cons_self).size_pos
  rw [Block.Apart] at hap
  omega

/-- A step that carves a block. The page in the thread's hands, if any, is then in order. -/
theorem Inv.served (hi : Inv g s) (hblock : s.blocks t = none)
    (hserved : Served g s.settled (h'.without (Held (update s.pages t none))) s.live b (s.pages t))
    (hsame : ∀ q, Held s.pages q → s.pages t ≠ some q → h'.page q = s.heap.page q)
    (hpage : ph.page = none) (hnow : ph.block = some b) (hok : ph.Ok g h') :
    Next g s { s with heap := h', live := b :: s.live, pc := update s.pc t ph } where
  inv := by
    have hsub : ∀ q, Held (update s.pages t none) q → Held s.pages q := by
      intro q hq
      obtain hq | ⟨t', -, ht'⟩ := held_update.mp hq
      · cases hq
      · exact ⟨t', ht'⟩
    apply Inv.of_update
    · rw [hpage]
      exact hserved.core
    · intro q hq
      rw [hpage] at hq
      obtain hold | hnew := (hserved.slab q).mp hq
      · obtain ⟨a, ha, hpa⟩ := hi.occupied q hold
        exact ⟨a, List.mem_cons_of_mem _ ha, hpa⟩
      · have heq := hserved.page_eq (by rw [hnew]; exact Option.some_ne_none q)
        exact ⟨b, List.mem_cons_self, (Option.some_inj.mp (hnew.symm.trans heq)).symm⟩
    · intro q hq
      rw [hpage]
      have hout := (hi.returned q hq).2
      have hout' := fun hq => hout (hsub q hq)
      refine ⟨?_, hout'⟩
      rw [← Heap.without_page hout', ← Bool.not_eq_true, hserved.slab q, not_or, Bool.not_eq_true]
      exact ⟨hi.settled_returned hq, fun ht => hout ⟨t, ht⟩⟩
    · apply hi.phases_update hok
      intro t' q htt hq
      exact hsame q ⟨t', hq⟩ fun ht => htt (hi.pages _ _ _ hq ht)
    · rw [hpage]
      exact hi.pages.drop
    · rw [hnow]
      exact hi.owned.carve hblock (Inv.fresh hserved.core)
  mem u hu := hserved.untouched.mem u (hi.liveUnit_held hu)
  held _ hb := hb

/-- The first section under the lock. -/
theorem Inv.search (hi : Inv g s) {a : Args} (hpc : s.pc t = .search a) :
    ∃ s', s.advance g t pg = .ok s' ∧ Next g s s' := by
  obtain ⟨hreq, halign⟩ := hi.ok hpc
  have hpages : s.pages t = none := pages_eq hpc
  have hlisted : ∀ q ∈ s.heap.list (sizeClass a.size), ¬ Held s.pages q := fun q hq => hi.not_held_of_listed hq
  have hwalk := slob_alloc_walk_without (g := g) (h := s.heap) a.size a.align hlisted
  simp only [Machine.advance, hpc]
  obtain hnone | ⟨addr, hv, hfound, hserved⟩ := hi.core.search (fun q hq => hi.pos_of_slab hq) hreq
  · obtain ⟨⟨r, h₁⟩, hcall, heq⟩ := checked.map_eq_ok.mp (hwalk.symm.trans hnone)
    obtain ⟨rfl, hmask⟩ := Prod.mk.inj heq
    obtain rfl : h₁ = s.heap := Heap.eq_of_without hmask fun q hq =>
      slob_alloc_walk_page hcall fun hin => hlisted q hin hq
    rw [hcall]
    exact ⟨_, rfl, hi.stay_counters hpc (by rfl) (by rfl) _ _ ⟨hreq, halign⟩⟩
  · obtain ⟨⟨r, h₁⟩, hcall, heq⟩ := checked.map_eq_ok.mp (hwalk.symm.trans hfound)
    obtain ⟨rfl, rfl⟩ := Prod.mk.inj heq
    rw [hcall]
    refine ⟨_, rfl, hi.served (blocks_eq hpc) ?_ ?_ rfl rfl trivial⟩
    · rw [hpages, ← hpages, update_eq_self, hpages]
      exact hserved
    · intro q hq _
      exact slob_alloc_walk_page hcall fun hin => hlisted q hin hq

/-- The second one. -/
theorem Inv.fill (hi : Inv g s) {a : Args} (hpc : s.pc t = .fill a pfn) :
    ∃ s', s.advance g t pg = .ok s' ∧ Next g s s' := by
  obtain ⟨hreq, halign, hpos⟩ := hi.ok hpc
  have hpages : s.pages t = some pfn := pages_eq hpc
  have hunheld : (s.settled.page pfn).slab = false := by
    rw [Machine.settled, Heap.without_page_of_out ⟨t, hpages⟩]
  obtain ⟨addr, hv, hcall, hserved⟩ := hi.core.slob_alloc_fill hunheld hpos hreq halign
  have hout : ∀ q, Held (update s.pages t none) q ↔ Held s.pages q ∧ q ≠ pfn :=
    fun q => held_drop hi.pages hpages
  have hfill := slob_alloc_fill_without (g := g) (h := s.heap) a.size a.align hout
  obtain ⟨⟨r, h₁⟩, hcall₁, heq⟩ := checked.map_eq_ok.mp (hfill.symm.trans hcall)
  obtain ⟨rfl, rfl⟩ := Prod.mk.inj heq
  simp only [Machine.advance, hpc]
  rw [hcall₁]
  refine ⟨_, rfl, hi.served (blocks_eq hpc) ?_ ?_ rfl rfl trivial⟩
  · rw [hpages]
    exact hserved
  · intro q _ hq
    exact slob_alloc_fill_page hcall₁ fun hqp => hq (by rw [hpages, hqp])

/-- The page allocator hands out a page that is not in use. It is masked before, since nobody has it, and
    after, since the thread has it. -/
theorem Inv.new_page (hi : Inv g s) {a : Args} (hpc : s.pc t = .new_pages a) (hpos : 0 < pfn)
    (hunused : s.used pfn = false) :
    Inv g { s with used := update s.used pfn true, pc := update s.pc t (.set_slob_page a pfn) } := by
  obtain ⟨hreq, halign⟩ := hi.ok hpc
  obtain ⟨-, hfree⟩ := hi.returned pfn hunused
  have hnow : ∀ q, Held (update s.pages t (some pfn)) q ↔ q = pfn ∨ Held s.pages q :=
    fun q => held_take (pages_eq hpc)
  have hmasked : ∀ q, q ≠ pfn → (s.heap.without (Held (update s.pages t (some pfn)))).page q =
      s.settled.page q := by
    intro q hq
    by_cases hout : Held s.pages q
    · rw [Machine.settled, Heap.without_page_of_out hout, Heap.without_page_of_out ((hnow q).mpr (.inr hout))]
    · rw [Machine.settled, Heap.without_page hout,
        Heap.without_page fun hq' => ((hnow q).mp hq').elim hq hout]
  have hflag : ((s.heap.without (Held (update s.pages t (some pfn)))).page pfn).slobFree =
      (s.settled.page pfn).slobFree := by
    rw [Machine.settled, Heap.without_page hfree, Heap.without_page_of_out ((hnow pfn).mpr (.inl rfl))]
  have hunheld : ((s.heap.without (Held (update s.pages t (some pfn)))).page pfn).slab = false := by
    rw [Heap.without_page_of_out ((hnow pfn).mpr (.inl rfl))]
  apply Inv.of_update
  · exact hi.core.of_unheld (hi.settled_returned hunused) rfl rfl hmasked hunheld hflag
  · intro q hq
    by_cases hqp : q = pfn
    · rw [hqp] at hq
      exact absurd ⟨t, update_self ..⟩ (Heap.not_out_of_slab hq)
    · apply hi.occupied q
      rw [← hmasked q hqp]
      exact hq
  · intro q hq
    have hqp : q ≠ pfn := by
      rintro rfl
      rw [update_self] at hq
      cases hq
    rw [update_of_ne hqp] at hq
    obtain ⟨hslab', hout⟩ := hi.returned q hq
    exact ⟨hslab', fun hq' => ((hnow q).mp hq').elim hqp hout⟩
  · exact hi.phases_update ⟨hreq, halign, hpos⟩ fun _ _ _ _ => rfl
  · exact hi.pages.take hfree
  · rw [blocks_update hpc (by rfl)]
    exact hi.owned

theorem Inv.new_pages (hi : Inv g s) {a : Args} (hpc : s.pc t = .new_pages a)
    (hpg : ∀ pfn, pg = some pfn → 0 < pfn ∧ s.used pfn = false) :
    ∃ s', s.advance g t pg = .ok s' ∧ Next g s s' := by
  simp only [Machine.advance, hpc]
  cases pg with
  | none => exact ⟨_, rfl, hi.stay_counters hpc (by rfl) (by rfl) _ _ trivial⟩
  | some pfn =>
    obtain ⟨hpos, hunused⟩ := hpg pfn rfl
    exact ⟨_, rfl, hi.new_page hpc hpos hunused, fun _ _ => rfl, fun _ hb => hb⟩

/-- The page is back at the page allocator. -/
theorem Inv.free_pages (hi : Inv g s) (hpc : s.pc t = .free_pages pfn) :
    ∃ s', s.advance g t pg = .ok s' ∧ Next g s s' := by
  obtain ⟨hslab, hunits⟩ := hi.ok hpc
  have hnow : ∀ q, Held (update s.pages t none) q ↔ Held s.pages q ∧ q ≠ pfn :=
    fun q => held_drop hi.pages (pages_eq hpc)
  -- the flags are by now what the mask showed
  have hmasked : s.heap.without (Held (update s.pages t none)) = s.settled := by
    refine Heap.eq_of_fields rfl (fun q => ?_) rfl rfl rfl
    by_cases hout : Held s.pages q
    · rw [Machine.settled, Heap.without_page_of_out hout]
      by_cases hqp : q = pfn
      · rw [Heap.without_page fun hq => ((hnow q).mp hq).2 hqp, hqp, ← hslab, ← hunits]
      · rw [Heap.without_page_of_out ((hnow q).mpr ⟨hout, hqp⟩)]
    · rw [Machine.settled, Heap.without_page hout, Heap.without_page fun hq => hout ((hnow q).mp hq).1]
  simp only [Machine.advance, hpc]
  refine ⟨_, rfl, ?_, fun _ _ => rfl, fun _ hb => hb⟩
  apply Inv.of_update
  · exact hmasked.symm ▸ hi.core
  · exact hmasked.symm ▸ hi.occupied
  · intro q hq
    by_cases hqp : q = pfn
    · rw [hqp]
      exact ⟨hslab, fun hq => ((hnow pfn).mp hq).2 rfl⟩
    · rw [update_of_ne hqp] at hq
      obtain ⟨hslab', hout⟩ := hi.returned q hq
      exact ⟨hslab', fun hq' => hout ((hnow q).mp hq').1⟩
  · exact hi.phases_update trivial fun _ _ _ _ => rfl
  · exact hi.pages.drop
  · rw [blocks_update hpc (by rfl)]
    exact hi.owned

/-- The block is zeroed if that was asked for, and goes to the caller. -/
theorem Inv.memset (hi : Inv g s) {zero : Bool} (hpc : s.pc t = .memset b zero) :
    ∃ s', s.advance g t pg = .ok s' ∧ Next g s s' := by
  have hblocks : s.blocks t = some b := blocks_eq hpc
  have hlive := hi.block_live hblocks
  have hsame : update s.pages t Phase.idle.page = s.pages := pages_update hpc rfl
  have hframe : ∀ u, ¬ (b.extent g).Covers u →
      (g.slob_alloc_zero s.heap b.addr b.size zero).mem u = s.heap.mem u := by
    intro u hu
    cases zero with
    | false => rfl
    | true => exact memset_frame hu
  have hpage : (g.slob_alloc_zero s.heap b.addr b.size zero).page = s.heap.page := Geometry.slob_alloc_zero_page ..
  simp only [Machine.advance, hpc]
  refine ⟨_, rfl, ?_, fun u hu => hframe u ?_, fun a ha => List.mem_cons_of_mem _ ha⟩
  · apply Inv.of_update
    · have hmem : Core g { s.settled with mem := (g.slob_alloc_zero s.heap b.addr b.size zero).mem } s.live :=
        hi.core.of_mem fun u _ hu => hframe u fun hcov => hu (liveUnit_of_mem hlive hcov)
      cases zero <;> exact hsame.symm ▸ hmem
    · intro q hq
      have hout := Heap.not_out_of_slab hq
      rw [Heap.without_page hout, hpage] at hq
      have hout' : ¬ Held s.pages q := hsame ▸ hout
      apply hi.occupied q
      rw [Machine.settled, Heap.without_page hout']
      exact hq
    · intro q hq
      rw [hpage, hsame]
      exact hi.returned q hq
    · exact hi.phases_update trivial fun _ _ _ _ => by rw [hpage]
    · exact hsame.symm ▸ hi.pages
    · exact hi.owned.hand_over hblocks
  · rintro hcov
    obtain ⟨x, hx, hxu⟩ := hu
    obtain ⟨a, ha, rfl⟩ := List.mem_map.mp hx
    have hap := hi.core.apart_of_ne (hi.held_live ha) hlive fun hab => hi.owned.not_held hblocks (hab ▸ ha)
    simp only [Block.Apart, Interval.Covers, Block.extent] at hap hxu hcov
    omega

end Steps

section Free

variable {g : Geometry} {s : Machine T} {h' : Heap} {pfn : Nat} {pg : Option Nat}

theorem Inv.put_back (hi : Inv g s) (hblocks : s.blocks t = some b) :
    Owned (s.live.filter fun a => a.addr ≠ b.addr) s.held (update s.blocks t none) :=
  hi.owned.put_back hblocks fun _ ha => hi.core.eq_of_addr ha (hi.block_live hblocks)

/-- What the callers have is live without the block. -/
theorem Inv.liveUnit_filter (hi : Inv g s) (hblocks : s.blocks t = some b) {u : Nat} (hu : LiveUnit g s.held u) :
    LiveUnit g (s.live.filter fun a => a.addr ≠ b.addr) u := by
  obtain ⟨x, hx, hcov⟩ := hu
  obtain ⟨a, ha, rfl⟩ := List.mem_map.mp hx
  exact liveUnit_of_mem (((hi.put_back hblocks).live a).mpr (.inl ha)) hcov

/-- The section of `slob_free` under the lock. -/
theorem Inv.give_back (hi : Inv g s) (hpc : s.pc t = .give_back b) :
    ∃ s', s.advance g t pg = .ok s' ∧ Next g s s' := by
  have hblocks : s.blocks t = some b := blocks_eq hpc
  have hlive := hi.block_live hblocks
  have hq := hi.not_held_of_live hlive
  have hlocked := slob_free_locked_without (g := g) (h := s.heap) b.size hq
  simp only [Machine.advance, hpc]
  obtain ⟨hv, hcall, hput⟩ | ⟨hv, hcall, hgiven⟩ := hi.core.slob_free_locked hlive
  · -- other blocks are left in the page
    obtain ⟨⟨r, h₁⟩, hcall₁, heq⟩ := checked.map_eq_ok.mp (hlocked.symm.trans hcall)
    obtain ⟨rfl, rfl⟩ := Prod.mk.inj heq
    have hsame : update s.pages t Phase.idle.page = s.pages := pages_update hpc rfl
    rw [hcall₁]
    refine ⟨_, rfl, ?_, fun u hu => hput.mem u (hi.liveUnit_filter hblocks hu), fun _ hb => hb⟩
    apply Inv.of_update
    · exact hsame.symm ▸ hput.core
    · intro q hslab
      rw [hsame, hput.slab] at hslab
      by_cases hqp : q = g.virt_to_page b.addr
      · obtain ⟨a, ha, hne, hpa⟩ := hput.more
        refine ⟨a, List.mem_filter.mpr ⟨ha, ?_⟩, hpa.trans hqp.symm⟩
        rw [decide_eq_true_eq]
        exact fun haddr => hne (hi.core.eq_of_addr ha hlive haddr)
      · exact hi.still_occupied hslab hqp
    · intro q hused
      have hout := (hi.returned q hused).2
      have hslab := hput.slab q
      rw [Heap.without_page hout, hi.settled_returned hused] at hslab
      exact ⟨hslab, hsame.symm ▸ hout⟩
    · exact hi.phases_update trivial fun t' q _ ht' => slob_free_locked_page hcall₁ fun hqp => hq ⟨t', hqp ▸ ht'⟩
    · exact hsame.symm ▸ hi.pages
    · exact hi.put_back hblocks
  · -- it was the last one, and the page is now in the thread's hands
    obtain ⟨⟨r, h₁⟩, hcall₁, heq⟩ := checked.map_eq_ok.mp (hlocked.symm.trans hcall)
    obtain ⟨rfl, rfl⟩ := Prod.mk.inj heq
    have hnow : ∀ q, Held (update s.pages t (some (g.virt_to_page b.addr))) q ↔
        q = g.virt_to_page b.addr ∨ Held s.pages q := fun q => held_take (pages_eq hpc)
    have hmasked := Heap.without_release (h := h₁) hnow hq
    rw [hcall₁]
    refine ⟨_, rfl, ?_, fun u _ => congrFun hgiven.mem u, fun _ hb => hb⟩
    apply Inv.of_update
    · exact hmasked ▸ hgiven.core
    · intro q hslab
      have hout := Heap.not_out_of_slab hslab
      have hqp : q ≠ g.virt_to_page b.addr := fun hqp => hout ((hnow q).mpr (.inl hqp))
      have hout' : ¬ Held s.pages q := fun hq' => hout ((hnow q).mpr (.inr hq'))
      refine hi.still_occupied ?_ hqp
      rw [← hgiven.slab q hqp, Heap.without_page hout']
      rwa [Heap.without_page hout] at hslab
    · intro q hused
      have hout := (hi.returned q hused).2
      have hqp : q ≠ g.virt_to_page b.addr := by
        rintro rfl
        have hheld := (hi.core.blocks b hlive).held
        rw [hi.settled_returned hused] at hheld
        cases hheld
      have hslab := hgiven.slab q hqp
      rw [Heap.without_page hout, hi.settled_returned hused] at hslab
      exact ⟨hslab, fun hq' => ((hnow q).mp hq').elim hqp hout⟩
    · exact hi.phases_update trivial fun t' q _ ht' => slob_free_locked_page hcall₁ fun hqp => hq ⟨t', hqp ▸ ht'⟩
    · exact hi.pages.take hq
    · exact hi.put_back hblocks

/-- A caller passes a block to `slob_free`. -/
theorem Inv.slob_free (hi : Inv g s) (hpc : s.pc t = .idle) (hb : b ∈ s.held) :
    ∃ s', step g s (.slob_free t b) = .ok s' ∧ Inv g s' ∧ s'.heap = s.heap ∧ s'.held = s.held.erase b := by
  have hlive := hi.held_live hb
  obtain ⟨l, -, hcomp⟩ := hi.core.pages _ (hi.core.blocks b hlive).held
  have hr := hi.core.returnable hlive hcomp
  have hsame : update s.pages t (Phase.load_used b).page = s.pages := pages_update hpc rfl
  rw [step, if_neg hr.not_null, if_neg hr.size_pos.ne']
  refine ⟨_, rfl, ?_, rfl, rfl⟩
  apply Inv.of_update
  · exact hsame.symm ▸ hi.core
  · exact hsame.symm ▸ hi.occupied
  · exact hsame.symm ▸ hi.returned
  · exact hi.phases_update trivial fun _ _ _ _ => rfl
  · exact hsame.symm ▸ hi.pages
  · exact hi.owned.take_back (blocks_eq hpc) hb

end Free

section Moves

variable {g : Geometry} {s : Machine T} {pg : Option Nat}

/-- Every step of a thread goes through. -/
theorem Inv.advance (hi : Inv g s) (hpg : ∀ pfn, pg = some pfn → 0 < pfn ∧ s.used pfn = false) :
    ∃ s', s.advance g t pg = .ok s' ∧ Next g s s' := by
  cases hpc : s.pc t with
  | idle =>
    refine ⟨s, ?_, hi, fun _ _ => rfl, fun _ hb => hb⟩
    rw [Machine.advance, hpc]
  | search a => exact hi.search hpc
  | new_pages a => exact hi.new_pages hpc hpg
  | set_slob_page a pfn =>
    simp only [Machine.advance, hpc]
    exact ⟨_, rfl, hi.stay_page hpc rfl rfl rfl rfl rfl (hi.ok hpc)⟩
  | fill a pfn => exact hi.fill hpc
  | load_claimed _ _ | store_claimed _ _ _ | load_used _ | store_used _ _ =>
    simp only [Machine.advance, hpc]
    exact ⟨_, rfl, hi.stay_counters hpc (by rfl) (by rfl) _ _ trivial⟩
  | memset b zero => exact hi.memset hpc
  | give_back b => exact hi.give_back hpc
  | clear_slob_page pfn =>
    simp only [Machine.advance, hpc]
    refine ⟨_, rfl, hi.stay_page hpc rfl rfl rfl rfl rfl ?_⟩
    simp [Phase.Ok, Heap.setPage]
  | free_slob_page pfn =>
    simp only [Machine.advance, hpc]
    refine ⟨_, rfl, hi.stay_page hpc rfl rfl rfl rfl rfl ?_⟩
    simpa [Phase.Ok, Heap.setPage] using hi.ok hpc
  | free_pages pfn => exact hi.free_pages hpc

theorem Inv.slob_alloc (hi : Inv g s) {a : Args} (hpc : s.pc t = .idle) (hreq : Request g a.size a.align)
    (halign : a.align ≤ g.PAGE_SIZE) : Next g s { s with pc := update s.pc t (.search a) } :=
  hi.stay_counters hpc (by rfl) (by rfl) s.heap.mem_used s.heap.mem_claimed ⟨hreq, halign⟩

/-- Every valid move goes through and keeps the invariant. -/
theorem Inv.step_ok (hi : Inv g s) {m : Move T} (hv : m.Valid g s) : ∃ s', step g s m = .ok s' ∧ Inv g s' := by
  cases m with
  | slob_alloc t a => exact ⟨_, rfl, (hi.slob_alloc hv.1 hv.2.1 hv.2.2).inv⟩
  | slob_free t b =>
    obtain ⟨s', hstep, hi', -, -⟩ := hi.slob_free hv.1 hv.2
    exact ⟨s', hstep, hi'⟩
  | go t page =>
    obtain ⟨s', hstep, hnext⟩ := hi.advance hv
    exact ⟨s', hstep, hnext.inv⟩
  | store u value => exact ⟨_, rfl, hi.store hv⟩

end Moves

end cs444.slob.smp
