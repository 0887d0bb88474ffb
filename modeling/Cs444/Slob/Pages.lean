import Cs444.Slob.Counters
import Mathlib.Data.Set.Card

open interval

namespace cs444.slob

variable {g : Geometry} {s s' : State} {c : Call} {cs : List Call}

/-- The pages the allocator holds. -/
def Heap.held (h : Heap) : Set Nat :=
  {pfn | (h.page pfn).slab = true}

/-- A page is held while a block of it is live. -/
theorem Inv.mem_held_iff (hi : Inv g s) {pfn : Nat} :
    pfn ∈ s.heap.held ↔ ∃ b ∈ s.live, g.virt_to_page b.addr = pfn := by
  refine ⟨hi.occupied pfn, ?_⟩
  rintro ⟨b, hb, rfl⟩
  exact (hi.core.blocks b hb).held

theorem Inv.held_finite (hi : Inv g s) : s.heap.held.Finite := by
  refine (s.live.map fun b => g.virt_to_page b.addr).toFinset.finite_toSet.subset fun pfn hpfn => ?_
  obtain ⟨b, hb, rfl⟩ := hi.mem_held_iff.mp hpfn
  simpa using ⟨b, hb, rfl⟩

section Claimed

theorem CarvedFrom.held {h h' : Heap} {pfn : Nat} {l l' : List Interval} (hcarve : CarvedFrom h h' pfn l l') :
    h'.held = h.held := by
  ext q
  simp only [Heap.held, Set.mem_ofPred_eq, hcarve.slab_eq]

theorem ReturnedTo.held {h h' : Heap} {pfn size : Nat} {l : List Interval} {x : Interval}
    (hret : ReturnedTo h h' pfn l x size) : h'.held = h.held := by
  ext q
  by_cases hq : q = pfn
  · simp only [Heap.held, Set.mem_ofPred_eq, hq, hret.slab]
  · simp only [Heap.held, Set.mem_ofPred_eq, hret.other q hq]

theorem Released.held {h h' : Heap} {pfn size : Nat} (hrel : Released g h h' pfn size) :
    h'.held = h.held \ {pfn} := by
  ext q
  by_cases hq : q = pfn
  · simp [Heap.held, hq, hrel.slab]
  · simp [Heap.held, hq, hrel.other q hq]

theorem slob_alloc_setup_held {h : Heap} {size pfn : Nat} :
    (g.slob_alloc_setup h size pfn).held = insert pfn h.held := by
  ext q
  by_cases hq : q = pfn
  · simp [Heap.held, hq, slob_alloc_setup_slab]
  · simp [Heap.held, hq, slob_alloc_setup_page hq]

theorem slob_alloc_setup_mem_claimed {h : Heap} {size pfn : Nat} :
    (g.slob_alloc_setup h size pfn).mem_claimed = h.mem_claimed := rfl

/-- The bytes of the held pages, in the 32 bits of the counter. -/
def Claimed (g : Geometry) (s : State) : Prop :=
  s.heap.mem_claimed = toInt (g.PAGE_SIZE * s.heap.held.ncard)

theorem Inv.claimed_step (hi : Inv g s) (hv : c.Valid g s) (hstep : step g s c = .ok s') (hclaimed : Claimed g s) :
    Claimed g s' := by
  rw [Claimed] at hclaimed ⊢
  cases c with
  | slob_alloc size align zero page =>
    obtain ⟨-, hout⟩ := hi.alloc_outcome hv
    obtain ⟨-, -, -, -, hpage⟩ := hv
    generalize hr : g.slob_alloc s.heap size align zero page = r at hout
    rw [step, hr] at hstep
    cases hout with
    | refused hnone =>
      cases hstep
      exact hclaimed
    | listed hlisted hcarved =>
      cases hstep
      have hheld := hcarved.rest.held
      simp only [Heap.held, Geometry.slob_alloc_zero_page, Geometry.slob_alloc_zero_mem_claimed, Heap.rotate_page,
        Heap.rotate_mem_claimed, hcarved.rest.claimed] at hheld ⊢
      rw [hheld]
      exact hclaimed
    | fresh hnone hcarved =>
      rename_i pfn b l' h₁
      cases hstep
      have hunheld : pfn ∉ s.heap.held := by simp [Heap.held, (hpage pfn rfl).2]
      have hheld := hcarved.rest.held.trans slob_alloc_setup_held
      have hcard := Set.ncard_insert_of_notMem hunheld hi.held_finite
      rw [← hheld] at hcard
      simp only [Heap.held, Geometry.slob_alloc_zero_page, Geometry.slob_alloc_zero_mem_claimed,
        hcarved.rest.claimed] at hcard hclaimed ⊢
      rw [hcard, slob_alloc_setup_mem_claimed, hclaimed, toInt_add, Nat.cast_add_one, mul_add, mul_one]
  | slob_free block size =>
    obtain ⟨b, hb, rfl, rfl⟩ := hv
    have hout := hi.core.slob_free hb
    generalize hr : g.slob_free s.heap b.addr b.size = r at hout
    rw [step, hr] at hstep
    cases hout with
    | released hlast hrel =>
      cases hstep
      have hin : g.virt_to_page b.addr ∈ s.heap.held := (hi.core.blocks b hb).held
      have hcard := Set.ncard_sdiff_singleton_add_one hin hi.held_finite
      dsimp only
      rw [hrel.claimed, hrel.held, hclaimed, ← hcard, toInt_sub, Nat.cast_add_one, mul_add, mul_one,
        add_sub_cancel_right]
    | returned hp hcomp hp' hret hmore =>
      cases hstep
      dsimp only
      rw [hret.claimed, hret.held]
      exact hclaimed
  | store u value =>
    cases hstep
    exact hclaimed

theorem Inv.claimed_run (hi : Inv g s) (hv : ValidRun g s cs) (hrun : run g s cs = .ok s') (hclaimed : Claimed g s) :
    Claimed g s' := by
  induction cs generalizing s with
  | nil =>
    cases hrun
    exact hclaimed
  | cons c cs ih =>
    obtain ⟨s₁, hstep, hi₁⟩ := hi.step_ok hv.1
    rw [run, hstep] at hrun
    exact ih hi₁ (hv.2 s₁ hstep) hrun (hi.claimed_step hv.1 hstep hclaimed)

theorem Initial.claimed_zero (hs : Initial s) : Claimed g s := by
  have hnone : s.heap.held = ∅ := by
    ext pfn
    simp [Heap.held, hs.slab]
  rw [Claimed, hs.claimed, hnone]
  simp [toInt]

theorem toInt_of_lt {n : Nat} (h : n < 2 ^ 31) : toInt n = n := by
  rw [toInt, Int.bmod_eq_of_le] <;> omega

end Claimed

section HandedBack

/-- Which blocks are live after a call. -/
theorem step_live (hstep : step g s c = .ok s') :
    (∀ block size, c ≠ .slob_free block size) ∧ s.live ⊆ s'.live ∨
      ∃ block size, c = .slob_free block size ∧ s'.live = s.live.filter fun b => b.addr ≠ block := by
  cases c with
  | slob_alloc size align zero page =>
    refine .inl ⟨by simp, ?_⟩
    rw [step] at hstep
    cases hr : g.slob_alloc s.heap size align zero page with
    | error e => rw [hr] at hstep; simp [bind, Except.bind] at hstep
    | ok r =>
      obtain ⟨addr, heap⟩ := r
      rw [hr] at hstep
      cases addr with
      | none =>
        cases hstep
        exact List.Subset.refl _
      | some addr =>
        cases hstep
        exact List.subset_cons_self _ _
  | slob_free block size =>
    refine .inr ⟨block, size, rfl, ?_⟩
    rw [step] at hstep
    cases hr : g.slob_free s.heap block size with
    | error e => rw [hr] at hstep; simp [bind, Except.bind] at hstep
    | ok heap =>
      rw [hr] at hstep
      cases hstep
      rfl
  | store u value =>
    cases hstep
    exact .inl ⟨by simp, List.Subset.refl _⟩

/-- The call is the free of the only live block of a page. -/
def Call.FreesLast (g : Geometry) (s : State) (c : Call) (pfn : Nat) : Prop :=
  ∃ b ∈ s.live, c = .slob_free b.addr b.size ∧ g.virt_to_page b.addr = pfn ∧
    ∀ a ∈ s.live, g.virt_to_page a.addr = pfn → a = b

theorem Inv.handed_back_iff (hi : Inv g s) (hv : c.Valid g s) (hi' : Inv g s') (hstep : step g s c = .ok s')
    {pfn : Nat} (hpfn : pfn ∈ s.heap.held) : pfn ∉ s'.heap.held ↔ c.FreesLast g s pfn := by
  rw [hi'.mem_held_iff]
  obtain ⟨a, ha, hpage⟩ := hi.mem_held_iff.mp hpfn
  obtain ⟨hother, hsub⟩ | ⟨block, size, rfl, hlive⟩ := step_live hstep
  · constructor
    · exact fun hnone => absurd ⟨a, hsub ha, hpage⟩ hnone
    · rintro ⟨b, -, rfl, -⟩
      exact absurd rfl (hother _ _)
  · obtain ⟨b, hb, rfl, rfl⟩ := hv
    rw [hlive]
    constructor
    · intro hnone
      have hfreed : ∀ d ∈ s.live, g.virt_to_page d.addr = pfn → d = b := by
        intro d hd hdp
        by_contra hne
        refine hnone ⟨d, List.mem_filter.mpr ⟨hd, ?_⟩, hdp⟩
        rw [decide_eq_true_eq]
        exact fun haddr => hne (hi.core.eq_of_addr hd hb haddr)
      obtain rfl := hfreed a ha hpage
      exact ⟨a, ha, rfl, hpage, hfreed⟩
    · rintro ⟨d, hd, hcall, hdp, hlast⟩ ⟨e, he, hep⟩
      obtain ⟨he, hne⟩ := List.mem_filter.mp he
      rw [decide_eq_true_eq] at hne
      obtain ⟨haddr, -⟩ := Call.slob_free.inj hcall
      exact hne (by rw [hlast e he hep, haddr])

end HandedBack

/-- Pages are held for live blocks only, are counted, and are on a list only while they are held. -/
structure Holding (g : Geometry) (s : State) : Prop where
  held : ∀ pfn, pfn ∈ s.heap.held ↔ ∃ b ∈ s.live, g.virt_to_page b.addr = pfn
  claimed : g.PAGE_SIZE * s.heap.held.ncard < 2 ^ 31 → s.heap.mem_claimed = g.PAGE_SIZE * s.heap.held.ncard
  unlisted : ∀ pfn, pfn ∉ s.heap.held → ∀ c, pfn ∉ s.heap.list c

/-- After every sequence of matched calls; and the next call hands a page back exactly if it frees
    the last live block of the page. -/
theorem pages_handed_back (hs : Initial s) (hv : ValidRun g s cs) :
    ∃ s', run g s cs = .ok s' ∧ Holding g s' ∧ ∀ c, c.Valid g s' → ∃ s'', step g s' c = .ok s'' ∧
      ∀ pfn ∈ s'.heap.held, (pfn ∉ s''.heap.held ↔ c.FreesLast g s' pfn) := by
  obtain ⟨s', hrun, hi⟩ := hs.inv.run_ok hv
  have hclaimed := hs.inv.claimed_run hv hrun hs.claimed_zero
  refine ⟨s', hrun, ⟨fun pfn => hi.mem_held_iff, fun hsmall => ?_, fun pfn hpfn c hin => ?_⟩, fun c hc => ?_⟩
  · rw [Claimed] at hclaimed
    rw [hclaimed, ← Nat.cast_mul, toInt_of_lt hsmall]
  · exact hpfn (hi.core.listed c pfn hin).1
  · obtain ⟨s'', hstep, hi'⟩ := hi.step_ok hc
    exact ⟨s'', hstep, fun pfn hpfn => hi.handed_back_iff hc hi' hstep hpfn⟩

theorem pages_handed_back_sample : Initial boot ∧ ValidRun page4096 boot sampleCalls ∧
    ∃ s', run page4096 boot sampleCalls = .ok s' ∧ Holding page4096 s' := by
  obtain ⟨s', hrun, hholding, -⟩ := pages_handed_back boot_initial sampleCalls_valid
  exact ⟨boot_initial, sampleCalls_valid, s', hrun, hholding⟩

end cs444.slob
