import Cs444.Slob.SmpAlone
import Cs444.Slob.SmpSteps

open interval

open Function

namespace cs444.slob.smp

variable {T : Type} [DecidableEq T] {g : Geometry} {s s₁ s₂ : Machine T} {ms ms' : List (Move T)} {b : Block}

/-- However the threads are interleaved, no step fails: no `BUG_ON` fires, the loops end, and every state on
    the way is safe. -/
theorem smp_run_safe (hs : Initial s) (hv : checked.ValidRun (step g) (Move.Valid g) s ms) :
    ∃ s', checked.run (step g) s ms = .ok s' ∧ Safe g s' := by
  obtain ⟨s', hrun, hi⟩ := checked.run_ok (I := Inv g) (fun _ _ hi hv => hi.step_ok hv) hs.inv hv
  exact ⟨s', hrun, hi.safe⟩

theorem boot_initial : Initial boot := ⟨slob.boot_initial, rfl, fun _ => rfl, fun _ => rfl⟩

/-- Both threads find the lists empty and get a page each; the first gets its block. -/
def sampleMoves : List (Move Bool) :=
  [.slob_alloc false ⟨8, 0, false⟩, .slob_alloc true ⟨24, 16, true⟩, .go false none, .go true none,
    .go false (some 1), .go true (some 2), .go false none, .go false none, .go false none, .go false none,
    .go false none]

theorem sampleMoves_valid : checked.ValidRun (step page4096) (Move.Valid page4096) boot sampleMoves := by
  refine ⟨⟨rfl, ⟨by decide, by decide, .inl rfl⟩, by decide⟩, fun s₁ h₁ => ?_⟩
  cases h₁
  refine ⟨⟨rfl, ⟨by decide, by decide, .inr ⟨4, rfl⟩⟩, by decide⟩, fun s₂ h₂ => ?_⟩
  cases h₂
  refine ⟨by simp [Move.Valid], fun s₃ h₃ => ?_⟩
  cases h₃
  refine ⟨by simp [Move.Valid], fun s₄ h₄ => ?_⟩
  cases h₄
  refine ⟨?_, fun s₅ h₅ => ?_⟩
  · intro pfn hpfn
    obtain rfl := Option.some_inj.mp hpfn
    exact ⟨by decide, rfl⟩
  cases h₅
  refine ⟨?_, fun s₆ _ => ?_⟩
  · intro pfn hpfn
    obtain rfl := Option.some_inj.mp hpfn
    exact ⟨by decide, rfl⟩
  simp [checked.ValidRun, Move.Valid]

theorem smp_run_safe_sample : Initial boot ∧
    checked.ValidRun (step page4096) (Move.Valid page4096) boot sampleMoves ∧
    ∃ s', checked.run (step page4096) boot sampleMoves = .ok s' ∧ Safe page4096 s' :=
  ⟨boot_initial, sampleMoves_valid, smp_run_safe boot_initial sampleMoves_valid⟩

/-- The moves that are neither a `slob_free` of the block nor a write to it. -/
def Move.Spares (g : Geometry) (b : Block) : Move T → Prop
  | .slob_free _ a => a ≠ b
  | .store u _ => ¬ (b.extent g).Covers u
  | _ => True

theorem Inv.step_spares (hi : Inv g s) {m : Move T} (hv : m.Valid g s) (hm : m.Spares g b) (hb : b ∈ s.held) :
    ∃ s', step g s m = .ok s' ∧ Inv g s' ∧ b ∈ s'.held ∧
      ∀ u, (b.extent g).Covers u → s'.heap.mem u = s.heap.mem u := by
  cases m with
  | slob_alloc t a =>
    have hnext := hi.slob_alloc hv.1 hv.2.1 hv.2.2
    exact ⟨_, rfl, hnext.inv, hb, fun u hu => hnext.mem u (liveUnit_of_mem hb hu)⟩
  | slob_free t a =>
    obtain ⟨s', hstep, hi', hheap, hheld⟩ := hi.slob_free hv.1 hv.2
    refine ⟨s', hstep, hi', ?_, fun u _ => by rw [hheap]⟩
    rw [hheld]
    exact (List.mem_erase_of_ne (Ne.symm hm)).mpr hb
  | go t page =>
    obtain ⟨s', hstep, hnext⟩ := hi.advance hv
    exact ⟨s', hstep, hnext.inv, hnext.held b hb, fun u hu => hnext.mem u (liveUnit_of_mem hb hu)⟩
  | store u value =>
    refine ⟨_, rfl, hi.store hv, hb, fun v hcov => update_of_ne ?_ _ _⟩
    rintro rfl
    exact hm hcov

/-- A block that a caller has stays its caller's, with what is in it, until the caller writes to it or frees
    it: nothing that other threads do in the allocator reaches it. -/
theorem smp_block_kept (hs : Initial s) (hv : checked.ValidRun (step g) (Move.Valid g) s ms)
    (hrun : checked.run (step g) s ms = .ok s₁) (hb : b ∈ s₁.held)
    (hv' : checked.ValidRun (step g) (Move.Valid g) s₁ ms') (hspares : ∀ m ∈ ms', m.Spares g b) :
    ∃ s₂, checked.run (step g) s₁ ms' = .ok s₂ ∧ b ∈ s₂.held ∧
      ∀ u, (b.extent g).Covers u → s₂.heap.mem u = s₁.heap.mem u := by
  obtain ⟨s₁', hrun', hi⟩ := checked.run_ok (I := Inv g) (fun _ _ hi hv => hi.step_ok hv) hs.inv hv
  obtain rfl := Except.ok.inj (hrun.symm.trans hrun')
  have hkeeps : ∀ (s : Machine T) (m : Move T),
      (Inv g s ∧ b ∈ s.held ∧ ∀ u, (b.extent g).Covers u → s.heap.mem u = s₁.heap.mem u) →
      (m.Valid g s ∧ m.Spares g b) → ∃ s', step g s m = .ok s' ∧
        (Inv g s' ∧ b ∈ s'.held ∧ ∀ u, (b.extent g).Covers u → s'.heap.mem u = s₁.heap.mem u) := by
    intro s m ⟨hi, hheld, hmem⟩ ⟨hvalid, hm⟩
    obtain ⟨s', hstep, hi', hheld', hmem'⟩ := hi.step_spares hvalid hm hheld
    exact ⟨s', hstep, hi', hheld', fun u hu => (hmem' u hu).trans (hmem u hu)⟩
  obtain ⟨s₂, hrun₂, -, hheld, hmem⟩ :=
    checked.run_ok hkeeps ⟨hi, hb, fun _ _ => rfl⟩ (hv'.and_forall hspares)
  exact ⟨s₂, hrun₂, hheld, hmem⟩

theorem sampleMoves_held :
    (checked.run (step page4096) boot sampleMoves).map Machine.held = .ok [⟨2048, 8, 0⟩] := rfl

/-- While the second thread sets its page up, the block of the first is left alone. -/
theorem smp_block_kept_sample : ∃ s₁ s₂ : Machine Bool,
    checked.run (step page4096) boot sampleMoves = .ok s₁ ∧ ⟨2048, 8, 0⟩ ∈ s₁.held ∧
    checked.run (step page4096) s₁ [.go true none, .go true none] = .ok s₂ ∧ ⟨2048, 8, 0⟩ ∈ s₂.held ∧
    ∀ u, (Block.extent page4096 ⟨2048, 8, 0⟩).Covers u → s₂.heap.mem u = s₁.heap.mem u := by
  obtain ⟨s₁, hrun, heq⟩ := checked.map_eq_ok.mp sampleMoves_held
  have hb : (⟨2048, 8, 0⟩ : Block) ∈ s₁.held := by simp [heq]
  have hv : checked.ValidRun (step page4096) (Move.Valid page4096) s₁ [.go true none, .go true none] := by
    simp [checked.ValidRun, Move.Valid]
  obtain ⟨s₂, hrun₂, hheld, hmem⟩ := smp_block_kept boot_initial sampleMoves_valid hrun hb hv (by simp [Move.Spares])
  exact ⟨s₁, s₂, hrun, hb, hrun₂, hheld, hmem⟩

end cs444.slob.smp
