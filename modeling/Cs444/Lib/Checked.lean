import Mathlib.Logic.Basic

namespace checked

/-- What a computation that goes through has gone through. -/
theorem bind_eq_ok {ε α β : Type} {x : Except ε α} {f : α → Except ε β} {b : β} :
    (x >>= f) = .ok b ↔ ∃ a, x = .ok a ∧ f a = .ok b := by
  cases x <;> simp [bind, Except.bind]

theorem map_eq_ok {ε α β : Type} {x : Except ε α} {f : α → β} {b : β} :
    x.map f = .ok b ↔ ∃ a, x = .ok a ∧ f a = b := by
  cases x <;> simp [Except.map]

variable {σ α ε : Type} (step : σ → α → Except ε σ) (valid : σ → α → Prop)

/-- The actions one after another, up to the first that fails. -/
def run (s : σ) : List α → Except ε σ
  | [] => .ok s
  | a :: as => do
    let s' ← step s a
    run s' as

/-- Every action is valid in the state it is done in. -/
def ValidRun (s : σ) : List α → Prop
  | [] => True
  | a :: as => valid s a ∧ ∀ s', step s a = .ok s' → ValidRun s' as

instance decidableValidRun [∀ s a, Decidable (valid s a)] : (s : σ) → (as : List α) → Decidable (ValidRun step valid s as)
  | _, [] => inferInstanceAs (Decidable True)
  | s, a :: as =>
    match h : step s a with
    | .ok s' =>
      have := decidableValidRun s' as
      decidable_of_iff (valid s a ∧ ValidRun step valid s' as) (by simp [ValidRun, h])
    | .error _ => decidable_of_iff (valid s a) (by simp [ValidRun, h])

variable {step valid} {I : σ → Prop} {s : σ} {as : List α}

/-- Two runs one after the other. -/
theorem run_append {s' : σ} (h : run step s as = .ok s') (bs : List α) : run step s (as ++ bs) = run step s' bs := by
  induction as generalizing s with
  | nil =>
    cases h
    rfl
  | cons a as ih =>
    obtain ⟨s₁, ha, hrun⟩ := bind_eq_ok.mp h
    rw [List.cons_append, run, ha]
    exact ih hrun

theorem ValidRun.append {s' : σ} {bs : List α} (has : ValidRun step valid s as) (hrun : run step s as = .ok s')
    (hbs : ValidRun step valid s' bs) : ValidRun step valid s (as ++ bs) := by
  induction as generalizing s with
  | nil =>
    cases hrun
    exact hbs
  | cons a as ih =>
    obtain ⟨s₁, ha, hrun⟩ := bind_eq_ok.mp hrun
    refine ⟨has.1, fun s₂ hs₂ => ?_⟩
    obtain rfl := Except.ok.inj (ha.symm.trans hs₂)
    exact ih (has.2 s₁ ha) hrun

/-- If no valid action fails where the invariant holds, and all keep it, no valid run fails. -/
theorem run_ok (hstep : ∀ s a, I s → valid s a → ∃ s', step s a = .ok s' ∧ I s') (hs : I s)
    (has : ValidRun step valid s as) : ∃ s', run step s as = .ok s' ∧ I s' := by
  induction as generalizing s with
  | nil => exact ⟨s, rfl, hs⟩
  | cons a as ih =>
    obtain ⟨s₁, ha, hs₁⟩ := hstep s a hs has.1
    obtain ⟨s', hrun, hs'⟩ := ih hs₁ (has.2 s₁ ha)
    refine ⟨s', ?_, hs'⟩
    rw [run, ha]
    exact hrun

/-- Where something is under way, and the actions of one kind bring it nearer to its end while the others do not
    take it away, it comes to its end in a run with enough actions of that kind. -/
theorem run_reaches (P G : σ → Prop) (left : σ → Nat) (mine : α → Bool)
    (hstep : ∀ s a, I s → valid s a → ∃ s', step s a = .ok s' ∧ I s')
    (hmine : ∀ s a s', I s → P s → valid s a → mine a = true → step s a = .ok s' → G s' ∨ P s' ∧ left s' < left s)
    (hother : ∀ s a s', I s → P s → valid s a → mine a = false → step s a = .ok s' → P s' ∧ left s' ≤ left s)
    (hs : I s) (hP : P s) (has : ValidRun step valid s as) (hcount : left s < as.countP mine) :
    ∃ as₁ as₂ s', as = as₁ ++ as₂ ∧ run step s as₁ = .ok s' ∧ G s' := by
  induction as generalizing s with
  | nil => exact absurd hcount (Nat.not_lt_zero _)
  | cons a as ih =>
    obtain ⟨s₁, ha, hs₁⟩ := hstep s a hs has.1
    have hrun : ∀ as₁, run step s (a :: as₁) = run step s₁ as₁ := fun as₁ => by
      rw [run, ha]
      rfl
    -- The rest of the run ends it, or this action has.
    have hrest : P s₁ → left s₁ < as.countP mine → ∃ as₁ as₂ s', a :: as = as₁ ++ as₂ ∧ run step s as₁ = .ok s' ∧ G s' := by
      intro hP₁ hlt
      obtain ⟨as₁, as₂, s', rfl, hrun₁, hG⟩ := ih hs₁ hP₁ (has.2 s₁ ha) hlt
      exact ⟨a :: as₁, as₂, s', rfl, (hrun as₁).trans hrun₁, hG⟩
    cases hkind : mine a with
    | true =>
      rw [List.countP_cons_of_pos hkind] at hcount
      obtain hG | ⟨hP₁, hless⟩ := hmine s a s₁ hs hP has.1 hkind ha
      · exact ⟨[a], as, s₁, rfl, (hrun []).trans rfl, hG⟩
      · exact hrest hP₁ (by omega)
    | false =>
      rw [List.countP_cons_of_neg (by simp [hkind])] at hcount
      obtain ⟨hP₁, hle⟩ := hother s a s₁ hs hP has.1 hkind ha
      exact hrest hP₁ (by omega)

/-- A valid run whose actions are all of a kind. -/
theorem ValidRun.and_forall {Q : α → Prop} (h : ValidRun step valid s as) (hQ : ∀ a ∈ as, Q a) :
    ValidRun step (fun s a => valid s a ∧ Q a) s as := by
  induction as generalizing s with
  | nil => exact trivial
  | cons a as ih =>
    refine ⟨⟨h.1, hQ a List.mem_cons_self⟩, fun s' hstep => ?_⟩
    exact ih (h.2 s' hstep) fun b hb => hQ b (List.mem_cons_of_mem _ hb)

end checked
