import Mathlib.Logic.Function.Basic
import Mathlib.Logic.Basic

namespace owners

variable {T α : Type}

/-- Some thread has `a` in its hands. -/
def Held (f : T → Option α) (a : α) : Prop := ∃ t, f t = some a

/-- No two threads have the same thing in their hands. -/
def Exclusive (f : T → Option α) : Prop := ∀ t t' a, f t = some a → f t' = some a → t = t'

variable [DecidableEq T] {f : T → Option α} {t : T} {a b : α}

theorem held_update {o : Option α} :
    Held (Function.update f t o) b ↔ o = some b ∨ ∃ t', t' ≠ t ∧ f t' = some b := by
  constructor
  · rintro ⟨t', ht'⟩
    by_cases htt : t' = t
    · subst htt
      rw [Function.update_self] at ht'
      exact .inl ht'
    · rw [Function.update_of_ne htt] at ht'
      exact .inr ⟨t', htt, ht'⟩
  · rintro (rfl | ⟨t', htt, ht'⟩)
    · exact ⟨t, Function.update_self ..⟩
    · exact ⟨t', by rw [Function.update_of_ne htt, ht']⟩

/-- What is held when a thread with empty hands takes `a`. -/
theorem held_take (hempty : f t = none) : Held (Function.update f t (some a)) b ↔ b = a ∨ Held f b := by
  rw [held_update, Option.some_inj, eq_comm]
  refine or_congr_right ⟨fun ⟨t', _, ht'⟩ => ⟨t', ht'⟩, fun ⟨t', ht'⟩ => ⟨t', ?_, ht'⟩⟩
  rintro rfl
  rw [hempty] at ht'
  cases ht'

/-- What is held when the thread that has `a` lets go of it. -/
theorem held_drop (hx : Exclusive f) (hhas : f t = some a) :
    Held (Function.update f t none) b ↔ Held f b ∧ b ≠ a := by
  rw [held_update]
  constructor
  · rintro (hnone | ⟨t', htt, ht'⟩)
    · cases hnone
    · refine ⟨⟨t', ht'⟩, ?_⟩
      rintro rfl
      exact htt (hx _ _ _ ht' hhas)
  · rintro ⟨⟨t', ht'⟩, hne⟩
    refine .inr ⟨t', ?_, ht'⟩
    rintro rfl
    rw [hhas] at ht'
    exact hne (Option.some_inj.mp ht').symm

theorem Exclusive.take (hx : Exclusive f) (hfree : ¬ Held f a) : Exclusive (Function.update f t (some a)) := by
  intro t₁ t₂ b h₁ h₂
  by_cases ht₁ : t₁ = t <;> by_cases ht₂ : t₂ = t
  · rw [ht₁, ht₂]
  · subst ht₁
    rw [Function.update_self, Option.some_inj] at h₁
    rw [Function.update_of_ne ht₂] at h₂
    exact absurd ⟨t₂, h₁ ▸ h₂⟩ hfree
  · subst ht₂
    rw [Function.update_self, Option.some_inj] at h₂
    rw [Function.update_of_ne ht₁] at h₁
    exact absurd ⟨t₁, h₂ ▸ h₁⟩ hfree
  · rw [Function.update_of_ne ht₁] at h₁
    rw [Function.update_of_ne ht₂] at h₂
    exact hx _ _ _ h₁ h₂

theorem Exclusive.drop (hx : Exclusive f) : Exclusive (Function.update f t none) := by
  intro t₁ t₂ b h₁ h₂
  have hne : ∀ t', Function.update f t none t' = some b → f t' = some b := by
    intro t' ht'
    by_cases htt : t' = t
    · subst htt
      rw [Function.update_self] at ht'
      cases ht'
    · rwa [Function.update_of_ne htt] at ht'
  exact hx _ _ _ (hne t₁ h₁) (hne t₂ h₂)

end owners
