import Mathlib.Logic.Basic
import Mathlib.Data.List.Basic

open Function

namespace locks

variable {C L : Type} [DecidableEq C] [DecidableEq L] {owner : L → Option C} {held : C → List L} {c c' : C} {k l : L}

/-- The owner on record is the one that has the lock in its hands. -/
def Owned (owner : L → Option C) (held : C → List L) : Prop :=
  ∀ l c, owner l = some c ↔ l ∈ held c

omit [DecidableEq C] [DecidableEq L] in
theorem Owned.exclusive (h : Owned owner held) (hc : l ∈ held c) (hc' : l ∈ held c') : c = c' :=
  Option.some.inj (((h l c).mpr hc).symm.trans ((h l c').mpr hc'))

/-- A free lock is taken. -/
theorem Owned.take (h : Owned owner held) (hfree : owner l = none) {ls : List L}
    (hls : ∀ k, k ∈ ls ↔ k = l ∨ k ∈ held c) :
    Owned (update owner l (some c)) (update held c ls) := by
  intro k c'
  have hnone : ∀ d, l ∉ held d := by
    intro d hd
    rw [(h l d).mpr hd] at hfree
    cases hfree
  by_cases hk : k = l <;> by_cases hc : c' = c
  · subst hk hc
    rw [update_self, update_self, hls]
    simp
  · subst hk
    rw [update_self, update_of_ne hc, Option.some_inj, eq_comm]
    exact iff_of_false hc (hnone c')
  · subst hc
    rw [update_of_ne hk, update_self, hls, h]
    simp [hk]
  · rw [update_of_ne hk, update_of_ne hc]
    exact h k c'

/-- A lock is let go by the one that has it. -/
theorem Owned.drop (h : Owned owner held) (hhas : l ∈ held c) {ls : List L} (hls : ∀ k, k ∈ ls ↔ k ∈ held c ∧ k ≠ l) :
    Owned (update owner l none) (update held c ls) := by
  intro k c'
  by_cases hk : k = l <;> by_cases hc : c' = c
  · subst hk hc
    rw [update_self, update_self, hls]
    simp
  · subst hk
    rw [update_self, update_of_ne hc]
    exact iff_of_false (by simp) fun hc' => hc (h.exclusive hc' hhas)
  · subst hc
    rw [update_of_ne hk, update_self, hls, h]
    simp [hk]
  · rw [update_of_ne hk, update_of_ne hc]
    exact h k c'

omit [DecidableEq L] in
/-- The locks of an agent may be listed in another way. -/
theorem Owned.relist (h : Owned owner held) {ls : List L} (hls : ∀ k, k ∈ ls ↔ k ∈ held c) :
    Owned owner (update held c ls) := by
  intro k c'
  by_cases hc : c' = c
  · subst hc
    rw [update_self, hls]
    exact h k c'
  · rw [update_of_ne hc]
    exact h k c'

omit [DecidableEq C] [DecidableEq L] in
/-- Where everyone waits only for a lock above all those it has, not everyone is stuck: the way from an agent
    to the owner of the lock it waits for goes up, and ends at one whose lock is free or that does not wait. -/
theorem Owned.exists_unblocked (h : Owned owner held) {waits : C → Option L} {rank : L → Nat} {bound : Nat}
    (hup : ∀ c l, waits c = some l → ∀ k ∈ held c, rank k < rank l)
    (hbound : ∀ c l, waits c = some l → rank l < bound) (c : C) :
    ∃ c', (c' = c ∨ held c' ≠ []) ∧ ∀ l, waits c' = some l → owner l = none := by
  -- By induction on how far below the bound the lock is that the agent waits for.
  suffices haux : ∀ n c, (∀ l, waits c = some l → bound - rank l ≤ n) →
      ∃ c', (c' = c ∨ held c' ≠ []) ∧ ∀ l, waits c' = some l → owner l = none from haux bound c fun l _ => Nat.sub_le _ _
  intro n
  induction n with
  | zero =>
    intro c hn
    refine ⟨c, .inl rfl, fun l hl => ?_⟩
    have hlt := hbound c l hl
    have hle := hn l hl
    omega
  | succ n ih =>
    intro c hn
    cases hwaits : waits c with
    | none => exact ⟨c, .inl rfl, fun l hl => absurd (hwaits.symm.trans hl) (by simp)⟩
    | some l =>
      cases howner : owner l with
      | none => exact ⟨c, .inl rfl, fun l' hl' => Option.some.inj (hwaits.symm.trans hl') ▸ howner⟩
      | some d =>
        have hhas : l ∈ held d := (h l d).mp howner
        obtain ⟨c', hc', hfree⟩ := ih d fun l' hl' => by
          have hle := hn l hwaits
          have hlt := hup d l' hl' l hhas
          have hlt' := hbound d l' hl'
          omega
        refine ⟨c', .inr ?_, hfree⟩
        obtain rfl | hne := hc'
        · exact List.ne_nil_of_mem hhas
        · exact hne

end locks
