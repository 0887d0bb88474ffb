import Mathlib.Data.List.Basic
import Mathlib.Logic.Function.Basic

namespace singly

variable {ν : Type} {next next' : ν → Option ν} {p : Option ν} {a b : ν} {l pre post : List ν}

/-- Following `next` from `p` leads through these nodes and then to the null pointer. -/
def Chain (next : ν → Option ν) : Option ν → List ν → Prop
  | p, [] => p = none
  | p, a :: l => p = some a ∧ Chain next (next a) l

theorem Chain.head_eq (h : Chain next p l) : p = l.head? := by
  cases l with
  | nil => exact h
  | cons a l => exact h.1

theorem Chain.drop (h : Chain next p (pre ++ post)) : Chain next post.head? post := by
  induction pre generalizing p with
  | nil =>
    rw [List.nil_append] at h
    rwa [← h.head_eq]
  | cons a pre ih => exact ih h.2

/-- The node behind a given one. -/
theorem Chain.next_eq (h : Chain next p (pre ++ a :: post)) : next a = post.head? :=
  h.drop.2.head_eq

/-- Pointers of other nodes do not matter. -/
theorem Chain.congr (h : Chain next p l) (hsame : ∀ a ∈ l, next' a = next a) : Chain next' p l := by
  induction l generalizing p with
  | nil => exact h
  | cons a l ih =>
    refine ⟨h.1, ?_⟩
    rw [hsame a List.mem_cons_self]
    exact ih h.2 fun b hb => hsame b (List.mem_cons_of_mem _ hb)

theorem Chain.last_of_next (h : Chain next p l) (ha : a ∈ l) (hnext : next a = none) :
    ∃ pre, l = pre ++ [a] := by
  obtain ⟨pre, post, rfl⟩ := List.append_of_mem ha
  have hpost := h.next_eq
  rw [hnext] at hpost
  obtain rfl := List.head?_eq_none_iff.mp hpost.symm
  exact ⟨pre, rfl⟩

variable [DecidableEq ν]

theorem Chain.update (h : Chain next p l) (ha : a ∉ l) (q : Option ν) : Chain (Function.update next a q) p l := by
  refine h.congr fun b hb => ?_
  have hne : b ≠ a := fun hba => ha (hba ▸ hb)
  rw [Function.update_of_ne hne]

/-- Linking a new node behind the last one. -/
theorem Chain.append (h : Chain next p (pre ++ [a])) (ha : a ∉ pre) (hb : b ∉ pre ++ [a]) (hnew : next b = none) :
    Chain (Function.update next a (some b)) p (pre ++ [a] ++ [b]) := by
  induction pre generalizing p with
  | nil =>
    have hne : b ≠ a := by simpa using hb
    refine ⟨h.1, ?_⟩
    rw [Function.update_self]
    exact ⟨rfl, by rw [Function.update_of_ne hne]; exact hnew⟩
  | cons c pre ih =>
    have hca : c ≠ a := fun hc => ha (by simp [hc])
    refine ⟨h.1, ?_⟩
    rw [Function.update_of_ne hca]
    exact ih h.2 (fun hmem => ha (List.mem_cons_of_mem _ hmem)) fun hmem => hb (List.mem_cons_of_mem _ hmem)

/-- Putting a node in front of a chain. -/
theorem Chain.push (h : Chain next p l) (ha : a ∉ l) : Chain (Function.update next a p) (some a) (a :: l) :=
  ⟨rfl, by rw [Function.update_self]; exact h.update ha p⟩

end singly
