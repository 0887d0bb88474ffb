import Cs444.Concurrency3.Turns

open interleaving

open Function

namespace cs444.concurrency3.nodes

variable {R S I D : Nat} {s s' : State S I D} {xs xs' : List Int}

/-- The searcher is inside `search_by_value` for this value. -/
def Searcher.calling (val : Int) : Searcher → Bool
  | .walk v _ | .advance v _ => decide (v = val)
  | _ => false

/-- The value and the result of a search whose result is certain. -/
def Searcher.answer : Searcher → Option (Int × Bool)
  | .walk val none => some (val, false)
  | .print_list val result | .printing val result _ => some (val, result)
  | _ => none

/-- Among these states there is one inside the call in which the result is right. -/
def Witnessed (hist : List (State S I D)) (i : Fin S) (val : Int) (result : Bool) : Prop :=
  ∃ s ∈ hist, (s.searcher i).calling val = true ∧ ∃ values, Holds s values ∧ (result = true ↔ val ∈ values)

/-- Every search with a certain result had a state in which the result was right. -/
structure Answered (R : Nat) (s : State S I D) (hist : List (State S I D)) : Prop where
  refines : ∃ xs, Refines R s xs
  now : s ∈ hist
  answers : ∀ i val result, (s.searcher i).answer = some (val, result) → Witnessed hist i val result

theorem Witnessed.mono {hist hist' : List (State S I D)} {i : Fin S} {val : Int} {result : Bool}
    (h : Witnessed hist i val result) (hsub : hist ⊆ hist') : Witnessed hist' i val result := by
  obtain ⟨s, hs, hrest⟩ := h
  exact ⟨s, hsub hs, hrest⟩

theorem Witnessed.append {hist : List (State S I D)} {i : Fin S} {val : Int} {result : Bool}
    (h : Witnessed hist i val result) (hist' : List (State S I D)) : Witnessed (hist ++ hist') i val result :=
  h.mono (List.subset_append_left _ _)

theorem Shape.holds {as : List Nat} (h : Shape s as xs) : Holds s xs :=
  ⟨as, h.chain, h.values⟩

section Answer

variable {hist : List (State S I D)} {i : Fin S} {val : Int}

/-- The node has the value: the result is right in the state before the step. -/
theorem Answered.walk_hit (h : Answered R s hist) {temp : Nat} (hq : s.searcher i = .walk val (some temp))
    (hdata : (s.mem temp).data = val) : Witnessed hist i val true := by
  obtain ⟨xs, hs⟩ := h.refines
  obtain ⟨as, hshape⟩ := hs.shape_of_searcher hq rfl
  obtain ⟨pre, post, has, -⟩ := hshape.searcher_ok hq
  refine ⟨s, h.now, ?_, xs, hshape.holds, ?_⟩
  · rw [hq]
    exact decide_eq_true rfl
  · simpa using hshape.search_hit has hdata

/-- The last node has been read: the result is right in the state after the step. -/
theorem Answered.advance_miss (h : Answered R s hist) {temp : Nat} (hq : s.searcher i = .advance val temp)
    (htemp : (s.mem temp).next = none) : Witnessed [s.searcherAt i (.walk val none)] i val false := by
  obtain ⟨xs, hs⟩ := h.refines
  obtain ⟨as, hshape⟩ := hs.shape_of_searcher hq rfl
  obtain ⟨pre, post, has, hpre⟩ := hshape.searcher_ok hq
  refine ⟨_, List.mem_cons_self, ?_, xs, ⟨as, hshape.chain, hshape.values⟩, ?_⟩
  · simp [Searcher.calling]
  · simpa using hshape.search_miss has hpre htemp

/-- The list is empty: the result is right in the state after the step. -/
theorem search_empty (hlist : s.list = none) : Witnessed [s.searcherAt i (.walk val none)] i val false := by
  refine ⟨_, List.mem_cons_self, ?_, [], ⟨[], hlist, rfl⟩, by simp⟩
  simp [Searcher.calling]

/-- The searcher that makes a step gets its answer now, or has it already. -/
theorem Answered.searcher_next (h : Answered R s hist) (hnext : searcher_next s i val = some s') {val' : Int}
    {result : Bool} (hanswer : (s'.searcher i).answer = some (val', result)) :
    Witnessed (hist ++ [s']) i val' result := by
  have hkept : (s.searcher i).answer = some (val', result) → Witnessed (hist ++ [s']) i val' result :=
    fun hold => (h.answers i val' result hold).append [s']
  cases hq : s.searcher i with simp only [nodes.searcher_next, hq] at hnext hkept
  | read_wait =>
    split at hnext
    · cases hnext
      simp [Searcher.answer] at hanswer
    · cases hnext
  | search =>
    cases hnext
    simp only [update_self] at hanswer
    cases hlist : s.list with
    | some temp =>
      rw [hlist] at hanswer
      simp [Searcher.answer] at hanswer
    | none =>
      rw [hlist] at hanswer
      cases hanswer
      exact (search_empty hlist).mono (by simp [hlist])
  | walk v temp =>
    cases temp with
    | none =>
      cases hnext
      simp only [update_self] at hanswer
      exact hkept hanswer
    | some temp =>
      dsimp only at hnext
      split at hnext
      · rename_i hdata
        cases hnext
        simp only [update_self] at hanswer
        cases hanswer
        exact (h.walk_hit hq hdata).append _
      · cases hnext
        simp [Searcher.answer] at hanswer
  | advance v temp =>
    cases hnext
    simp only [update_self] at hanswer
    cases htemp : (s.mem temp).next with
    | some next =>
      rw [htemp] at hanswer
      simp [Searcher.answer] at hanswer
    | none =>
      rw [htemp] at hanswer
      cases hanswer
      exact (h.advance_miss hq htemp).mono (by simp)
  | print_list v r =>
    cases hnext
    simp only [update_self] at hanswer
    exact hkept hanswer
  | printing v r current =>
    cases current with
    | none =>
      cases hnext
      simp [Searcher.answer] at hanswer
    | some current =>
      cases hnext
      simp only [update_self] at hanswer
      exact hkept hanswer
  | read_post =>
    cases hnext
    simp [Searcher.answer] at hanswer
  | returned => cases hnext

end Answer

theorem writer_frame {a : Move S I D} (ha : ∀ i val, a ≠ .searcher i val) (hnext : next R s a = some s') :
    s'.searcher = s.searcher := by
  cases a with
  | searcher i val => exact absurd rfl (ha i val)
  | inserter i val addr =>
    simp only [next, inserter_next] at hnext
    grind
  | deleter i val =>
    simp only [next, deleter_next] at hnext
    grind

theorem Answered.next_ok {hist : List (State S I D)} (h : Answered R s hist) {a : Move S I D}
    (hnext : next R s a = some s') : Answered R s' (hist ++ [s']) := by
  obtain ⟨xs, hs⟩ := h.refines
  refine ⟨⟨_, (hs.next_ok hnext).refines hs⟩, by simp, fun j val result hanswer => ?_⟩
  have hkept : s'.searcher j = s.searcher j → Witnessed (hist ++ [s']) j val result := by
    intro hsame
    rw [hsame] at hanswer
    exact (h.answers j val result hanswer).append [s']
  cases a with
  | searcher i v =>
    by_cases hj : j = i
    · subst hj
      exact h.searcher_next hnext hanswer
    · obtain ⟨-, -, p, hsearcher⟩ := searcher_frame hnext
      exact hkept (by rw [hsearcher, update_of_ne hj])
  | inserter i v addr => exact hkept (congrFun (writer_frame (by simp) hnext) j)
  | deleter i v => exact hkept (congrFun (writer_frame (by simp) hnext) j)

theorem run_answered {mem : Nat → node} {as : List (Move S I D)} (h : run (next R) (initial R S I D mem) as = some s) :
    Answered R s (initial R S I D mem :: trace (next R) (next R) (initial R S I D mem) as) := by
  have hstart : Answered R (initial R S I D mem) [initial R S I D mem] :=
    ⟨⟨[], refines_initial R S I D mem⟩, by simp,
      fun i val result hanswer => absurd hanswer (by simp [initial, Searcher.answer])⟩
  refine trace_invariant (next R) (I := Answered R) ?_ hstart h
  intro s hist a s' hs hnext
  rw [hnext]
  exact hs.next_ok hnext

end cs444.concurrency3.nodes
