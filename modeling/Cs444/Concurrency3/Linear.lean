import Cs444.Concurrency3.Order
import Cs444.Concurrency3.Answers

open interleaving

namespace cs444.concurrency3.nodes

variable {R S I D : Nat} {s : State S I D} {xs : List Int} {es : List (Event I D)}

theorem Refines.nobody_inside (h : Refines R s xs) (hwrite : s.write_sem = 1) (w : Writer I D) :
    (s.view w).inside = false := by
  have hone := h.inv.write
  have hsem : (s.abs R xs).write_sem = 1 := hwrite
  by_contra hin
  rw [Bool.not_eq_false] at hin
  cases w with
  | inserter i =>
    have hpos : 0 < count fun j => ((s.abs R xs).inserter j).inside :=
      count_pos.mpr ⟨i, (Inserter.view_inside _).symm.trans hin⟩
    omega
  | deleter i =>
    have hpos : 0 < count fun j => ((s.abs R xs).deleter j).inside :=
      count_pos.mpr ⟨i, (Deleter.view_inside (R := R) _).symm.trans hin⟩
    omega

theorem Inserter.view_of_returned {i : Fin I} (h : s.inserter i = .returned) :
    (s.view (.inserter i)).inside = false := by
  rw [State.view, h]
  rfl

theorem Deleter.view_of_returned {i : Fin D} (h : s.deleter i = .returned) :
    (s.view (.deleter i)).inside = false := by
  rw [State.view, h]
  rfl

/-- With nobody inside no call is pending, so the list is linked and what the calls so far make it. -/
theorem Refines.holds_replay (hs : Refines R s xs) (hordered : Ordered s xs es)
    (hout : ∀ w, (s.view w).inside = false) : Holds s (replay es) := by
  have hnone : ∀ w, (s.view w).pending = none := by
    intro w
    cases hp : (s.view w).pending with
    | none => rfl
    | some op => exact absurd ((hout w).symm.trans (pending_inside hp)) (by simp)
  have hquiet : ∀ i, (s.deleter i).assigning = false := by
    intro i
    have hi := hout (.deleter i)
    rw [State.view, Deleter.view_inside (R := R)] at hi
    exact Deleter.assigning_of_outside hi
  obtain ⟨nodes, hshape⟩ := hs.shape hquiet
  rw [← hordered.settled hnone]
  exact hshape.holds

/-- Whenever no writer has `write_sem`, and so when all writers have returned, the list is the one
    the calls make one after another, in the order in which their threads acquired `write_sem`. When
    a search has returned, there was a state inside the call in which its result told whether the
    value was in the list. -/
theorem linearizable {mem : Nat → node} {as : List (Move S I D)}
    (hrun : run (next R) (initial R S I D mem) as = some s) :
    (s.write_sem = 1 → Holds s (replay (trace (next R) event (initial R S I D mem) as))) ∧
      ((∀ i, s.inserter i = .returned) → (∀ i, s.deleter i = .returned) →
        Holds s (replay (trace (next R) event (initial R S I D mem) as))) ∧
      ∀ i val result, s.searcher i = .print_list val result →
        ∃ k s₁, run (next R) (initial R S I D mem) (as.take k) = some s₁ ∧ (s₁.searcher i).calling val = true ∧
          ∃ values, Holds s₁ values ∧ (result = true ↔ val ∈ values) := by
  obtain ⟨xs, hs, hordered⟩ := run_ordered hrun
  refine ⟨fun hwrite => ?_, fun hinserter hdeleter => ?_, fun i val result hreturned => ?_⟩
  · exact hs.holds_replay hordered (hs.nobody_inside hwrite)
  · refine hs.holds_replay hordered fun w => ?_
    cases w with
    | inserter i => exact Inserter.view_of_returned (hinserter i)
    | deleter i => exact Deleter.view_of_returned (hdeleter i)
  · obtain ⟨s₁, hmem, hcalling, hresult⟩ := (run_answered hrun).answers i val result (by rw [hreturned]; rfl)
    obtain ⟨k, hk⟩ := run_of_mem_trace hmem
    exact ⟨k, s₁, hk, hcalling, hresult⟩

/-- An inserter inserts 5, 7, 1, 2 and 3. A searcher for 7 is at the node with 5 when 7 is linked
    behind it, and goes on to find it. -/
def overlap : List (Move 2 1 1) :=
  let insert := Move.inserter ⟨0, Nat.one_pos⟩
  let search := Move.searcher ⟨0, Nat.two_pos⟩
  [insert 0 0] ++ List.replicate 6 (insert 5 10) ++ List.replicate 3 (search 7) ++
    List.replicate 4 (insert 7 11) ++ List.replicate 2 (search 0) ++ List.replicate 5 (insert 7 11) ++
    List.replicate 12 (insert 1 12) ++ List.replicate 15 (insert 2 13) ++ List.replicate 18 (insert 3 14) ++ [insert 0 0]

/-- When that searcher has returned, a deleter removes 7, and a second searcher misses it. -/
def removal : List (Move 2 1 1) :=
  List.replicate 8 (.searcher ⟨0, Nat.two_pos⟩ 0) ++ List.replicate 18 (.deleter ⟨0, Nat.one_pos⟩ 7) ++
    List.replicate 11 (.searcher ⟨1, Nat.one_lt_two⟩ 7)

def blank : Nat → node := fun _ => { data := 0, next := none }

theorem linearizable_overlap :
    (∃ s, run (next 1) (initial 1 2 1 1 blank) overlap = some s ∧
      Holds s (replay (trace (next 1) event (initial 1 2 1 1 blank) overlap)) ∧
      replay (trace (next 1) event (initial 1 2 1 1 blank) overlap) = [5, 7, 1, 2, 3] ∧
      s.searcher 0 = .print_list 7 true ∧
      ∃ k s₁, run (next 1) (initial 1 2 1 1 blank) (overlap.take k) = some s₁ ∧
        (s₁.searcher 0).calling 7 = true ∧ ∃ values, Holds s₁ values ∧ (true = true ↔ 7 ∈ values)) ∧
    ∃ s, run (next 1) (initial 1 2 1 1 blank) (overlap ++ removal) = some s ∧
      (∀ i, s.inserter i = .returned) ∧ (∀ i, s.deleter i = .returned) ∧
      Holds s (replay (trace (next 1) event (initial 1 2 1 1 blank) (overlap ++ removal))) ∧
      replay (trace (next 1) event (initial 1 2 1 1 blank) (overlap ++ removal)) = [5, 1, 2, 3] ∧
      s.searcher 1 = .print_list 7 false ∧
      ∃ k s₁, run (next 1) (initial 1 2 1 1 blank) ((overlap ++ removal).take k) = some s₁ ∧
        (s₁.searcher 1).calling 7 = true ∧ ∃ values, Holds s₁ values ∧ (false = true ↔ 7 ∈ values) := by
  have hfound : (run (next 1) (initial 1 2 1 1 blank) overlap).map (fun s => (s.write_sem, s.searcher 0)) =
      some (1, .print_list 7 true) := by
    decide +kernel
  have hmissed : (run (next 1) (initial 1 2 1 1 blank) (overlap ++ removal)).map
      (fun s => (s.inserter 0, s.deleter 0, s.searcher 1)) = some (.returned, .returned, .print_list 7 false) := by
    decide +kernel
  obtain ⟨s, hrun, hs⟩ := Option.map_eq_some_iff.mp hfound
  obtain ⟨hwrite, hsearcher⟩ := Prod.mk.inj hs
  obtain ⟨s', hrun', hs'⟩ := Option.map_eq_some_iff.mp hmissed
  obtain ⟨hinserter, hlast⟩ := Prod.mk.inj hs'
  obtain ⟨hdeleter, hsearcher'⟩ := Prod.mk.inj hlast
  have hinserters : ∀ i, s'.inserter i = .returned := fun i => by rw [Subsingleton.elim i 0, hinserter]
  have hdeleters : ∀ i, s'.deleter i = .returned := fun i => by rw [Subsingleton.elim i 0, hdeleter]
  exact ⟨⟨s, hrun, (linearizable hrun).1 hwrite, by decide +kernel, hsearcher,
      (linearizable hrun).2.2 0 7 true hsearcher⟩,
    s', hrun', hinserters, hdeleters, (linearizable hrun').2.1 hinserters hdeleters, by decide +kernel, hsearcher',
      (linearizable hrun').2.2 1 7 false hsearcher'⟩

end cs444.concurrency3.nodes
