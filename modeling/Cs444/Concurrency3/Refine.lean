import Cs444.Concurrency3.Searching
import Cs444.Concurrency3.Inserting
import Cs444.Concurrency3.Removing

open interleaving

namespace cs444.concurrency3.nodes

variable {R S I D : Nat} {s s' : State S I D} {xs : List Int}

/-- The step lemma of the refinement. Of the abstract list it needs to know only what `effect` says:
    it changes when a new node is linked and when the list is assigned after a removal. -/
theorem Refines.next_ok (h : Refines R s xs) {a : Move S I D} (hnext : next R s a = some s') :
    Follows R s s' xs (effect s a xs) := by
  cases a with
  | searcher i val => exact h.searcher_next hnext
  | inserter i val addr => exact h.inserter_next hnext
  | deleter i val => exact h.deleter_next hnext

theorem refines_initial (R S I D : Nat) (mem : Nat → node) : Refines R (initial R S I D mem) [] where
  shape _ := ⟨[], rfl, List.nodup_nil, by simp, rfl, fun _ => trivial, fun _ => trivial, fun _ => trivial⟩
  assigning _ _ _ _ h := absurd h (by simp [initial])
  inv := inv_initial R S I D

/-- Whatever the program with pointers does, the program with whole calls as steps can do. The
    latter takes one step for each call, so what is proved of it (one writer at a time, no searcher
    during a removal) holds here too. -/
theorem reachable_abs {mem : Nat → node} (h : Reachable (next R) (initial R S I D mem) s) :
    ∃ xs, Refines R s xs ∧ Reachable (concurrency3.next R) (concurrency3.initial R S I D) (s.abs R xs) := by
  refine h.invariant (I := fun s => ∃ xs, Refines R s xs ∧
    Reachable (concurrency3.next R) (concurrency3.initial R S I D) (s.abs R xs))
    ⟨[], refines_initial R S I D mem, [], rfl⟩ ?_
  rintro s a s' ⟨xs, hrefines, as, hrun⟩ hnext
  have hfollows := hrefines.next_ok hnext
  refine ⟨effect s a xs, hfollows.refines hrefines, ?_⟩
  obtain heq | ⟨m, hstep⟩ := hfollows.simulates
  · exact ⟨as, by rw [heq]; exact hrun⟩
  · exact ⟨as ++ [m], by rw [run_append, hrun, Option.bind_some, run, hstep]; rfl⟩

end cs444.concurrency3.nodes
