import Cs444.Concurrency3.Exclusion
import Cs444.Concurrency3.Nodes

open interleaving

open Function

namespace cs444.concurrency3.nodes

variable {R S I D : Nat} {s s' : State S I D} {xs xs' : List Int}

section Abstraction

/-- A search takes effect when it reads the value, or the null pointer behind the last node. -/
def Searcher.abs : Searcher → concurrency3.Searcher
  | .read_wait => .read_wait
  | .search | .walk _ (some _) | .advance _ _ => .search
  | .walk _ none => .print false
  | .print_list _ result | .printing _ result _ => .print result
  | .read_post => .read_post
  | .returned => .returned

/-- An insertion takes effect when the new node is linked to the last one, or becomes the list. -/
def Inserter.abs : Inserter → concurrency3.Inserter
  | .write_wait => .write_wait
  | .insert t | .scan t .. | .follow t .. | .create t .. | .link t .. | .first t .. => .insert t
  | .store t _ | .print_list t | .printing t _ => concurrency3.insert_loop (t + 1)
  | .write_post => .write_post
  | .returned => .returned

/-- A removal takes effect when the list is assigned. -/
def Deleter.abs (R : Nat) : Deleter → concurrency3.Deleter
  | .write_wait => .write_wait
  | .read_wait t => .read_wait t
  | .remove | .descend .. | .recurse .. | .take_next .. | .free .. | .assign .. => .remove
  | .print_list | .printing _ => concurrency3.post_loop R 0
  | .read_post t => .read_post t
  | .write_post => .write_post
  | .returned => .returned

/-- The state as the program with whole calls as steps sees it, with the list `xs`. -/
def State.abs (R : Nat) (s : State S I D) (xs : List Int) : concurrency3.State S I D where
  read_sem := s.read_sem
  write_sem := s.write_sem
  list := xs
  searcher i := (s.searcher i).abs
  inserter i := (s.inserter i).abs
  deleter i := (s.deleter i).abs R

@[simp] theorem insert_loop_abs (t : Nat) : (insert_loop t).abs = concurrency3.insert_loop t := by
  rw [insert_loop, concurrency3.insert_loop]
  split <;> rfl

@[simp] theorem wait_loop_abs (R t : Nat) : (wait_loop R t).abs R = concurrency3.wait_loop R t := by
  rw [wait_loop, concurrency3.wait_loop]
  split <;> rfl

@[simp] theorem post_loop_abs (R t : Nat) : (post_loop R t).abs R = concurrency3.post_loop R t := by
  rw [post_loop, concurrency3.post_loop]
  split <;> rfl

/-- What a step does to the abstract list. -/
def effect (s : State S I D) (a : Move S I D) (xs : List Int) : List Int :=
  match a with
  | .searcher _ _ => xs
  | .inserter i _ _ =>
    match s.inserter i with
    | .link _ val _ _ _ | .first _ val _ => insert_node xs val
    | _ => xs
  | .deleter i _ =>
    match s.deleter i with
    | .assign val [] _ => remove_node xs val
    | _ => xs

end Abstraction

section Moves

/-- A searcher moves on, and nothing else changes. The steps that also change a semaphore or the
    memory change it in `s` first. -/
abbrev State.searcherAt (s : State S I D) (i : Fin S) (p : Searcher) : State S I D :=
  { s with searcher := update s.searcher i p }

abbrev State.inserterAt (s : State S I D) (i : Fin I) (p : Inserter) : State S I D :=
  { s with inserter := update s.inserter i p }

abbrev State.deleterAt (s : State S I D) (i : Fin D) (p : Deleter) : State S I D :=
  { s with deleter := update s.deleter i p }

theorem abs_update {ι α β : Type} [DecidableEq ι] (f : α → β) (g : ι → α) (i : ι) (a : α) :
    (fun j => f (update g i a j)) = update (fun j => f (g j)) i (f a) :=
  comp_update f g i a

theorem abs_searcher (s : State S I D) (i : Fin S) (p : Searcher) (read_sem : Nat) :
    ({ s with read_sem }.searcherAt i p).abs R xs =
      { s.abs R xs with read_sem, searcher := update (s.abs R xs).searcher i p.abs } := by
  simp only [State.abs, abs_update]

theorem abs_inserter (s : State S I D) (i : Fin I) (p : Inserter) (write_sem : Nat) (list : Option Nat)
    (mem : Nat → node) (allocated : Nat → Bool) :
    ({ s with write_sem, list, mem, allocated }.inserterAt i p).abs R xs =
      { s.abs R xs with write_sem, inserter := update (s.abs R xs).inserter i p.abs } := by
  simp only [State.abs, abs_update]

theorem abs_deleter (s : State S I D) (i : Fin D) (p : Deleter) (read_sem write_sem : Nat) (list : Option Nat)
    (mem : Nat → node) (allocated : Nat → Bool) :
    ({ s with read_sem, write_sem, list, mem, allocated }.deleterAt i p).abs R xs =
      { s.abs R xs with read_sem, write_sem, deleter := update (s.abs R xs).deleter i (p.abs R) } := by
  simp only [State.abs, abs_update]

end Moves

section Simulation

/-- Every step is one of the abstract program, or changes nothing there. The steps inside
    `search_by_value`, `insert_node` and `remove_node` are of the second kind but for the one at
    which the whole call takes effect. -/
def Simulates (R : Nat) (s s' : State S I D) (xs xs' : List Int) : Prop :=
  s'.abs R xs' = s.abs R xs ∨ ∃ m, concurrency3.next R (s.abs R xs) m = some (s'.abs R xs')

theorem searcher_stutters {i : Fin S} {p : Searcher} (hp : p.abs = (s.searcher i).abs) :
    Simulates R s (s.searcherAt i p) xs xs := by
  left
  rw [abs_searcher, hp]
  exact congrArg (fun f => { s.abs R xs with searcher := f }) (update_eq_self i (s.abs R xs).searcher)

theorem inserter_stutters {i : Fin I} {p : Inserter} {list : Option Nat} {mem : Nat → node}
    {allocated : Nat → Bool} (hp : p.abs = (s.inserter i).abs) :
    Simulates R s ({ s with list, mem, allocated }.inserterAt i p) xs xs := by
  left
  rw [abs_inserter, hp]
  exact congrArg (fun f => { s.abs R xs with inserter := f }) (update_eq_self i (s.abs R xs).inserter)

theorem deleter_stutters {i : Fin D} {p : Deleter} {mem : Nat → node} {allocated : Nat → Bool}
    (hp : p.abs R = (s.deleter i).abs R) : Simulates R s ({ s with mem, allocated }.deleterAt i p) xs xs := by
  left
  rw [abs_deleter, hp]
  exact congrArg (fun f => { s.abs R xs with deleter := f }) (update_eq_self i (s.abs R xs).deleter)

theorem next_inv {c c' : concurrency3.State S I D} {m : concurrency3.Move S I D} (h : Inv R c)
    (hnext : concurrency3.next R c m = some c') : Inv R c' := by
  cases m with
  | searcher i val => exact h.searcher_next hnext
  | inserter i val => exact h.inserter_next hnext
  | deleter i val => exact h.deleter_next hnext

theorem Simulates.inv (h : Simulates R s s' xs xs') (hinv : Inv R (s.abs R xs)) : Inv R (s'.abs R xs') := by
  obtain heq | ⟨m, hnext⟩ := h
  · rw [heq]
    exact hinv
  · exact next_inv hinv hnext

end Simulation

end cs444.concurrency3.nodes
