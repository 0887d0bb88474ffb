import Cs444.Lib.Interleaving

open interleaving

open Function

namespace cs444.concurrency3

/-- The new node goes to the end of the list. -/
def insert_node (list : List Int) (val : Int) : List Int :=
  list ++ [val]

/-- The first node with the value goes. -/
def remove_node : List Int → Int → List Int
  | [], _ => []
  | data :: next, val => if data = val then next else data :: remove_node next val

def search_by_value : List Int → Int → Bool
  | [], _ => false
  | data :: next, val => if data = val then true else search_by_value next val

/-- Where a searcher is. `print` has the result of its search. -/
inductive Searcher where
  | read_wait
  | search
  | print (result : Bool)
  | read_post
  | returned
deriving DecidableEq

/-- Where an inserter is, with its loop variable. -/
inductive Inserter where
  | write_wait
  | insert (t : Nat)
  | write_post
  | returned
deriving DecidableEq

/-- Where a deleter is, with the loop variable of the loop it is in. -/
inductive Deleter where
  | write_wait
  | read_wait (t : Nat)
  | remove
  | read_post (t : Nat)
  | write_post
  | returned
deriving DecidableEq

/-- The globals of the program, and where its threads are. -/
structure State (S I D : Nat) where
  read_sem : Nat
  write_sem : Nat
  list : List Int
  searcher : Fin S → Searcher
  inserter : Fin I → Inserter
  deleter : Fin D → Deleter

variable {S I D : Nat}

/-- `main` has initialised the semaphores, with `R` in place of `NUM_SEARCHERS`. A thread that
    is not created yet has not moved. -/
def initial (R S I D : Nat) : State S I D where
  read_sem := R
  write_sem := 1
  list := []
  searcher _ := .read_wait
  inserter _ := .write_wait
  deleter _ := .write_wait

/-- A step of a thread, with the value it has drawn. -/
inductive Move (S I D : Nat) where
  | searcher (i : Fin S) (val : Int)
  | inserter (i : Fin I) (val : Int)
  | deleter (i : Fin D) (val : Int)
deriving DecidableEq

def searcher_next (s : State S I D) (i : Fin S) (val : Int) : Option (State S I D) :=
  match s.searcher i with
  | .read_wait =>
    if 0 < s.read_sem then
      some { s with read_sem := s.read_sem - 1, searcher := update s.searcher i .search }
    else none
  | .search =>
    some { s with searcher := update s.searcher i (.print (search_by_value s.list val)) }
  | .print _ => some { s with searcher := update s.searcher i .read_post }
  | .read_post =>
    some { s with read_sem := s.read_sem + 1, searcher := update s.searcher i .returned }
  | .returned => none

/-- The head of the loop in `inserter`. -/
def insert_loop (t : Nat) : Inserter :=
  if t < 5 then .insert t else .write_post

def inserter_next (s : State S I D) (i : Fin I) (val : Int) : Option (State S I D) :=
  match s.inserter i with
  | .write_wait =>
    if 0 < s.write_sem then
      some { s with write_sem := s.write_sem - 1, inserter := update s.inserter i (insert_loop 0) }
    else none
  | .insert t =>
    some { s with
      list := insert_node s.list val
      inserter := update s.inserter i (insert_loop (t + 1)) }
  | .write_post =>
    some { s with write_sem := s.write_sem + 1, inserter := update s.inserter i .returned }
  | .returned => none

/-- The head of the loop in which a deleter takes all `R` read permits. -/
def wait_loop (R t : Nat) : Deleter :=
  if t < R then .read_wait t else .remove

/-- The head of the loop in which a deleter gives the read permits back. -/
def post_loop (R t : Nat) : Deleter :=
  if t < R then .read_post t else .write_post

def deleter_next (R : Nat) (s : State S I D) (i : Fin D) (val : Int) : Option (State S I D) :=
  match s.deleter i with
  | .write_wait =>
    if 0 < s.write_sem then
      some { s with write_sem := s.write_sem - 1, deleter := update s.deleter i (wait_loop R 0) }
    else none
  | .read_wait t =>
    if 0 < s.read_sem then
      some { s with
        read_sem := s.read_sem - 1
        deleter := update s.deleter i (wait_loop R (t + 1)) }
    else none
  | .remove =>
    some { s with
      list := remove_node s.list val
      deleter := update s.deleter i (post_loop R 0) }
  | .read_post t =>
    some { s with
      read_sem := s.read_sem + 1
      deleter := update s.deleter i (post_loop R (t + 1)) }
  | .write_post =>
    some { s with write_sem := s.write_sem + 1, deleter := update s.deleter i .returned }
  | .returned => none

def next (R : Nat) (s : State S I D) : Move S I D → Option (State S I D)
  | .searcher i val => searcher_next s i val
  | .inserter i val => inserter_next s i val
  | .deleter i val => deleter_next R s i val

end cs444.concurrency3
