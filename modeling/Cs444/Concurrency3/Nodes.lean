import Cs444.Concurrency3.Threads
import Cs444.Lib.Singly

open interleaving

open Function

namespace cs444.concurrency3.nodes

/-- `node_t`. A pointer to a node is its address, `none` if it is null. -/
structure node where
  data : Int
  next : Option Nat
deriving DecidableEq

/-- Where a searcher is. In `search_by_value` it is about to test `temp` and read its `data`, or
    to read its `next`. The search has returned when it comes to `print_list`. -/
inductive Searcher where
  | read_wait
  | search
  | walk (val : Int) (temp : Option Nat)
  | advance (val : Int) (temp : Nat)
  | print_list (val : Int) (result : Bool)
  | printing (val : Int) (result : Bool) (current : Option Nat)
  | read_post
  | returned
deriving DecidableEq

/-- Where an inserter is, with its loop variable. In `insert_node` it is about to read
    `temp->next` for the test of the loop, to read it for the step to the next node, to call
    `create_node`, or to link the new node. The list is assigned the new node if it was empty
    (`first`), else its old head (`store`). -/
inductive Inserter where
  | write_wait
  | insert (t : Nat)
  | scan (t : Nat) (val : Int) (head temp : Nat)
  | follow (t : Nat) (val : Int) (head temp : Nat)
  | create (t : Nat) (val : Int) (place : Option (Nat × Nat))
  | link (t : Nat) (val : Int) (head temp new_node : Nat)
  | first (t : Nat) (val : Int) (new_node : Nat)
  | store (t : Nat) (head : Nat)
  | print_list (t : Nat)
  | printing (t : Nat) (current : Option Nat)
  | write_post
  | returned
deriving DecidableEq

/-- Where a deleter is. In `remove_node` it has called itself for the nodes of `stack`, the last
    one first; it is about to read the `data` of `curr`, its `next` for the recursion, its `next`
    for `temp`, or to free it. When it returns, the calls assign their `next`, and the list is
    assigned at last. -/
inductive Deleter where
  | write_wait
  | read_wait (t : Nat)
  | remove
  | descend (val : Int) (stack : List Nat) (curr : Option Nat)
  | recurse (val : Int) (stack : List Nat) (curr : Nat)
  | take_next (val : Int) (stack : List Nat) (curr : Nat)
  | free (val : Int) (stack : List Nat) (curr : Nat) (temp : Option Nat)
  | assign (val : Int) (stack : List Nat) (result : Option Nat)
  | print_list
  | printing (current : Option Nat)
  | read_post (t : Nat)
  | write_post
  | returned
deriving DecidableEq

/-- The globals of the program, the nodes in memory and which of them are allocated, and where
    the threads are. What a freed node holds can still be read. -/
structure State (S I D : Nat) where
  read_sem : Nat
  write_sem : Nat
  list : Option Nat
  mem : Nat → node
  allocated : Nat → Bool
  searcher : Fin S → Searcher
  inserter : Fin I → Inserter
  deleter : Fin D → Deleter

variable {S I D : Nat}

/-- As `concurrency3.initial`; nothing is allocated, and memory is arbitrary. -/
def initial (R S I D : Nat) (mem : Nat → node) : State S I D where
  read_sem := R
  write_sem := 1
  list := none
  mem := mem
  allocated _ := false
  searcher _ := .read_wait
  inserter _ := .write_wait
  deleter _ := .write_wait

/-- A step of a thread, with the value it has drawn and the address `malloc` returns. -/
inductive Move (S I D : Nat) where
  | searcher (i : Fin S) (val : Int)
  | inserter (i : Fin I) (val : Int) (addr : Nat)
  | deleter (i : Fin D) (val : Int)
deriving DecidableEq

/-- Assign the `next` of a node. -/
def set_next (mem : Nat → node) (a : Nat) (next : Option Nat) : Nat → node :=
  update mem a { mem a with next }

def searcher_next (s : State S I D) (i : Fin S) (val : Int) : Option (State S I D) :=
  match s.searcher i with
  | .read_wait =>
    if 0 < s.read_sem then
      some { s with read_sem := s.read_sem - 1, searcher := update s.searcher i .search }
    else none
  | .search => some { s with searcher := update s.searcher i (.walk val s.list) }
  | .walk val none => some { s with searcher := update s.searcher i (.print_list val false) }
  | .walk val (some temp) =>
    if (s.mem temp).data = val then
      some { s with searcher := update s.searcher i (.print_list val true) }
    else some { s with searcher := update s.searcher i (.advance val temp) }
  | .advance val temp =>
    some { s with searcher := update s.searcher i (.walk val (s.mem temp).next) }
  | .print_list val result =>
    some { s with searcher := update s.searcher i (.printing val result s.list) }
  | .printing val result (some current) =>
    some { s with searcher := update s.searcher i (.printing val result (s.mem current).next) }
  | .printing _ _ none => some { s with searcher := update s.searcher i .read_post }
  | .read_post =>
    some { s with read_sem := s.read_sem + 1, searcher := update s.searcher i .returned }
  | .returned => none

/-- The head of the loop in `inserter`. -/
def insert_loop (t : Nat) : Inserter :=
  if t < 5 then .insert t else .write_post

/-- Where `insert_node` goes with its new node. -/
def created (t : Nat) (val : Int) (new_node : Nat) : Option (Nat × Nat) → Inserter
  | none => .first t val new_node
  | some (head, temp) => .link t val head temp new_node

/-- `malloc` returns any address that is not allocated, and does not fail. A step through a null
    pointer is not made. -/
def inserter_next (s : State S I D) (i : Fin I) (val : Int) (addr : Nat) : Option (State S I D) :=
  match s.inserter i with
  | .write_wait =>
    if 0 < s.write_sem then
      some { s with write_sem := s.write_sem - 1, inserter := update s.inserter i (insert_loop 0) }
    else none
  | .insert t =>
    match s.list with
    | none => some { s with inserter := update s.inserter i (.create t val none) }
    | some head => some { s with inserter := update s.inserter i (.scan t val head head) }
  | .scan t val head temp =>
    match (s.mem temp).next with
    | none => some { s with inserter := update s.inserter i (.create t val (some (head, temp))) }
    | some _ => some { s with inserter := update s.inserter i (.follow t val head temp) }
  | .follow t val head temp =>
    match (s.mem temp).next with
    | none => none
    | some temp => some { s with inserter := update s.inserter i (.scan t val head temp) }
  | .create t val place =>
    if s.allocated addr then none
    else
      some { s with
        mem := update s.mem addr { data := val, next := none }
        allocated := update s.allocated addr true
        inserter := update s.inserter i (created t val addr place) }
  | .link t _ head temp new_node =>
    some { s with
      mem := set_next s.mem temp (some new_node)
      inserter := update s.inserter i (.store t head) }
  | .first t _ new_node =>
    some { s with list := some new_node, inserter := update s.inserter i (.print_list t) }
  | .store t head =>
    some { s with list := some head, inserter := update s.inserter i (.print_list t) }
  | .print_list t => some { s with inserter := update s.inserter i (.printing t s.list) }
  | .printing t (some current) =>
    some { s with inserter := update s.inserter i (.printing t (s.mem current).next) }
  | .printing t none => some { s with inserter := update s.inserter i (insert_loop (t + 1)) }
  | .write_post =>
    some { s with write_sem := s.write_sem + 1, inserter := update s.inserter i .returned }
  | .returned => none

/-- The head of the loop in which a deleter takes all `R` read permits. -/
def wait_loop (R t : Nat) : Deleter :=
  if t < R then .read_wait t else .remove

/-- The head of the loop in which a deleter gives the read permits back. -/
def post_loop (R t : Nat) : Deleter :=
  if t < R then .read_post t else .write_post

def deleter_next (R : Nat) (s : State S I D) (i : Fin D) (val : Int) : Option (State S I D) :=
  match s.deleter i with
  | .write_wait =>
    if 0 < s.write_sem then
      some { s with write_sem := s.write_sem - 1, deleter := update s.deleter i (wait_loop R 0) }
    else none
  | .read_wait t =>
    if 0 < s.read_sem then
      some { s with
        read_sem := s.read_sem - 1
        deleter := update s.deleter i (wait_loop R (t + 1)) }
    else none
  | .remove => some { s with deleter := update s.deleter i (.descend val [] s.list) }
  | .descend val stack none => some { s with deleter := update s.deleter i (.assign val stack none) }
  | .descend val stack (some curr) =>
    if (s.mem curr).data = val then
      some { s with deleter := update s.deleter i (.take_next val stack curr) }
    else some { s with deleter := update s.deleter i (.recurse val stack curr) }
  | .recurse val stack curr =>
    some { s with deleter := update s.deleter i (.descend val (curr :: stack) (s.mem curr).next) }
  | .take_next val stack curr =>
    some { s with deleter := update s.deleter i (.free val stack curr (s.mem curr).next) }
  | .free val stack curr temp =>
    some { s with
      allocated := update s.allocated curr false
      deleter := update s.deleter i (.assign val stack temp) }
  | .assign val (curr :: stack) result =>
    some { s with
      mem := set_next s.mem curr result
      deleter := update s.deleter i (.assign val stack (some curr)) }
  | .assign _ [] result =>
    some { s with list := result, deleter := update s.deleter i .print_list }
  | .print_list => some { s with deleter := update s.deleter i (.printing s.list) }
  | .printing (some current) =>
    some { s with deleter := update s.deleter i (.printing (s.mem current).next) }
  | .printing none => some { s with deleter := update s.deleter i (post_loop R 0) }
  | .read_post t =>
    some { s with
      read_sem := s.read_sem + 1
      deleter := update s.deleter i (post_loop R (t + 1)) }
  | .write_post =>
    some { s with write_sem := s.write_sem + 1, deleter := update s.deleter i .returned }
  | .returned => none

def next (R : Nat) (s : State S I D) : Move S I D → Option (State S I D)
  | .searcher i val => searcher_next s i val
  | .inserter i val addr => inserter_next s i val addr
  | .deleter i val => deleter_next R s i val

/-- The list consists of nodes with these values. -/
def Holds (s : State S I D) (values : List Int) : Prop :=
  ∃ as, singly.Chain (fun a => (s.mem a).next) s.list as ∧ as.map (fun a => (s.mem a).data) = values

section History

/-- The threads that change the list. -/
inductive Writer (I D : Nat) where
  | inserter (i : Fin I)
  | deleter (i : Fin D)
deriving DecidableEq

/-- A call of `insert_node` or `remove_node`. -/
inductive Op where
  | insert (val : Int)
  | remove (val : Int)
deriving DecidableEq

/-- What a call does to a list when no other thread is there. -/
def Op.apply (list : List Int) : Op → List Int
  | .insert val => insert_node list val
  | .remove val => remove_node list val

inductive Event (I D : Nat) where
  | acquire (w : Writer I D)
  | call (w : Writer I D) (op : Op)
deriving DecidableEq

/-- A writer gets `write_sem`, or calls `insert_node` or `remove_node`. -/
def event (s : State S I D) : Move S I D → Option (Event I D)
  | .searcher _ _ => none
  | .inserter i val _ =>
    match s.inserter i with
    | .write_wait => some (.acquire (.inserter i))
    | .insert _ => some (.call (.inserter i) (.insert val))
    | _ => none
  | .deleter i val =>
    match s.deleter i with
    | .write_wait => some (.acquire (.deleter i))
    | .remove => some (.call (.deleter i) (.remove val))
    | _ => none

/-- The writers in the order in which they acquired `write_sem`. -/
def order (es : List (Event I D)) : List (Writer I D) :=
  es.filterMap fun e =>
    match e with
    | .acquire w => some w
    | .call _ _ => none

/-- The calls one writer made, in order. -/
def callsOf (es : List (Event I D)) (w : Writer I D) : List Op :=
  es.filterMap fun e =>
    match e with
    | .acquire _ => none
    | .call w' op => if w' = w then some op else none

/-- The list after the calls one after another, those of the first to acquire `write_sem` first. -/
def replay (es : List (Event I D)) : List Int :=
  ((order es).flatMap (callsOf es)).foldl Op.apply []

end History

end cs444.concurrency3.nodes
