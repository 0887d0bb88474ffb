import Cs444.Lib.Rings
import Cs444.Lib.Checked
import Mathlib.Algebra.Ring.Nat
import Mathlib.Algebra.Ring.Int.Defs
import Mathlib.Data.Fintype.Basic

open linked

namespace cs444.plist

/-- The two places that have a `node_list`: a `plist_head` and a `plist_node`. -/
inductive list_head (H ν : Type) where
  | head (head : H)
  | node (node : ν)
  deriving DecidableEq

/-- The fields of all `plist_head`s and `plist_node`s, and whether a `WARN` has been printed. -/
structure Mem (H ν : Type) where
  prio : ν → Nat
  prio_list : Links ν
  node_list : Links (list_head H ν)
  warned : Bool

/-- Why a function does not return: a `BUG_ON`, a `list_entry` of a `list_head` that is in no node, or a loop
    that goes on longer than the fuel allows. -/
inductive Stop where
  | BUG_ON
  | list_entry
  | fuel
  deriving DecidableEq

variable {H ν : Type} [DecidableEq H] [DecidableEq ν]

section Header

def list_entry : list_head H ν → Except Stop ν
  | .node node => .ok node
  | .head _ => .error .list_entry

def plist_head_init (m : Mem H ν) (head : H) : Mem H ν :=
  { m with node_list := m.node_list.INIT_LIST_HEAD (.head head) }

def plist_node_init (m : Mem H ν) (node : ν) (prio : Nat) : Mem H ν :=
  { m with
    prio := Function.update m.prio node prio
    prio_list := m.prio_list.INIT_LIST_HEAD node
    node_list := m.node_list.INIT_LIST_HEAD (.node node) }

def plist_head_empty (m : Mem H ν) (head : H) : Bool :=
  m.node_list.list_empty (.head head)

def plist_node_empty (m : Mem H ν) (node : ν) : Bool :=
  m.node_list.list_empty (.node node)

omit [DecidableEq H] [DecidableEq ν] in
def plist_first (m : Mem H ν) (head : H) : Except Stop ν :=
  list_entry (m.node_list.next (.head head))

/-- The nodes that `plist_for_each` goes over, with their priorities. -/
def plist_for_each (fuel : Nat) (m : Mem H ν) (head : H) : Option (List (Nat × ν)) :=
  (m.node_list.walk (.head head) fuel (.head head)).bind fun l =>
    l.mapM fun pos => (list_entry pos).toOption.map fun node => (m.prio node, node)

end Header

section Check

omit [DecidableEq H] [DecidableEq ν] in
def Mem.WARN_ON (m : Mem H ν) (condition : Bool) : Mem H ν :=
  { m with warned := m.warned || condition }

/-- Whether the two do not point at each other, in which case there is a `WARN`. -/
def plist_check_prev_next (l : Links ν) (p n : ν) : Bool :=
  decide (l.prev n ≠ p ∨ l.next p ≠ n)

/-- The loop of `plist_check_list`. -/
def plist_check_next (l : Links ν) (top : ν) : Nat → ν → Except Stop Bool
  | 0, _ => .error .fuel
  | fuel + 1, next =>
    if next = top then .ok false
    else do
      let warned ← plist_check_next l top fuel (l.next next)
      return plist_check_prev_next l next (l.next next) || warned

def plist_check_list (fuel : Nat) (l : Links ν) (top : ν) : Except Stop Bool := do
  let warned ← plist_check_next l top fuel (l.next top)
  return plist_check_prev_next l top (l.next top) || warned

/-- `plist_check_head` of the debugging configuration, without its test of the lock. -/
def plist_check_head (fuel : Nat) (m : Mem H ν) (head : H) : Except Stop (Mem H ν) := do
  let m ← if plist_head_empty m head then pure m else do
    let first ← plist_first m head
    let warned ← plist_check_list fuel m.prio_list first
    pure (m.WARN_ON warned)
  let warned ← plist_check_list fuel m.node_list (.head head)
  return m.WARN_ON warned

end Check

section Lists

/-- The loop of `plist_add`. It leaves `node_next`, `iter` and `prev`, which is none for `NULL`. -/
def plist_add_iter (m : Mem H ν) (node : ν) (head : H) (first : ν) :
    Nat → ν → Option ν → Except Stop (list_head H ν × ν × Option ν)
  | 0, _, _ => .error .fuel
  | fuel + 1, iter, prev =>
    if m.prio node < m.prio iter then .ok (.node iter, iter, prev)
    else if m.prio_list.next iter = first then .ok (.head head, m.prio_list.next iter, some iter)
    else plist_add_iter m node head first fuel (m.prio_list.next iter) (some iter)

/-- `plist_add` between its two checks of the lists. -/
def plist_insert (fuel : Nat) (m : Mem H ν) (node : ν) (head : H) : Except Stop (Mem H ν) :=
  if plist_head_empty m head then
    .ok { m with node_list := m.node_list.list_add_tail (.node node) (.head head) }
  else do
    let first ← plist_first m head
    let (node_next, iter, prev) ← plist_add_iter m node head first fuel first none
    -- the first node of its priority
    let prio_list := if prev.all (fun prev => m.prio prev ≠ m.prio node) then m.prio_list.list_add_tail node iter
      else m.prio_list
    return { m with prio_list, node_list := m.node_list.list_add_tail (.node node) node_next }

def plist_add (fuel : Nat) (m : Mem H ν) (node : ν) (head : H) : Except Stop (Mem H ν) := do
  let m ← plist_check_head fuel m head
  let m := m.WARN_ON (!plist_node_empty m node)
  let m := m.WARN_ON (!m.prio_list.list_empty node)
  let m ← plist_insert fuel m node head
  plist_check_head fuel m head

/-- The part of `plist_del` that takes a node out of its `prio_list`, after the next node has been put in. -/
def plist_del_prio (m : Mem H ν) (node : ν) (head : H) : Except Stop (Links ν) :=
  if m.prio_list.list_empty node then .ok m.prio_list
  else if m.node_list.next (.node node) = .head head then .ok (m.prio_list.list_del_init node)
  else do
    let next ← list_entry (m.node_list.next (.node node))
    let prio_list := if m.prio_list.list_empty next then m.prio_list.list_add next node else m.prio_list
    return prio_list.list_del_init node

def plist_del (fuel : Nat) (m : Mem H ν) (node : ν) (head : H) : Except Stop (Mem H ν) := do
  let m ← plist_check_head fuel m head
  let prio_list ← plist_del_prio m node head
  plist_check_head fuel { m with prio_list, node_list := m.node_list.list_del_init (.node node) } head

end Lists

section Pushable

/-- `enqueue_pushable_task` of a task with this priority. -/
def enqueue_pushable_task (fuel : Nat) (m : Mem H ν) (rq : H) (p : ν) (prio : Nat) : Except Stop (Mem H ν) := do
  let m ← plist_del fuel m p rq
  plist_add fuel (plist_node_init m p prio) p rq

def dequeue_pushable_task (fuel : Nat) (m : Mem H ν) (rq : H) (p : ν) : Except Stop (Mem H ν) :=
  plist_del fuel m p rq

def has_pushable_tasks (m : Mem H ν) (rq : H) : Bool :=
  !plist_head_empty m rq

end Pushable

section Test

/-- The loop of `plist_test_check`. It leaves `nr_expect` and `prio_pos`. -/
def plist_test_pos (m : Mem H ν) (head : H) (first : ν) :
    Nat → list_head H ν → ν → Int → Except Stop (Int × ν)
  | 0, _, _, _ => .error .fuel
  | fuel + 1, pos, prio_pos, nr_expect =>
    if pos = .head head then .ok (nr_expect, prio_pos)
    else do
      let node_pos ← list_entry pos
      if nr_expect < 0 then return (nr_expect - 1, prio_pos)
      else if node_pos = first then
        plist_test_pos m head first fuel (m.node_list.next pos) prio_pos (nr_expect - 1)
      else if m.prio node_pos = m.prio prio_pos then
        if !m.prio_list.list_empty node_pos then throw .BUG_ON
        else plist_test_pos m head first fuel (m.node_list.next pos) prio_pos (nr_expect - 1)
      else if m.prio prio_pos > m.prio node_pos then throw .BUG_ON
      else if m.prio_list.next prio_pos ≠ node_pos then throw .BUG_ON
      else plist_test_pos m head first fuel (m.node_list.next pos) node_pos (nr_expect - 1)

def plist_test_check (fuel : Nat) (m : Mem H ν) (head : H) (nr_expect : Int) : Except Stop Unit :=
  if plist_head_empty m head then
    if nr_expect ≠ 0 then throw .BUG_ON else pure ()
  else do
    let first ← plist_first m head
    let (nr_expect, prio_pos) ← plist_test_pos m head first fuel (m.node_list.next (.head head)) first nr_expect
    if nr_expect ≠ 0 then throw .BUG_ON
    if m.prio_list.next prio_pos ≠ first then throw .BUG_ON

/-- The number of nodes in `test_node`. -/
def ARRAY_SIZE : Nat := 241

/-- The next pseudo-random number, an `unsigned int`. -/
def plist_test_random (r : Nat) : Nat := r * 193939 % 2 ^ 32 % 47629

theorem plist_test_index (r : Nat) : r % ARRAY_SIZE < ARRAY_SIZE :=
  Nat.mod_lt _ (Nat.succ_pos _)

/-- One round of the first loop of `plist_test`, on the lists, `r` and `nr_expect`. -/
def plist_test_round (fuel : Nat) (s : Mem Unit (Fin ARRAY_SIZE) × Nat × Int) :
    Except Stop (Mem Unit (Fin ARRAY_SIZE) × Nat × Int) := do
  let (m, r, nr_expect) := s
  let r := plist_test_random r
  let i : Fin ARRAY_SIZE := ⟨r % ARRAY_SIZE, plist_test_index r⟩
  let (m, r, nr_expect) ← if plist_node_empty m i then do
      let r := plist_test_random r
      let m ← plist_add fuel { m with prio := Function.update m.prio i (r % 99) } i ()
      pure (m, r, nr_expect + 1)
    else do
      let m ← plist_del fuel m i ()
      pure (m, r, nr_expect - 1)
  plist_test_check fuel m () nr_expect
  return (m, r, nr_expect)

def plist_test_loop (fuel : Nat) : Nat → Mem Unit (Fin ARRAY_SIZE) × Nat × Int →
    Except Stop (Mem Unit (Fin ARRAY_SIZE) × Nat × Int)
  | 0, s => .ok s
  | loop + 1, s => do
    let s ← plist_test_round fuel s
    plist_test_loop fuel loop s

/-- The second loop of `plist_test`, which takes all nodes off again. -/
def plist_test_clear (fuel : Nat) : List (Fin ARRAY_SIZE) → Mem Unit (Fin ARRAY_SIZE) × Int →
    Except Stop (Mem Unit (Fin ARRAY_SIZE) × Int)
  | [], s => .ok s
  | i :: nodes, (m, nr_expect) =>
    if plist_node_empty m i then plist_test_clear fuel nodes (m, nr_expect)
    else do
      let m ← plist_del fuel m i ()
      plist_test_check fuel m () (nr_expect - 1)
      plist_test_clear fuel nodes (m, nr_expect - 1)

/-- `plist_test`, on whatever the memory holds, at this time of the clock. It leaves the lists and
    `nr_expect`. -/
def plist_test (fuel : Nat) (m : Mem Unit (Fin ARRAY_SIZE)) (local_clock : Nat) :
    Except Stop (Mem Unit (Fin ARRAY_SIZE) × Int) := do
  let m := (List.finRange ARRAY_SIZE).foldl (fun m i => plist_node_init m i 0) (plist_head_init m ())
  let (m, _, nr_expect) ← plist_test_loop fuel 1000 (m, local_clock % 2 ^ 32, 0)
  plist_test_clear fuel (List.finRange ARRAY_SIZE) (m, nr_expect)

end Test

end cs444.plist
