import Cs444.Lib.Ring

namespace cs444.sstf

/-- `sector_t`, 64 bits wide under `CONFIG_LBDAF`. -/
abbrev sector_t := BitVec 64

/-- A block request: which one it is, and the sector `blk_rq_pos` reads from it. -/
structure request where
  id : Nat
  sector : sector_t
deriving DecidableEq, Repr

/-- The scheduler's data. `queue` holds the requests from the list head on. `enqueue`
    is the cursor; it points at a request or, as `none`, at the list head itself. -/
structure sstf_data where
  queue : List request
  enqueue : Option request
  queue_count : Int

/-- `blk_rq_pos(list_entry(pos, struct request, queuelist))`. At the list head this
    reads memory outside any request; `head` is the value found there. -/
def blk_rq_pos (head : sector_t) : Option request → sector_t
  | none => head
  | some rq => rq.sector

/-- `abs(x)` for an `unsigned long` argument of 32 bits. -/
def abs (x : BitVec 32) : BitVec 32 :=
  if x.slt 0 then -x else x

/-- `abs(curr - next)` on the sectors cast to `unsigned long`. -/
def distance (a b : sector_t) : BitVec 32 :=
  abs (a.setWidth 32 - b.setWidth 32)

/-- `list_del_init`. Unlinking the list head leaves an empty list; the entries stay
    linked to one another, but from the head they are gone. -/
def list_del_init (queue : List request) : Option request → List request
  | none => []
  | some rq => queue.erase rq

namespace sstf_data

/-- The neighbour the cursor moves to: the previous entry of the ring if its sector is
    strictly closer than that of the next one, else the next. -/
def neighbour (nd : sstf_data) (head : sector_t) : Option request :=
  let prev := ring.prev nd.queue nd.enqueue
  let next := ring.next nd.queue nd.enqueue
  let curr := blk_rq_pos head nd.enqueue
  if distance curr (blk_rq_pos head prev) < distance curr (blk_rq_pos head next) then prev else next

end sstf_data

/-- `sstf_dispatch`. The first part of the result is what is handed to
    `elv_dispatch_sort` if the call returns 1, and `none` if it returns 0. The test
    for a null `rq` is left out: the cursor of a non-empty queue is set. -/
def sstf_dispatch (nd : sstf_data) (head : sector_t) : Option (Option request) × sstf_data :=
  if nd.queue = [] then (none, nd)
  else
    let rq := nd.enqueue
    if nd.queue_count = 1 then
      (some rq, { nd with queue := list_del_init nd.queue rq, queue_count := nd.queue_count - 1 })
    else
      (some rq,
        { queue := list_del_init nd.queue rq
          enqueue := nd.neighbour head
          queue_count := nd.queue_count - 1 })

/-- The loop of `sstf_add_request`: the entry behind which the new request goes. On
    line 129 `position` is read as the loop cursor. -/
def add_position (queue_count : Int) (new_req_sector head : sector_t) : List request → Option request
  | [] => none
  | curr :: rest =>
    if queue_count = 1 then some curr
    else if new_req_sector ≤ blk_rq_pos head rest.head? ∧ curr.sector ≤ new_req_sector then some curr
    else add_position queue_count new_req_sector head rest

def sstf_add_request (nd : sstf_data) (rq : request) (head : sector_t) : sstf_data :=
  if nd.queue = [] then
    { queue := [rq], enqueue := some rq, queue_count := nd.queue_count + 1 }
  else
    match add_position nd.queue_count rq.sector head nd.queue with
    | some pos => { nd with queue := ring.addAfter nd.queue rq (some pos), queue_count := nd.queue_count + 1 }
    | none => { nd with queue := nd.queue ++ [rq], queue_count := nd.queue_count + 1 }

/-- `sstf_init_queue`, given what `kmalloc_node` returns. The cursor is not set. -/
def sstf_init_queue (nd : Option sstf_data) : Option sstf_data :=
  nd.map fun nd => { nd with queue := [], queue_count := 0 }

/-- `sstf_exit_queue` with its `BUG_ON`. -/
def sstf_exit_queue (nd : sstf_data) : Except String Unit :=
  if nd.queue ≠ [] then .error "BUG_ON(!list_empty(&nd->queue))" else .ok ()

/-- The scheduler with the requests it was given and those it handed on, each in order.
    An entry `none` of `dispatched` is the list head passed off as a request. -/
structure State where
  nd : sstf_data
  added : List request
  dispatched : List (Option request)

/-- The calls of the block layer, with the value read as the sector of the list head. -/
inductive Call where
  | add (rq : request) (head : sector_t)
  | dispatch (head : sector_t)

def step (s : State) : Call → State
  | .add rq head => { s with nd := sstf_add_request s.nd rq head, added := s.added ++ [rq] }
  | .dispatch head =>
    let r := sstf_dispatch s.nd head
    { s with nd := r.2, dispatched := s.dispatched ++ r.1.toList }

def run (s : State) (cs : List Call) : State :=
  cs.foldl step s

/-- The state after `sstf_init_queue`. -/
structure Initial (s : State) : Prop where
  nd : ∃ nd, sstf_init_queue (some nd) = some s.nd
  added : s.added = []
  dispatched : s.dispatched = []

end cs444.sstf
