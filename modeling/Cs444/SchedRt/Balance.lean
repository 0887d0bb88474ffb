import Cs444.Lib.Locks
import Cs444.SchedRt.Running

open Function locks

namespace cs444.sched_rt.balance

section Phases

/-- Who has called the push or the pull that is under way. -/
inductive Caller where
  | pre_schedule_rt
  | post_schedule_rt
  | task_woken_rt
  | switched_from_rt
  | switched_to_rt (p : Nat)
  | prio_changed_rt (p : Nat)
deriving DecidableEq, Repr

/-- What the second lock is taken for. A push is for a task, with the tries of `find_lock_lowest_rq` that are
    left after this one. -/
inductive Purpose where
  | pull
  | push (task tries : Nat)
deriving DecidableEq, Repr

/-- What a CPU does next. In `hold` it is in the core scheduler with the lock of a run queue; the rest is
    inside `pull_rt_task` and `push_rt_task` for that run queue. `pull` and `push` are where these begin,
    `scan` and `hint` are in the loop of the pull, at a CPU of `rto_mask`. `trylock` to `second` are in
    `double_lock_balance`: `nested` spins on the second lock with the first one held, `first` spins on it
    after the first one was let go, and `second` spins on the first one again. In `locked` both are held.
    `find` is in the loop of `find_lock_lowest_rq`, and `again` follows it when no run queue was found. -/
inductive Phase where
  | out
  | hold (rq : Nat)
  | pull (rq : Nat) (caller : Caller)
  | scan (rq cpu : Nat) (caller : Caller)
  | hint (rq cpu : Nat) (caller : Caller)
  | trylock (rq busiest : Nat) (purpose : Purpose) (caller : Caller)
  | nested (rq busiest : Nat) (purpose : Purpose) (caller : Caller)
  | first (rq busiest : Nat) (purpose : Purpose) (caller : Caller)
  | second (rq busiest : Nat) (purpose : Purpose) (caller : Caller)
  | locked (rq busiest : Nat) (unlocked : Bool) (purpose : Purpose) (caller : Caller)
  | push (rq : Nat) (caller : Caller)
  | find (rq task tries : Nat) (caller : Caller)
  | again (rq task : Nat) (caller : Caller)
deriving DecidableEq, Repr

/-- The locks that the CPU has. -/
def Phase.held : Phase → List Nat
  | .out | .first .. => []
  | .hold rq | .pull rq _ | .scan rq _ _ | .hint rq _ _ | .trylock rq _ _ _ | .nested rq _ _ _ | .push rq _
  | .find rq _ _ _ | .again rq _ _ => [rq]
  | .second _ busiest _ _ => [busiest]
  | .locked rq busiest _ _ _ => [rq, busiest]

/-- The lock that the CPU spins on. -/
def Phase.waits : Phase → Option Nat
  | .nested _ busiest _ _ | .first _ busiest _ _ => some busiest
  | .second rq _ _ _ => some rq
  | _ => none

/-- The CPU is inside a push or a pull. -/
def Phase.busy : Phase → Bool
  | .out | .hold _ => false
  | _ => true

end Phases

section Machine

/-- The `WARN_ON`s of the push and the pull. -/
inductive Warning where
  | push_current
  | pull_current
  | pull_on_rq
deriving DecidableEq, Repr

/-- A task that was taken to another CPU, and the system as it was then. -/
structure Migration where
  task : Nat
  src : Nat
  dst : Nat
  before : System

/-- What the search for a CPU reads, and where the run queues are in memory. -/
structure Platform where
  topology : Topology
  addr : Nat → Nat
  addr_injective : Injective addr

/-- The system with the locks of the run queues. `queued` are the tasks on the queues of other classes. -/
structure Machine where
  sys : System
  queued : Nat → Bool
  lock : Nat → Option Nat
  pc : Nat → Phase
  warnings : List Warning
  migrations : List Migration

namespace Machine

/-- `p->on_rq`. -/
def on_rq (M : Machine) (p : Nat) : Bool := M.sys.on_rq p || M.queued p

def goto (M : Machine) (c : Nat) (phase : Phase) : Machine :=
  { M with pc := update M.pc c phase }

def raw_spin_lock (M : Machine) (c rq : Nat) : Machine :=
  { M with lock := update M.lock rq (some c) }

def raw_spin_unlock (M : Machine) (rq : Nat) : Machine :=
  { M with lock := update M.lock rq none }

def WARN_ON (M : Machine) (condition : Bool) (warning : Warning) : Machine :=
  if condition then { M with warnings := M.warnings ++ [warning] } else M

/-- `resched_task(rq->curr)`, under a condition. -/
def resched_if (M : Machine) (condition : Bool) (rq : Nat) : Machine :=
  if condition then { M with sys := M.sys.resched_curr rq } else M

/-- `deactivate_task`, `set_task_cpu` and `activate_task`. -/
def transfer (M : Machine) (a : Accounting) (src p dst : Nat) : Machine :=
  { M with sys := M.sys.transfer a src p dst, migrations := M.migrations ++ [⟨p, src, dst, M.sys⟩] }

/-- What the callers do when `push_rt_task` has returned `moved`, or `pull_rt_task` has returned. -/
def returned (M : Machine) (c rq : Nat) (moved : Bool) : Caller → Machine
  | .pre_schedule_rt | .switched_from_rt => M.goto c (.hold rq)
  | .post_schedule_rt => M.goto c (if moved then .push rq .post_schedule_rt else .hold rq)
  | .task_woken_rt => M.goto c (if moved then .push rq .task_woken_rt else .hold rq)
  | .switched_to_rt p =>
    let check_resched := !(moved && M.sys.task_cpu p != rq)
    (M.resched_if (check_resched && (M.sys.tasks p).prio < (M.sys.tasks (M.sys.rqs rq).curr).prio) rq).goto c (.hold rq)
  | .prio_changed_rt p =>
    (M.resched_if ((M.sys.tasks p).prio > ((M.sys.rqs rq).rt []).highest_prio_curr && (M.sys.rqs rq).curr == p) rq).goto
      c (.hold rq)

/-- `pull_rt_task` between `double_lock_balance` and `double_unlock_balance`. -/
def pull_locked (M : Machine) (a : Accounting) (this_cpu src_cpu : Nat) : Machine :=
  let src_rq := M.sys.cpu_rq src_cpu
  if (src_rq.rt []).rt_nr_running ≤ 1 then M
  else
    match pick_next_highest_task_rt src_rq (some this_cpu) with
    | none => M
    | some p =>
      if (M.sys.tasks p).prio < ((M.sys.rqs this_cpu).rt []).highest_prio_curr then
        let M := M.WARN_ON (p == src_rq.curr) .pull_current
        let M := M.WARN_ON (!M.on_rq p) .pull_on_rq
        if (M.sys.tasks p).prio < (M.sys.tasks src_rq.curr).prio then M else M.transfer a src_cpu p this_cpu
      else M

/-- `push_rt_task` from the label `retry` to `find_lock_lowest_rq`. -/
def retry (M : Machine) (c rq next_task : Nat) (caller : Caller) : Machine :=
  if next_task = (M.sys.rqs rq).curr then (M.WARN_ON true .push_current).returned c rq false caller
  else if (M.sys.tasks next_task).prio < (M.sys.tasks (M.sys.rqs rq).curr).prio then
    (M.resched_if true rq).returned c rq false caller
  else M.goto c (.find rq next_task RT_MAX_TRIES caller)

/-- What `find_lock_lowest_rq` asks when it had to let go of the lock. -/
def moved_away (M : Machine) (rq task lowest_rq : Nat) : Bool :=
  M.sys.task_cpu task != rq || !(M.sys.tasks task).cpus_allowed.contains lowest_rq || (M.sys.tasks task).on_cpu ||
    !M.on_rq task

/-- The end of a try of `find_lock_lowest_rq`, with both locks, and the push if it was the right one. -/
def push_locked (M : Machine) (a : Accounting) (c rq lowest_rq : Nat) (unlocked : Bool) (task tries : Nat)
    (caller : Caller) : Machine :=
  if unlocked && M.moved_away rq task lowest_rq then (M.raw_spin_unlock lowest_rq).goto c (.again rq task caller)
  else if ((M.sys.rqs lowest_rq).rt []).highest_prio_curr > (M.sys.tasks task).prio then
    (((M.transfer a rq task lowest_rq).resched_if true lowest_rq).raw_spin_unlock lowest_rq).returned c rq true caller
  else (M.raw_spin_unlock lowest_rq).goto c (.find rq task tries caller)

end Machine

/-- `find_lowest_rq`, with the mask that `cpupri_find` has filled in. -/
def find_lowest_rq_in (T : Topology) (S : System) (task : Nat) (lowest_mask : Option (List Nat)) : Option Nat :=
  let cpu := S.task_cpu task
  if !T.local_cpu_mask then none
  else if (S.tasks task).nr_cpus_allowed = 1 then none
  else
    match lowest_mask with
    | none => none
    | some lowest_mask =>
      if lowest_mask.contains cpu then some cpu
      else
        let this_cpu := if lowest_mask.contains T.smp_processor_id then some T.smp_processor_id else none
        (((T.for_each_domain cpu).findSome? (find_in_domain lowest_mask this_cpu)).or this_cpu).or lowest_mask.head?

variable (E : Platform)

/-- The next step of a CPU in a push or a pull. `lowest_mask` is what `cpupri_find` answers should it be
    called. What is done under the locks up to where the second one is let go is one step. -/
def Machine.advance (M : Machine) (c : Nat) (lowest_mask : Option (List Nat)) (a : Accounting) : Except Bug Machine :=
  match M.pc c with
  | .out | .hold _ => .ok M
  | .pull rq caller =>
    if M.sys.rd.rto_count = 0 then .ok (M.returned c rq false caller) else .ok (M.goto c (.scan rq 0 caller))
  | .scan rq cpu caller =>
    if cpu ≥ E.topology.nr_cpu_ids then .ok (M.returned c rq false caller)
    else if M.sys.rd.rto_mask cpu ∧ cpu ≠ rq then .ok (M.goto c (.hint rq cpu caller))
    else .ok (M.goto c (.scan rq (cpu + 1) caller))
  | .hint rq cpu caller =>
    if ((M.sys.rqs cpu).smp []).highest_prio_next ≥ ((M.sys.rqs rq).rt []).highest_prio_curr then
      .ok (M.goto c (.scan rq (cpu + 1) caller))
    else .ok (M.goto c (.trylock rq cpu .pull caller))
  | .trylock rq busiest purpose caller =>
    if M.lock busiest = none then .ok ((M.raw_spin_lock c busiest).goto c (.locked rq busiest false purpose caller))
    else if E.addr busiest < E.addr rq then .ok ((M.raw_spin_unlock rq).goto c (.first rq busiest purpose caller))
    else .ok (M.goto c (.nested rq busiest purpose caller))
  | .nested rq busiest purpose caller =>
    .ok ((M.raw_spin_lock c busiest).goto c (.locked rq busiest false purpose caller))
  | .first rq busiest purpose caller => .ok ((M.raw_spin_lock c busiest).goto c (.second rq busiest purpose caller))
  | .second rq busiest purpose caller => .ok ((M.raw_spin_lock c rq).goto c (.locked rq busiest true purpose caller))
  | .locked rq busiest _ .pull caller =>
    .ok (((M.pull_locked a rq busiest).raw_spin_unlock busiest).goto c (.scan rq (busiest + 1) caller))
  | .locked rq busiest unlocked (.push task tries) caller => .ok (M.push_locked a c rq busiest unlocked task tries caller)
  | .push rq caller =>
    if !((M.sys.rqs rq).smp []).overloaded then .ok (M.returned c rq false caller)
    else do
      match ← pick_next_pushable_task (M.sys.cpu_rq rq) M.sys.task_cpu M.on_rq with
      | none => return M.returned c rq false caller
      | some next_task => return M.retry c rq next_task caller
  | .find rq task tries caller =>
    match tries with
    | 0 => .ok (M.goto c (.again rq task caller))
    | tries + 1 =>
      match find_lowest_rq_in { E.topology with smp_processor_id := c } M.sys task lowest_mask with
      | none => .ok (M.goto c (.again rq task caller))
      | some cpu =>
        if cpu = rq then .ok (M.goto c (.again rq task caller))
        else .ok (M.goto c (.trylock rq cpu (.push task tries) caller))
  | .again rq next_task caller => do
    let task ← pick_next_pushable_task (M.sys.cpu_rq rq) M.sys.task_cpu M.on_rq
    if M.sys.task_cpu next_task = rq ∧ task = some next_task then
      let sys := M.sys.store rq (dequeue_pushable_task (M.sys.cpu_rq rq) next_task)
      return { M with sys }.returned c rq true caller
    else
      match task with
      | none => return M.returned c rq true caller
      | some task => return M.retry c rq task caller

end Machine

section Moves

/-- The callbacks in which tasks are pushed or pulled, or that look for a task to preempt. `need_resched` is the
    flag of the current task, `found` and `found_curr` are what `cpupri_find` answers for the two tasks. -/
inductive Entry where
  | pre_schedule_rt (prev : Nat)
  | post_schedule_rt
  | task_woken_rt (p : Nat) (need_resched : Bool)
  | switched_from_rt (p : Nat)
  | switched_to_rt (p : Nat)
  | prio_changed_rt (p oldprio : Nat)
  | check_preempt_curr_rt (p : Nat) (need_resched found found_curr : Bool)
  | yield_task_rt

namespace Machine

def requeue (M : Machine) (rq p : Nat) (head : Bool) : Machine :=
  { M with sys := M.sys.store rq (requeue_task_rt (M.sys.cpu_rq rq) p head) }

def check_preempt_equal_prio (M : Machine) (rq p : Nat) (found found_curr : Bool) : Machine :=
  if (M.sys.tasks (M.sys.rqs rq).curr).nr_cpus_allowed = 1 then M
  else if (M.sys.tasks p).nr_cpus_allowed ≠ 1 ∧ found then M
  else if !found_curr then M
  else (M.requeue rq p true).resched_if true rq

/-- A callback of the class on the CPU, for the run queue that it holds the lock of. -/
def enter (M : Machine) (c rq : Nat) : Entry → Machine
  | .pre_schedule_rt prev =>
    if rt_prio (M.sys.tasks prev).prio ∧ ((M.sys.rqs rq).rt []).highest_prio_curr > (M.sys.tasks prev).prio then
      M.goto c (.pull rq .pre_schedule_rt)
    else M
  | .post_schedule_rt => M.goto c (.push rq .post_schedule_rt)
  | .task_woken_rt p need_resched =>
    let curr := M.sys.tasks (M.sys.rqs rq).curr
    if !(M.sys.tasks p).on_cpu ∧ !need_resched ∧ ((M.sys.rqs rq).smp []).pushable_tasks ≠ [] ∧
        (M.sys.tasks p).nr_cpus_allowed > 1 ∧ rt_prio curr.prio ∧
        (curr.nr_cpus_allowed < 2 ∨ curr.prio < (M.sys.tasks p).prio) then
      M.goto c (.push rq .task_woken_rt)
    else M
  | .switched_from_rt p =>
    if M.on_rq p ∧ ((M.sys.rqs rq).rt []).rt_nr_running = 0 then M.goto c (.pull rq .switched_from_rt) else M
  | .switched_to_rt p =>
    if M.on_rq p ∧ (M.sys.rqs rq).curr ≠ p then
      if ((M.sys.rqs rq).smp []).overloaded then M.goto c (.push rq (.switched_to_rt p))
      else M.returned c rq false (.switched_to_rt p)
    else M
  | .prio_changed_rt p oldprio =>
    if !M.on_rq p then M
    else if (M.sys.rqs rq).curr = p then
      if oldprio < (M.sys.tasks p).prio then M.goto c (.pull rq (.prio_changed_rt p))
      else M.returned c rq false (.prio_changed_rt p)
    else M.resched_if ((M.sys.tasks p).prio < (M.sys.tasks (M.sys.rqs rq).curr).prio) rq
  | .check_preempt_curr_rt p need_resched found found_curr =>
    let curr := M.sys.tasks (M.sys.rqs rq).curr
    if (M.sys.tasks p).prio < curr.prio then M.resched_if true rq
    else if (M.sys.tasks p).prio = curr.prio ∧ !need_resched then M.check_preempt_equal_prio rq p found found_curr
    else M
  | .yield_task_rt => M.requeue rq (M.sys.rqs rq).curr false

end Machine

/-- What happens on a CPU: the core scheduler takes the lock of a run queue and lets go of it, makes a callback
    or one of those above, or another class puts a task on its queues or takes it off; and the CPU goes on in
    a push or a pull. -/
inductive Move where
  | lock (c rq : Nat)
  | unlock (c : Nat)
  | callback (c : Nat) (cb : Callback)
  | set_queued (c p : Nat) (queued : Bool)
  | enter (c : Nat) (entry : Entry)
  | go (c : Nat) (lowest_mask : Option (List Nat)) (a : Accounting)

variable (E : Platform)

def step (M : Machine) : Move → Except Bug Machine
  | .lock c rq => .ok ((M.raw_spin_lock c rq).goto c (.hold rq))
  | .unlock c =>
    match M.pc c with
    | .hold rq => .ok ((M.raw_spin_unlock rq).goto c .out)
    | _ => .ok M
  | .callback _ cb => do
    let sys ← M.sys.callback cb
    return { M with sys }
  | .set_queued _ p queued => .ok { M with queued := update M.queued p queued }
  | .enter c entry =>
    match M.pc c with
    | .hold rq => .ok (M.enter c rq entry)
    | _ => .ok M
  | .go c lowest_mask a => M.advance E c lowest_mask a

/-- A task is on the queues of one class at a time, the tasks of the other classes have no real-time priority,
    and none is given to another CPU while it is queued. -/
def Promised (queued : Nat → Bool) : Callback → Prop
  | .event (.call _ (.enqueue_task_rt p _)) => queued p = false
  | .event (.call _ (.set_task p t)) => queued p = true → MAX_RT_PRIO ≤ t.prio
  | .event (.set_task_cpu p _) => queued p = false
  | _ => True

/-- What `cpupri_find` fills in are CPUs on which the task may run. -/
def Phase.Answers (S : System) (lowest_mask : Option (List Nat)) : Phase → Prop
  | .find _ task _ _ => ∀ mask ∈ lowest_mask, ∀ b ∈ mask, b ∈ (S.tasks task).cpus_allowed ∧ b < E.topology.nr_cpu_ids
  | _ => True

/-- When a move can be made: a lock is taken when it is free, and the core scheduler makes callbacks for the run
    queue that it has locked, keeping its promises. -/
def Move.Valid (M : Machine) : Move → Prop
  | .lock c rq => M.pc c = .out ∧ M.lock rq = none ∧ rq < E.topology.nr_cpu_ids
  | .unlock c => ∃ rq, M.pc c = .hold rq
  | .callback c cb => cb.Valid M.sys ∧ cb.Orderly M.sys ∧ Promised M.queued cb ∧
      ∀ rq ∈ cb.rq M.sys, M.pc c = .hold rq
  | .set_queued c p queued => M.pc c = .hold (M.sys.task_cpu p) ∧
      (queued = true → M.sys.on_rq p = false ∧ MAX_RT_PRIO ≤ (M.sys.tasks p).prio)
  | .enter c _ => ∃ rq, M.pc c = .hold rq
  | .go c lowest_mask _ => (M.pc c).busy = true ∧ (∀ rq ∈ (M.pc c).waits, M.lock rq = none) ∧
      (M.pc c).Answers E M.sys lowest_mask

instance (queued : Nat → Bool) : (cb : Callback) → Decidable (Promised queued cb)
  | .event (.call _ (.enqueue_task_rt p _)) => inferInstanceAs (Decidable (queued p = false))
  | .event (.call _ (.set_task p t)) => inferInstanceAs (Decidable (queued p = true → MAX_RT_PRIO ≤ t.prio))
  | .event (.set_task_cpu p _) => inferInstanceAs (Decidable (queued p = false))
  | .event (.call _ (.dequeue_task_rt ..)) | .event (.call _ (.requeue_task_rt ..))
  | .event (.call _ (.update_curr_rt ..)) | .event (.call _ (.sched_rt_runtime_exceeded ..))
  | .event (.call _ (.do_sched_rt_period_timer ..)) | .event (.call _ (.set_curr ..))
  | .event (.call _ (.set_bandwidth ..)) | .event (.set_cpus_allowed_rt ..) | .event (.set_rq_online ..)
  | .event (.set_rq_offline ..) | .set_curr_task_rt .. | .put_prev_task_rt .. | .schedule .. =>
    inferInstanceAs (Decidable True)

instance (S : System) (lowest_mask : Option (List Nat)) : (phase : Phase) → Decidable (phase.Answers E S lowest_mask)
  | .find _ task _ _ => inferInstanceAs (Decidable (∀ mask ∈ lowest_mask, ∀ b ∈ mask,
      b ∈ (S.tasks task).cpus_allowed ∧ b < E.topology.nr_cpu_ids))
  | .out | .hold _ | .pull .. | .scan .. | .hint .. | .trylock .. | .nested .. | .first .. | .second .. | .locked ..
  | .push .. | .again .. => inferInstanceAs (Decidable True)

instance (phase : Phase) : Decidable (∃ rq, phase = .hold rq) :=
  match phase with
  | .hold rq => isTrue ⟨rq, rfl⟩
  | .out | .pull .. | .scan .. | .hint .. | .trylock .. | .nested .. | .first .. | .second .. | .locked .. | .push ..
  | .find .. | .again .. => isFalse (by simp)

instance (M : Machine) : (m : Move) → Decidable (m.Valid E M)
  | .lock c rq => inferInstanceAs (Decidable (M.pc c = .out ∧ M.lock rq = none ∧ rq < E.topology.nr_cpu_ids))
  | .unlock c => inferInstanceAs (Decidable (∃ rq, M.pc c = .hold rq))
  | .callback c cb => inferInstanceAs (Decidable (cb.Valid M.sys ∧ cb.Orderly M.sys ∧ Promised M.queued cb ∧
      ∀ rq ∈ cb.rq M.sys, M.pc c = .hold rq))
  | .set_queued c p queued => inferInstanceAs (Decidable (M.pc c = .hold (M.sys.task_cpu p) ∧
      (queued = true → M.sys.on_rq p = false ∧ MAX_RT_PRIO ≤ (M.sys.tasks p).prio)))
  | .enter c _ => inferInstanceAs (Decidable (∃ rq, M.pc c = .hold rq))
  | .go c lowest_mask _ => inferInstanceAs (Decidable ((M.pc c).busy = true ∧ (∀ rq ∈ (M.pc c).waits, M.lock rq = none) ∧
      (M.pc c).Answers E M.sys lowest_mask))

/-- Moves one after another, up to the first `BUG_ON`. -/
def run (M : Machine) (ms : List Move) : Except Bug Machine :=
  checked.run (step E) M ms

def ValidRun (M : Machine) (ms : List Move) : Prop :=
  checked.ValidRun (step E) (fun M m => m.Valid E M) M ms

instance (M : Machine) (ms : List Move) : Decidable (ValidRun E M ms) :=
  inferInstanceAs (Decidable (checked.ValidRun (step E) (fun M m => m.Valid E M) M ms))

/-- No task is queued, every CPU runs a task of its own, and none is in the scheduler. -/
structure Initial (M : Machine) : Prop where
  sys : M.sys.Initial
  running : Running M.sys
  queued : ∀ p, M.queued p = false
  lock : ∀ rq, M.lock rq = none
  pc : ∀ c, M.pc c = .out
  warnings : M.warnings = []
  migrations : M.migrations = []

end Moves

end cs444.sched_rt.balance
