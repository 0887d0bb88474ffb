import Cs444.Lib.Checked
import Cs444.SchedRt.Bandwidth
import Mathlib.Data.List.Dedup

open Function priotable

namespace cs444.sched_rt

set_option linter.style.nameCheck false

/-- The `BUG_ON`s of the functions below. `pick_next_rt_entity` is also for a marked queue without an
    entity, and `pick_next_task_rt` for a walk down the groups that does not end. -/
inductive Bug where
  | set_cpus_allowed_rt_task
  | set_cpus_allowed_rt_migratory
  | pick_next_rt_entity
  | pick_next_task_rt
  | pushable_task_cpu
  | pushable_task_current
  | pushable_nr_cpus_allowed
  | pushable_on_rq
  | pushable_rt_task
deriving DecidableEq, Repr

section Affinity

def cpumask_weight (mask : List Nat) : Nat := mask.dedup.length

/-- The part of `set_cpus_allowed_rt` about the pushable tasks. -/
def update_pushable (rq : rq) (p weight : Nat) : sched_rt.rq :=
  if rq.curr = p then rq
  else
    let rq := if (rq.tasks p).nr_cpus_allowed > 1 then dequeue_pushable_task rq p else rq
    if weight > 1 then enqueue_pushable_task rq p else rq

/-- The part of `set_cpus_allowed_rt` about `rt_nr_migratory`. -/
def update_migratory (rq : rq) (p weight : Nat) : Except Bug sched_rt.rq :=
  let root := rq.smp []
  if (rq.tasks p).nr_cpus_allowed ≤ 1 ∧ weight > 1 then
    .ok (rq.set_smp [] { root with rt_nr_migratory := root.rt_nr_migratory + 1 })
  else if (rq.tasks p).nr_cpus_allowed > 1 ∧ weight ≤ 1 then
    if root.rt_nr_migratory = 0 then .error .set_cpus_allowed_rt_migratory
    else .ok (rq.set_smp [] { root with rt_nr_migratory := root.rt_nr_migratory - 1 })
  else .ok rq

/-- `set_cpus_allowed_rt` on the run queue of the task, where `on_rq` is `p->on_rq`. -/
def set_cpus_allowed_rt (rq : rq) (on_rq : Bool) (p : Nat) (new_mask : List Nat) : Except Bug sched_rt.rq :=
  let weight := cpumask_weight new_mask
  let t := { rq.tasks p with cpus_allowed := new_mask, nr_cpus_allowed := weight }
  if !rt_prio (rq.tasks p).prio then .error .set_cpus_allowed_rt_task
  else if on_rq ∧ weight ≠ (rq.tasks p).nr_cpus_allowed then do
    let rq ← update_migratory (update_pushable rq p weight) p weight
    let rq := update_rt_migration rq
    return { rq with tasks := update rq.tasks p t }
  else .ok { rq with tasks := update rq.tasks p t }

end Affinity

section Picking

def pick_next_rt_entity (rt_rq : rt_rq) : Except Bug sched_rt_entity :=
  let idx := sched_find_first_bit rt_rq.active
  if idx ≥ MAX_RT_PRIO then .error .pick_next_rt_entity
  else
    match rt_rq.active.queue idx with
    | [] => .error .pick_next_rt_entity
    | next :: _ => .ok next

/-- The loop of `_pick_next_task_rt`, down the groups from `g`. -/
def pick_loop (rq : rq) : Nat → task_group → Except Bug Nat
  | 0, _ => .error .pick_next_task_rt
  | n + 1, g => do
    match ← pick_next_rt_entity (rq.rt g) with
    | .task p => return p
    | .group i parent => pick_loop rq n (i :: parent)

/-- `_pick_next_task_rt`. Every group the loop comes to has something queued, so it takes no more
    turns than there are such groups. -/
def _pick_next_task_rt (rq : rq) : Except Bug (Option Nat) :=
  if (rq.rt []).rt_nr_running = 0 then .ok none
  else if rt_rq_throttled (rq.rt []) then .ok none
  else (pick_loop rq rq.leaf_rt_rq_list.length []).map some

def pick_next_task_rt (rq : rq) : Except Bug (sched_rt.rq × Option Nat) := do
  match ← _pick_next_task_rt rq with
  | some p => return (dequeue_pushable_task rq p, some p)
  | none => return (rq, none)

def put_prev_task_rt (borrow : task_group → Nat) (delta_exec : Nat) (rq : rq) (p : Nat) : sched_rt.rq :=
  let rq := update_curr_rt borrow delta_exec rq
  if on_rt_rq rq (.task p) ∧ (rq.tasks p).nr_cpus_allowed > 1 then enqueue_pushable_task rq p else rq

def set_curr_task_rt (rq : rq) : sched_rt.rq :=
  dequeue_pushable_task rq rq.curr

/-- `pick_next_pushable_task`, with `task_cpu` and `on_rq` of the tasks. -/
def pick_next_pushable_task (rq : rq) (task_cpu : Nat → Nat) (on_rq : Nat → Bool) : Except Bug (Option Nat) :=
  match (rq.smp []).pushable_tasks with
  | [] => .ok none
  | (_, p) :: _ =>
    if rq.cpu ≠ task_cpu p then .error .pushable_task_cpu
    else if rq.curr = p then .error .pushable_task_current
    else if (rq.tasks p).nr_cpus_allowed ≤ 1 then .error .pushable_nr_cpus_allowed
    else if !on_rq p then .error .pushable_on_rq
    else if !rt_prio (rq.tasks p).prio then .error .pushable_rt_task
    else .ok (some p)

/-- A context switch: the current task is put back if it is a real-time task, and the next one is
    picked. `next` is what the other classes have to run if this one has nothing. -/
def schedule (borrow : task_group → Nat) (delta_exec next : Nat) (rq : rq) : Except Bug sched_rt.rq := do
  let prev := rq.curr
  let rq := if (rq.tasks prev).rt_class then put_prev_task_rt borrow delta_exec rq prev else rq
  let (rq, p) ← pick_next_task_rt rq
  let next := p.getD next
  let tasks := update rq.tasks prev { rq.tasks prev with on_cpu := false }
  return { rq with
    curr := next
    tasks := update tasks next { tasks next with on_cpu := true } }

end Picking

section System

/-- What `cpupri_set` records for a CPU that is offline, -1 as an `int`. -/
def CPUPRI_INVALID : Nat := 2 ^ 32 - 1

/-- The CPUs of a root domain with all tasks. -/
structure System where
  rqs : Nat → rq
  tasks : Nat → task_struct
  rd : root_domain
  span : List Nat
  scheduler_running : Bool
  on_rq : Nat → Bool
  task_cpu : Nat → Nat

namespace System

/-- The run queue of a CPU. The tasks and the root domain are those of the system. -/
def cpu_rq (S : System) (cpu : Nat) : rq :=
  { S.rqs cpu with cpu, tasks := S.tasks, rd := S.rd }

/-- Put a run queue in the place of that of a CPU. -/
def store (S : System) (cpu : Nat) (rq : rq) : System :=
  { S with rqs := update S.rqs cpu rq, tasks := rq.tasks, rd := rq.rd }

/-- The run queues of a group on all CPUs. -/
def group (S : System) (g : task_group) : Domain where
  rt_rq i := (S.rqs i).rt g
  results := []
  bug := false

/-- `for_each_rt_rq(rt_rq, iter, rq)` around what is done to the runtimes of a group. Groups do not
    share runtime, so that their order does not matter. -/
def for_each_rt_rq (S : System) (f : rt_bandwidth → Domain → Nat → Domain) (cpu : Nat) : System :=
  if !S.scheduler_running then S
  else
    { S with rqs := fun i =>
        { S.rqs i with rt := fun g => (f ((S.rqs cpu).bandwidth g) (S.group g) cpu).rt_rq i } }

def rq_online_rt (S : System) (cpu : Nat) : System :=
  let rq := S.cpu_rq cpu
  let S := if (rq.smp []).overloaded then S.store cpu (rt_set_overload rq) else S
  let S := S.for_each_rt_rq __enable_runtime cpu
  S.store cpu (cpupri_set (S.cpu_rq cpu) ((S.cpu_rq cpu).rt []).highest_prio_curr)

def rq_offline_rt (S : System) (cpu : Nat) : System :=
  let rq := S.cpu_rq cpu
  let S := if (rq.smp []).overloaded then S.store cpu (rt_clear_overload rq) else S
  let S := S.for_each_rt_rq (__disable_runtime S.span) cpu
  S.store cpu (cpupri_set (S.cpu_rq cpu) CPUPRI_INVALID)

/-- `set_rq_online`, as far as this class goes. -/
def set_rq_online (S : System) (cpu : Nat) : System :=
  let rq := S.cpu_rq cpu
  if !rq.online then (S.store cpu { rq with online := true }).rq_online_rt cpu else S

/-- `set_rq_offline`, as far as this class goes. -/
def set_rq_offline (S : System) (cpu : Nat) : System :=
  if (S.cpu_rq cpu).online then
    let S := S.rq_offline_rt cpu
    S.store cpu { S.cpu_rq cpu with online := false }
  else S

/-- `p->on_rq` after a call. -/
def on_rq_after (on_rq : Nat → Bool) : Call → Nat → Bool
  | .enqueue_task_rt p _ => update on_rq p true
  | .dequeue_task_rt p _ _ => update on_rq p false
  | _ => on_rq

end System

/-- What happens to the CPUs of a root domain. `call` is a call on one of them, and `set_task_cpu`
    gives a task to another CPU. -/
inductive Event where
  | call (cpu : Nat) (c : Call)
  | set_cpus_allowed_rt (p : Nat) (new_mask : List Nat)
  | set_rq_online (cpu : Nat)
  | set_rq_offline (cpu : Nat)
  | set_task_cpu (p cpu : Nat)

def System.step (S : System) : Event → Except Bug System
  | .call cpu c =>
    .ok { S.store cpu (sched_rt.step (S.cpu_rq cpu) c) with on_rq := System.on_rq_after S.on_rq c }
  | .set_cpus_allowed_rt p new_mask => do
    let rq ← sched_rt.set_cpus_allowed_rt (S.cpu_rq (S.task_cpu p)) (S.on_rq p) p new_mask
    return S.store (S.task_cpu p) rq
  | .set_rq_online cpu => .ok (S.set_rq_online cpu)
  | .set_rq_offline cpu => .ok (S.set_rq_offline cpu)
  | .set_task_cpu p cpu => .ok { S with task_cpu := update S.task_cpu p cpu }

/-- What callers promise: a task is enqueued and dequeued on its own CPU, it has a real-time priority
    when the class is called for it, and a queued task is not described anew or moved. -/
def Event.Valid (S : System) : Event → Prop
  | .call cpu (.enqueue_task_rt p _) => S.task_cpu p = cpu ∧ (S.tasks p).prio < MAX_RT_PRIO
  | .call cpu (.dequeue_task_rt p _ _) => S.task_cpu p = cpu
  | .call _ (.set_task p _) => S.on_rq p = false
  | .call _ _ => True
  | .set_cpus_allowed_rt p _ => (S.tasks p).prio < MAX_RT_PRIO
  | .set_rq_online _ => True
  | .set_rq_offline _ => True
  | .set_task_cpu p _ => S.on_rq p = false

instance (S : System) : (e : Event) → Decidable (e.Valid S)
  | .call cpu (.enqueue_task_rt p _) => inferInstanceAs (Decidable (S.task_cpu p = cpu ∧ (S.tasks p).prio < MAX_RT_PRIO))
  | .call cpu (.dequeue_task_rt p _ _) => inferInstanceAs (Decidable (S.task_cpu p = cpu))
  | .call _ (.set_task p _) => inferInstanceAs (Decidable (S.on_rq p = false))
  | .set_cpus_allowed_rt p _ => inferInstanceAs (Decidable ((S.tasks p).prio < MAX_RT_PRIO))
  | .set_task_cpu p _ => inferInstanceAs (Decidable (S.on_rq p = false))
  | .call _ (.requeue_task_rt ..) | .call _ (.update_curr_rt ..) | .call _ (.sched_rt_runtime_exceeded ..)
  | .call _ (.do_sched_rt_period_timer ..) | .call _ (.set_curr ..) | .call _ (.set_bandwidth ..)
  | .set_rq_online _ | .set_rq_offline _ => inferInstanceAs (Decidable True)

/-- A sequence of events, up to the first `BUG_ON`. -/
def System.run (S : System) (es : List Event) : Except Bug System :=
  checked.run System.step S es

/-- Every event is valid in the state it happens in. -/
def System.ValidRun (S : System) (es : List Event) : Prop :=
  checked.ValidRun System.step (fun S e => e.Valid S) S es

instance (S : System) (es : List Event) : Decidable (S.ValidRun es) :=
  inferInstanceAs (Decidable (checked.ValidRun System.step (fun S e => e.Valid S) S es))

/-- At boot no task is queued anywhere. -/
structure System.Initial (S : System) : Prop where
  runqueue : ∀ cpu, sched_rt.Initial (S.cpu_rq cpu)
  total : ∀ cpu, ((S.rqs cpu).smp []).rt_nr_total = 0
  migratory : ∀ cpu, ((S.rqs cpu).smp []).rt_nr_migratory = 0
  overloaded : ∀ cpu, ((S.rqs cpu).smp []).overloaded = false
  pushable : ∀ cpu, ((S.rqs cpu).smp []).pushable_tasks = []
  mask : ∀ cpu, S.rd.rto_mask cpu = false
  count : S.rd.rto_count = 0
  on_rq : ∀ p, S.on_rq p = false

end System

section Callbacks

/-- What the core scheduler has the class do. `schedule` is a context switch, and
    `put_prev_task_rt` and `set_curr_task_rt` are made around a change of the current task. -/
inductive Callback where
  | event (e : Event)
  | set_curr_task_rt (cpu : Nat)
  | put_prev_task_rt (cpu : Nat) (borrow : task_group → Nat) (delta_exec : Nat)
  | schedule (cpu : Nat) (borrow : task_group → Nat) (delta_exec next : Nat)

def System.callback (S : System) : Callback → Except Bug System
  | .event e => S.step e
  | .set_curr_task_rt cpu => .ok (S.store cpu (sched_rt.set_curr_task_rt (S.cpu_rq cpu)))
  | .put_prev_task_rt cpu borrow delta_exec =>
    .ok (S.store cpu (sched_rt.put_prev_task_rt borrow delta_exec (S.cpu_rq cpu) (S.cpu_rq cpu).curr))
  | .schedule cpu borrow delta_exec next => do
    let rq ← sched_rt.schedule borrow delta_exec next (S.cpu_rq cpu)
    return S.store cpu rq

/-- A task that is enqueued is of the class, and the current task changes in context switches only.
    No CPU goes online or offline: that unthrottles groups without putting them back. -/
def Event.Ordered (S : System) : Event → Prop
  | .call _ (.enqueue_task_rt p _) => (S.tasks p).rt_class = true
  | .call _ (.set_curr _) => False
  | .set_rq_online _ => False
  | .set_rq_offline _ => False
  | _ => True

/-- The order in which the core scheduler makes the callbacks. A task is put back outside of a
    context switch only when it has been dequeued, and what another class has to run is not of this
    class. -/
def Callback.Valid (S : System) : Callback → Prop
  | .event e => e.Valid S ∧ e.Ordered S
  | .set_curr_task_rt _ => True
  | .put_prev_task_rt cpu _ _ => on_rt_rq (S.cpu_rq cpu) (.task (S.cpu_rq cpu).curr) = false
  | .schedule _ _ _ next => (S.tasks next).rt_class = false

instance (S : System) : (e : Event) → Decidable (e.Ordered S)
  | .call _ (.enqueue_task_rt p _) => inferInstanceAs (Decidable ((S.tasks p).rt_class = true))
  | .call _ (.set_curr _) | .set_rq_online _ | .set_rq_offline _ => inferInstanceAs (Decidable False)
  | .call _ (.dequeue_task_rt ..) | .call _ (.requeue_task_rt ..) | .call _ (.update_curr_rt ..)
  | .call _ (.sched_rt_runtime_exceeded ..) | .call _ (.do_sched_rt_period_timer ..) | .call _ (.set_task ..)
  | .call _ (.set_bandwidth ..) | .set_cpus_allowed_rt .. | .set_task_cpu .. => inferInstanceAs (Decidable True)

instance (S : System) : (c : Callback) → Decidable (c.Valid S)
  | .event e => inferInstanceAs (Decidable (e.Valid S ∧ e.Ordered S))
  | .set_curr_task_rt _ => inferInstanceAs (Decidable True)
  | .put_prev_task_rt cpu _ _ =>
    inferInstanceAs (Decidable (on_rt_rq (S.cpu_rq cpu) (.task (S.cpu_rq cpu).curr) = false))
  | .schedule _ _ _ next => inferInstanceAs (Decidable ((S.tasks next).rt_class = false))

/-- A sequence of callbacks, up to the first `BUG_ON`. -/
def System.callbacks (S : System) (cs : List Callback) : Except Bug System :=
  checked.run System.callback S cs

def System.ValidCallbacks (S : System) (cs : List Callback) : Prop :=
  checked.ValidRun System.callback (fun S c => c.Valid S) S cs

instance (S : System) (cs : List Callback) : Decidable (S.ValidCallbacks cs) :=
  inferInstanceAs (Decidable (checked.ValidRun System.callback (fun S c => c.Valid S) S cs))

end Callbacks

end cs444.sched_rt
