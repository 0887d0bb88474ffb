import Cs444.Lib.PrioTable
import Mathlib.Algebra.Ring.Int.Defs
import Mathlib.Algebra.Ring.Nat

open Function priotable

namespace cs444.sched_rt

def MAX_RT_PRIO : Nat := 100

def RUNTIME_INF : Nat := 2 ^ 64 - 1

/-- Arithmetic on a `u64`. -/
def u64 (x : Nat) : Nat := x % 2 ^ 64

/-- A task group, named by its way up to the root group: `i :: parent` is the child number
    `i` of `parent`, and `[]` is the root. -/
abbrev task_group := List Nat

/-- A task, or what stands for a group other than the root in the queues of its parent. -/
inductive sched_rt_entity where
  | task (p : Nat)
  | group (i : Nat) (parent : task_group)
deriving DecidableEq, Repr

/-- A task. `rt_rq` is the group it is in, `rt_class` whether its class is the real-time
    one. -/
structure task_struct where
  prio : Nat
  normal_prio : Nat
  nr_cpus_allowed : Nat
  cpus_allowed : List Nat
  rt_rq : task_group
  rt_class : Bool
  on_cpu : Bool

/-- The run queue of a group on the CPU, without the fields of `CONFIG_SMP`. -/
structure rt_rq where
  active : Table sched_rt_entity
  rt_nr_running : Int
  highest_prio_curr : Nat
  rt_throttled : Bool
  rt_time : Nat
  rt_runtime : Nat
  rt_nr_boosted : Int

/-- The fields of a run queue that are there under `CONFIG_SMP`. Those after the first are
    used in the run queue of the root only. -/
structure rt_rq_smp where
  highest_prio_next : Nat
  rt_nr_migratory : Int
  rt_nr_total : Int
  overloaded : Bool
  pushable_tasks : List (Nat × Nat)

structure rt_bandwidth where
  rt_period : Nat
  rt_runtime : Nat

/-- What the CPU's root domain holds: the overloaded CPUs and their number, and the
    priority last recorded for each CPU by `cpupri_set`. -/
structure root_domain where
  rto_mask : Nat → Bool
  rto_count : Int
  cpupri : Nat → Nat

/-- The `WARN_ON`s. -/
inductive Warning where
  | inc_rt_tasks_prio
  | dec_rt_tasks_prio
  | dec_rt_tasks_empty
  | dec_rt_prio_order
  | dec_rt_group_boosted
deriving DecidableEq, Repr

/-- The run queue of the CPU, with the run queues of all groups, all tasks, and the
    warnings so far. -/
structure rq where
  cpu : Nat
  online : Bool
  curr : Nat
  idle : Nat
  skip_clock_update : Int
  tasks : Nat → task_struct
  need_resched : Nat → Bool
  rt : task_group → rt_rq
  smp : task_group → rt_rq_smp
  leaf_rt_rq_list : List task_group
  rd : root_domain
  bandwidth : task_group → rt_bandwidth
  bandwidth_enabled : Bool
  warnings : List Warning

section Basic

def rt_prio (prio : Nat) : Bool := prio < MAX_RT_PRIO

/-- The first occupied queue by the bitmap. The delimiter bit at `MAX_RT_PRIO` ends the
    search. -/
def sched_find_first_bit (array : Table sched_rt_entity) : Nat :=
  array.first MAX_RT_PRIO

def rt_rq_of_se (rq : rq) : sched_rt_entity → task_group
  | .task p => (rq.tasks p).rt_rq
  | .group _ parent => parent

/-- `my_q`: the run queue of the group the entity stands for. -/
def group_rt_rq : sched_rt_entity → Option task_group
  | .task _ => none
  | .group i parent => some (i :: parent)

/-- `tg->rt_se[cpu]`, null for the root. -/
def rt_se_of : task_group → Option sched_rt_entity
  | [] => none
  | i :: parent => some (.group i parent)

def on_rt_rq (rq : rq) (rt_se : sched_rt_entity) : Bool :=
  decide (rt_se ∈ (rq.rt (rt_rq_of_se rq rt_se)).active.entries MAX_RT_PRIO)

def rt_rq_throttled (rt_rq : rt_rq) : Bool :=
  rt_rq.rt_throttled && rt_rq.rt_nr_boosted == 0

def rt_se_boosted (rq : rq) : sched_rt_entity → Bool
  | .task p => (rq.tasks p).prio != (rq.tasks p).normal_prio
  | .group i parent => (rq.rt (i :: parent)).rt_nr_boosted != 0

def rt_se_prio (rq : rq) : sched_rt_entity → Nat
  | .task p => (rq.tasks p).prio
  | .group i parent => (rq.rt (i :: parent)).highest_prio_curr

def rq.set (rq : rq) (g : task_group) (rt_rq : rt_rq) : sched_rt.rq :=
  { rq with rt := update rq.rt g rt_rq }

def rq.set_smp (rq : rq) (g : task_group) (smp : rt_rq_smp) : sched_rt.rq :=
  { rq with smp := update rq.smp g smp }

def WARN_ON (rq : rq) (condition : Bool) (warning : Warning) : sched_rt.rq :=
  if condition then { rq with warnings := rq.warnings ++ [warning] } else rq

def resched_task (rq : rq) (p : Nat) : sched_rt.rq :=
  { rq with need_resched := update rq.need_resched p true }

def list_add_leaf_rt_rq (rq : rq) (g : task_group) : sched_rt.rq :=
  { rq with leaf_rt_rq_list := g :: rq.leaf_rt_rq_list }

def list_del_leaf_rt_rq (rq : rq) (g : task_group) : sched_rt.rq :=
  { rq with leaf_rt_rq_list := rq.leaf_rt_rq_list.filter (· ≠ g) }

end Basic

section Smp

def rt_set_overload (rq : rq) : sched_rt.rq :=
  if !rq.online then rq
  else
    { rq with
      rd.rto_mask := update rq.rd.rto_mask rq.cpu true
      rd.rto_count := rq.rd.rto_count + 1 }

def rt_clear_overload (rq : rq) : sched_rt.rq :=
  if !rq.online then rq
  else
    { rq with
      rd.rto_mask := update rq.rd.rto_mask rq.cpu false
      rd.rto_count := rq.rd.rto_count - 1 }

def update_rt_migration (rq : rq) : sched_rt.rq :=
  let root := rq.smp []
  if root.rt_nr_migratory ≠ 0 ∧ root.rt_nr_total > 1 then
    if !root.overloaded then (rt_set_overload rq).set_smp [] { root with overloaded := true } else rq
  else if root.overloaded then (rt_clear_overload rq).set_smp [] { root with overloaded := false }
  else rq

/-- What `inc_rt_migration` and `dec_rt_migration` do for a task, by `1` and by `-1`. -/
def add_rt_migration (rq : rq) (rt_se : sched_rt_entity) (n : Int) : sched_rt.rq :=
  match rt_se with
  | .group _ _ => rq
  | .task p =>
    let root := rq.smp []
    let migratory := if (rq.tasks p).nr_cpus_allowed > 1 then root.rt_nr_migratory + n else root.rt_nr_migratory
    update_rt_migration
      (rq.set_smp [] { root with rt_nr_total := root.rt_nr_total + n, rt_nr_migratory := migratory })

def inc_rt_migration (rq : rq) (rt_se : sched_rt_entity) : sched_rt.rq :=
  add_rt_migration rq rt_se 1

def dec_rt_migration (rq : rq) (rt_se : sched_rt_entity) : sched_rt.rq :=
  add_rt_migration rq rt_se (-1)

/-- `plist_add`: behind all nodes of the same or a higher priority. -/
def plist_add (node : Nat × Nat) (head : List (Nat × Nat)) : List (Nat × Nat) :=
  head.takeWhile (fun iter => decide (iter.1 ≤ node.1)) ++
    node :: head.dropWhile (fun iter => decide (iter.1 ≤ node.1))

def plist_del (p : Nat) (head : List (Nat × Nat)) : List (Nat × Nat) :=
  head.filter (fun iter => decide (iter.2 ≠ p))

def enqueue_pushable_task (rq : rq) (p : Nat) : sched_rt.rq :=
  rq.set_smp [] { rq.smp [] with
    pushable_tasks := plist_add ((rq.tasks p).prio, p) (plist_del p (rq.smp []).pushable_tasks) }

def dequeue_pushable_task (rq : rq) (p : Nat) : sched_rt.rq :=
  rq.set_smp [] { rq.smp [] with pushable_tasks := plist_del p (rq.smp []).pushable_tasks }

/-- `pick_rt_task`, where no `cpu` stands for a negative one. -/
def pick_rt_task (rq : rq) (p : Nat) (cpu : Option Nat) : Bool :=
  !(rq.tasks p).on_cpu && cpu.all (fun c => (rq.tasks p).cpus_allowed.contains c) &&
    decide ((rq.tasks p).nr_cpus_allowed > 1)

/-- The loop of `pick_next_highest_task_rt` over the set bits of one run queue, from the
    first one on. It goes on to the next bit only if no task has been found so far. -/
def next_idx (rq : rq) (cpu : Option Nat) (array : Table sched_rt_entity) :
    List Nat → Option Nat → Option Nat
  | [], next => next
  | idx :: bits, next =>
    if next.any (fun p => (rq.tasks p).prio < idx) then next
    else
      let found := (array.queue idx).findSome? fun rt_se =>
        match rt_se with
        | .task p => if pick_rt_task rq p cpu then some p else none
        | .group _ _ => none
      match found, next with
      | some p, _ => some p
      | none, some p => some p
      | none, none => next_idx rq cpu array bits none

def pick_next_highest_task_rt (rq : rq) (cpu : Option Nat) : Option Nat :=
  rq.leaf_rt_rq_list.foldl
    (fun next g =>
      let array := (rq.rt g).active
      next_idx rq cpu array ((List.range MAX_RT_PRIO).filter array.bitmap) next)
    none

def next_prio (rq : rq) : Nat :=
  match pick_next_highest_task_rt rq (some rq.cpu) with
  | some next => if rt_prio (rq.tasks next).prio then (rq.tasks next).prio else MAX_RT_PRIO
  | none => MAX_RT_PRIO

def cpupri_set (rq : rq) (prio : Nat) : sched_rt.rq :=
  { rq with rd.cpupri := update rq.rd.cpupri rq.cpu prio }

def inc_rt_prio_smp (rq : rq) (g : task_group) (prio prev_prio : Nat) : sched_rt.rq :=
  if prio < prev_prio then
    let rq := rq.set_smp g { rq.smp g with highest_prio_next := prev_prio }
    if rq.online then cpupri_set rq prio else rq
  else if prio = (rq.rt g).highest_prio_curr then
    rq.set_smp g { rq.smp g with highest_prio_next := prio }
  else if prio < (rq.smp g).highest_prio_next then
    rq.set_smp g { rq.smp g with highest_prio_next := next_prio rq }
  else rq

def dec_rt_prio_smp (rq : rq) (g : task_group) (prio prev_prio : Nat) : sched_rt.rq :=
  let rq :=
    if (rq.rt g).rt_nr_running ≠ 0 ∧ prio ≤ (rq.smp g).highest_prio_next then
      rq.set_smp g { rq.smp g with highest_prio_next := next_prio rq }
    else rq
  if rq.online ∧ (rq.rt g).highest_prio_curr ≠ prev_prio then cpupri_set rq (rq.rt g).highest_prio_curr else rq

end Smp

section Queue

set_option linter.style.nameCheck false

def inc_rt_prio (rq : rq) (g : task_group) (prio : Nat) : sched_rt.rq :=
  let prev_prio := (rq.rt g).highest_prio_curr
  let rq := if prio < prev_prio then rq.set g { rq.rt g with highest_prio_curr := prio } else rq
  inc_rt_prio_smp rq g prio prev_prio

def dec_rt_prio (rq : rq) (g : task_group) (prio : Nat) : sched_rt.rq :=
  let prev_prio := (rq.rt g).highest_prio_curr
  let rq :=
    if (rq.rt g).rt_nr_running ≠ 0 then
      let rq := WARN_ON rq (prio < prev_prio) .dec_rt_prio_order
      if prio = prev_prio then
        rq.set g { rq.rt g with highest_prio_curr := sched_find_first_bit (rq.rt g).active }
      else rq
    else rq.set g { rq.rt g with highest_prio_curr := MAX_RT_PRIO }
  dec_rt_prio_smp rq g prio prev_prio

/-- `inc_rt_group`. Arming the timer of the group's bandwidth changes no run queue. -/
def inc_rt_group (rq : rq) (rt_se : sched_rt_entity) (g : task_group) : sched_rt.rq :=
  if rt_se_boosted rq rt_se then rq.set g { rq.rt g with rt_nr_boosted := (rq.rt g).rt_nr_boosted + 1 } else rq

def dec_rt_group (rq : rq) (rt_se : sched_rt_entity) (g : task_group) : sched_rt.rq :=
  let rq :=
    if rt_se_boosted rq rt_se then rq.set g { rq.rt g with rt_nr_boosted := (rq.rt g).rt_nr_boosted - 1 } else rq
  WARN_ON rq ((rq.rt g).rt_nr_running == 0 && (rq.rt g).rt_nr_boosted != 0) .dec_rt_group_boosted

def inc_rt_tasks (rq : rq) (rt_se : sched_rt_entity) (g : task_group) : sched_rt.rq :=
  let prio := rt_se_prio rq rt_se
  let rq := WARN_ON rq (!rt_prio prio) .inc_rt_tasks_prio
  let rq := rq.set g { rq.rt g with rt_nr_running := (rq.rt g).rt_nr_running + 1 }
  let rq := inc_rt_prio rq g prio
  let rq := inc_rt_migration rq rt_se
  inc_rt_group rq rt_se g

def dec_rt_tasks (rq : rq) (rt_se : sched_rt_entity) (g : task_group) : sched_rt.rq :=
  let rq := WARN_ON rq (!rt_prio (rt_se_prio rq rt_se)) .dec_rt_tasks_prio
  let rq := WARN_ON rq ((rq.rt g).rt_nr_running == 0) .dec_rt_tasks_empty
  let rq := rq.set g { rq.rt g with rt_nr_running := (rq.rt g).rt_nr_running - 1 }
  let rq := dec_rt_prio rq g (rt_se_prio rq rt_se)
  let rq := dec_rt_migration rq rt_se
  dec_rt_group rq rt_se g

/-- The test on which a group is not queued: it is throttled, or empty. -/
def skipped (rq : rq) (rt_se : sched_rt_entity) : Bool :=
  match group_rt_rq rt_se with
  | none => false
  | some group_rq => rt_rq_throttled (rq.rt group_rq) || (rq.rt group_rq).rt_nr_running == 0

def __enqueue_rt_entity (rq : rq) (rt_se : sched_rt_entity) (head : Bool) : sched_rt.rq :=
  let g := rt_rq_of_se rq rt_se
  let prio := rt_se_prio rq rt_se
  if skipped rq rt_se then rq
  else
    let rq := if (rq.rt g).rt_nr_running = 0 then list_add_leaf_rt_rq rq g else rq
    let rq := rq.set g { rq.rt g with active := (rq.rt g).active.put head prio rt_se }
    inc_rt_tasks rq rt_se g

def __dequeue_rt_entity (rq : rq) (rt_se : sched_rt_entity) : sched_rt.rq :=
  let g := rt_rq_of_se rq rt_se
  let rq := rq.set g { rq.rt g with active := (rq.rt g).active.take (rt_se_prio rq rt_se) rt_se }
  let rq := dec_rt_tasks rq rt_se g
  if (rq.rt g).rt_nr_running = 0 then list_del_leaf_rt_rq rq g else rq

/-- The entities of a group and of the groups it is in, up to below the root. -/
def ancestors : task_group → List sched_rt_entity
  | [] => []
  | i :: parent => .group i parent :: ancestors parent

def for_each_sched_rt_entity (rq : rq) : sched_rt_entity → List sched_rt_entity
  | .task p => .task p :: ancestors (rq.tasks p).rt_rq
  | .group i parent => ancestors (i :: parent)

/-- One turn of the loop of `dequeue_rt_stack`. -/
def dequeue_if_on (rq : rq) (rt_se : sched_rt_entity) : sched_rt.rq :=
  if on_rt_rq rq rt_se then __dequeue_rt_entity rq rt_se else rq

/-- `dequeue_rt_stack`, from the top of the tree down to the entity. -/
def dequeue_rt_stack (rq : rq) (rt_se : sched_rt_entity) : sched_rt.rq :=
  (for_each_sched_rt_entity rq rt_se).reverse.foldl dequeue_if_on rq

def enqueue_rt_entity (rq : rq) (rt_se : sched_rt_entity) (head : Bool) : sched_rt.rq :=
  (for_each_sched_rt_entity rq rt_se).foldl (fun rq rt_se => __enqueue_rt_entity rq rt_se head)
    (dequeue_rt_stack rq rt_se)

/-- One turn of the loop of `dequeue_rt_entity`. -/
def enqueue_if_group (rq : rq) (rt_se : sched_rt_entity) : sched_rt.rq :=
  match group_rt_rq rt_se with
  | none => rq
  | some g => if (rq.rt g).rt_nr_running ≠ 0 then __enqueue_rt_entity rq rt_se false else rq

def dequeue_rt_entity (rq : rq) (rt_se : sched_rt_entity) : sched_rt.rq :=
  (for_each_sched_rt_entity rq rt_se).foldl enqueue_if_group (dequeue_rt_stack rq rt_se)

def requeue_rt_entity (rq : rq) (rt_se : sched_rt_entity) (head : Bool) : sched_rt.rq :=
  let g := rt_rq_of_se rq rt_se
  if on_rt_rq rq rt_se then
    rq.set g { rq.rt g with active := (rq.rt g).active.move head (rt_se_prio rq rt_se) rt_se }
  else rq

end Queue

section Throttle

def sched_rt_rq_enqueue (rq : rq) (g : task_group) : sched_rt.rq :=
  if (rq.rt g).rt_nr_running ≠ 0 then
    let rq :=
      match rt_se_of g with
      | some rt_se => if !on_rt_rq rq rt_se then enqueue_rt_entity rq rt_se false else rq
      | none => rq
    if (rq.rt g).highest_prio_curr < (rq.tasks rq.curr).prio then resched_task rq rq.curr else rq
  else rq

def sched_rt_rq_dequeue (rq : rq) (g : task_group) : sched_rt.rq :=
  match rt_se_of g with
  | some rt_se => if on_rt_rq rq rt_se then dequeue_rt_entity rq rt_se else rq
  | none => rq

/-- `balance_runtime`. Runtime is borrowed from the other CPUs; `borrow` says what the run
    queue of a group has afterwards. -/
def balance_runtime (borrow : task_group → Nat) (rq : rq) (g : task_group) : sched_rt.rq :=
  if (rq.rt g).rt_time > (rq.rt g).rt_runtime then rq.set g { rq.rt g with rt_runtime := borrow g } else rq

def sched_rt_runtime_exceeded (borrow : task_group → Nat) (rq : rq) (g : task_group) : sched_rt.rq × Bool :=
  if (rq.rt g).rt_throttled then (rq, rt_rq_throttled (rq.rt g))
  else if (rq.rt g).rt_runtime ≥ (rq.bandwidth g).rt_period then (rq, false)
  else
    let rq := balance_runtime borrow rq g
    let runtime := (rq.rt g).rt_runtime
    if runtime = RUNTIME_INF then (rq, false)
    else if (rq.rt g).rt_time > runtime then
      let rq := rq.set g { rq.rt g with rt_throttled := true }
      if rt_rq_throttled (rq.rt g) then (sched_rt_rq_dequeue rq g, true) else (rq, false)
    else (rq, false)

/-- One turn of the loop of `update_curr_rt`. -/
def account (borrow : task_group → Nat) (delta_exec : Nat) (rq : rq) (g : task_group) : sched_rt.rq :=
  if (rq.rt g).rt_runtime ≠ RUNTIME_INF then
    let rq := rq.set g { rq.rt g with rt_time := u64 ((rq.rt g).rt_time + delta_exec) }
    let (rq, exceeded) := sched_rt_runtime_exceeded borrow rq g
    if exceeded then resched_task rq rq.curr else rq
  else rq

/-- `update_curr_rt`, where `delta_exec` is the time the current task has run. Its own
    statistics are left out. -/
def update_curr_rt (borrow : task_group → Nat) (delta_exec : Nat) (rq : rq) : sched_rt.rq :=
  if !(rq.tasks rq.curr).rt_class then rq
  else if !rq.bandwidth_enabled then rq
  else
    ((for_each_sched_rt_entity rq (.task rq.curr)).map (rt_rq_of_se rq)).foldl (account borrow delta_exec) rq

/-- The part of `do_sched_rt_period_timer` that is about this CPU, with what it returns. -/
def do_sched_rt_period_timer (borrow : task_group → Nat) (overrun : Nat) (rq : rq) (g : task_group) :
    sched_rt.rq × Bool :=
  if !rq.bandwidth_enabled || (rq.bandwidth g).rt_runtime == RUNTIME_INF then (rq, true)
  else if (rq.rt g).rt_time ≠ 0 then
    let rq := if (rq.rt g).rt_throttled then balance_runtime borrow rq g else rq
    let runtime := (rq.rt g).rt_runtime
    let rt_time := (rq.rt g).rt_time - min (rq.rt g).rt_time (u64 (overrun * runtime))
    let rq := rq.set g { rq.rt g with rt_time }
    let idle := rt_time == 0 && (rq.rt g).rt_nr_running == 0
    if (rq.rt g).rt_throttled && decide (rt_time < runtime) then
      let rq := rq.set g { rq.rt g with rt_throttled := false }
      let rq :=
        if (rq.rt g).rt_nr_running ≠ 0 ∧ rq.curr = rq.idle then { rq with skip_clock_update := -1 } else rq
      (sched_rt_rq_enqueue rq g, idle)
    else (rq, idle)
  else if (rq.rt g).rt_nr_running ≠ 0 then
    if !rt_rq_throttled (rq.rt g) then (sched_rt_rq_enqueue rq g, false) else (rq, false)
  else (rq, true)

end Throttle

section Tasks

def enqueue_task_rt (rq : rq) (p : Nat) (head : Bool) : sched_rt.rq :=
  let rq := enqueue_rt_entity rq (.task p) head
  if rq.curr ≠ p ∧ (rq.tasks p).nr_cpus_allowed > 1 then enqueue_pushable_task rq p else rq

def dequeue_task_rt (borrow : task_group → Nat) (delta_exec : Nat) (rq : rq) (p : Nat) : sched_rt.rq :=
  let rq := update_curr_rt borrow delta_exec rq
  let rq := dequeue_rt_entity rq (.task p)
  dequeue_pushable_task rq p

def requeue_task_rt (rq : rq) (p : Nat) (head : Bool) : sched_rt.rq :=
  (for_each_sched_rt_entity rq (.task p)).foldl (fun rq rt_se => requeue_rt_entity rq rt_se head) rq

end Tasks

section Run

/-- `init_rt_rq`. -/
def init_rt_rq (rt_runtime : Nat) : rt_rq where
  active := { bitmap := fun i => i == MAX_RT_PRIO, queue := fun _ => [] }
  rt_nr_running := 0
  highest_prio_curr := MAX_RT_PRIO
  rt_throttled := false
  rt_time := 0
  rt_runtime := rt_runtime
  rt_nr_boosted := 0

/-- What changes the run queues of the CPU. The last three are done elsewhere: a context
    switch, a new description of a task, and new bandwidth or borrowed runtime. -/
inductive Call where
  | enqueue_task_rt (p : Nat) (head : Bool)
  | dequeue_task_rt (p : Nat) (borrow : task_group → Nat) (delta_exec : Nat)
  | requeue_task_rt (p : Nat) (head : Bool)
  | update_curr_rt (borrow : task_group → Nat) (delta_exec : Nat)
  | sched_rt_runtime_exceeded (g : task_group) (borrow : task_group → Nat)
  | do_sched_rt_period_timer (g : task_group) (borrow : task_group → Nat) (overrun : Nat)
  | set_curr (p : Nat)
  | set_task (p : Nat) (t : task_struct)
  | set_bandwidth (g : task_group) (b : rt_bandwidth) (rt_runtime : Nat)

def step (rq : rq) : Call → sched_rt.rq
  | .enqueue_task_rt p head => enqueue_task_rt rq p head
  | .dequeue_task_rt p borrow delta_exec => dequeue_task_rt borrow delta_exec rq p
  | .requeue_task_rt p head => requeue_task_rt rq p head
  | .update_curr_rt borrow delta_exec => update_curr_rt borrow delta_exec rq
  | .sched_rt_runtime_exceeded g borrow => (sched_rt_runtime_exceeded borrow rq g).1
  | .do_sched_rt_period_timer g borrow overrun => (do_sched_rt_period_timer borrow overrun rq g).1
  | .set_curr p => { rq with curr := p }
  | .set_task p t => { rq with tasks := update rq.tasks p t }
  | .set_bandwidth g b rt_runtime =>
    { rq with bandwidth := update rq.bandwidth g b }.set g { rq.rt g with rt_runtime }

/-- A task that is enqueued has a real-time priority, and a queued task is not changed. -/
def Call.Valid (rq : rq) : Call → Prop
  | .enqueue_task_rt p _ => (rq.tasks p).prio < MAX_RT_PRIO
  | .set_task p _ => on_rt_rq rq (.task p) = false
  | _ => True

instance (rq : rq) : (c : Call) → Decidable (c.Valid rq)
  | .enqueue_task_rt p _ => inferInstanceAs (Decidable ((rq.tasks p).prio < MAX_RT_PRIO))
  | .set_task p _ => inferInstanceAs (Decidable (on_rt_rq rq (.task p) = false))
  | .dequeue_task_rt .. | .requeue_task_rt .. | .update_curr_rt .. | .sched_rt_runtime_exceeded ..
  | .do_sched_rt_period_timer .. | .set_curr .. | .set_bandwidth .. => inferInstanceAs (Decidable True)

/-- The calls are made one after another, each in a state in which it is valid. -/
def ValidRun : rq → List Call → Prop
  | _, [] => True
  | rq, c :: cs => c.Valid rq ∧ ValidRun (step rq c) cs

instance : (rq : rq) → (cs : List Call) → Decidable (ValidRun rq cs)
  | _, [] => inferInstanceAs (Decidable True)
  | rq, c :: cs =>
    have := instDecidableValidRun (step rq c) cs
    inferInstanceAs (Decidable (c.Valid rq ∧ ValidRun (step rq c) cs))

def run (rq : rq) (cs : List Call) : sched_rt.rq :=
  cs.foldl step rq

/-- All run queues as `init_rt_rq` leaves them, whatever the tasks and the groups' runtimes
    are. -/
structure Initial (rq : rq) : Prop where
  rt : ∀ g, rq.rt g = init_rt_rq (rq.rt g).rt_runtime
  leaf : rq.leaf_rt_rq_list = []
  warnings : rq.warnings = []

end Run

end cs444.sched_rt
