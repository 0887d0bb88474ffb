import Cs444.SchedRt.Pushable

open Function

namespace cs444.sched_rt

section Model

def MAX_PRIO : Nat := 140

def CPUPRI_IDLE : Nat := 0

def CPUPRI_NORMAL : Nat := 1

def CPUPRI_NR_PRIORITIES : Nat := MAX_RT_PRIO + 2

def RT_MAX_TRIES : Nat := 3

/-- `convert_prio`, where none stands for `CPUPRI_INVALID`. -/
def convert_prio (prio : Nat) : Option Nat :=
  if prio = CPUPRI_INVALID then none
  else if prio = MAX_PRIO then some CPUPRI_IDLE
  else if prio ≥ MAX_RT_PRIO then some CPUPRI_NORMAL
  else some <| MAX_RT_PRIO - prio + 1

/-- A scheduling domain: whether `SD_WAKE_AFFINE` is among its flags, and its CPUs. -/
structure sched_domain where
  wake_affine : Bool
  span : List Nat

/-- What the search for a CPU reads beside the run queues: the number of CPUs, the one that searches
    and whether it has a mask to search with, and the domains of each CPU from the innermost one on. -/
structure Topology where
  nr_cpu_ids : Nat
  smp_processor_id : Nat
  local_cpu_mask : Bool
  for_each_domain : Nat → List sched_domain

/-- `pri_to_cpu[idx].mask`, the CPUs for which the priority was last recorded. -/
def pri_to_cpu (T : Topology) (rd : root_domain) (idx : Nat) : List Nat :=
  (List.range T.nr_cpu_ids).filter fun cpu => convert_prio (rd.cpupri cpu) = some idx

/-- `cpupri_find` with the mask it fills in, if it returns 1. A priority is marked in `pri_active` if it
    has a CPU. -/
def cpupri_find (T : Topology) (rd : root_domain) (p : task_struct) : Option (List Nat) :=
  let task_pri := convert_prio p.prio
  let pri_active := (List.range CPUPRI_NR_PRIORITIES).filter fun idx => pri_to_cpu T rd idx ≠ []
  (pri_active.takeWhile fun idx => task_pri.any (idx < ·)).findSome? fun idx =>
    let lowest_mask := (pri_to_cpu T rd idx).filter (p.cpus_allowed.contains ·)
    if lowest_mask = [] then none else some lowest_mask

/-- One turn of the loop of `find_lowest_rq` over the domains. -/
def find_in_domain (lowest_mask : List Nat) (this_cpu : Option Nat) (sd : sched_domain) : Option Nat :=
  if sd.wake_affine then
    if this_cpu.any (sd.span.contains ·) then this_cpu else lowest_mask.find? (sd.span.contains ·)
  else none

/-- `find_lowest_rq`, where none stands for -1. -/
def find_lowest_rq (T : Topology) (S : System) (task : Nat) : Option Nat :=
  let cpu := S.task_cpu task
  if !T.local_cpu_mask then none
  else if (S.tasks task).nr_cpus_allowed = 1 then none
  else
    match cpupri_find T S.rd (S.tasks task) with
    | none => none
    | some lowest_mask =>
      if lowest_mask.contains cpu then some cpu
      else
        let this_cpu := if lowest_mask.contains T.smp_processor_id then some T.smp_processor_id else none
        (((T.for_each_domain cpu).findSome? (find_in_domain lowest_mask this_cpu)).or this_cpu).or lowest_mask.head?

/-- The loop of `find_lock_lowest_rq`, where `double_lock_balance` never has to let go of the lock. -/
def find_lock_lowest_rq (T : Topology) (S : System) (cpu task : Nat) : Nat → Option Nat
  | 0 => none
  | tries + 1 =>
    match find_lowest_rq T S task with
    | none => none
    | some lowest_cpu =>
      if lowest_cpu = cpu then none
      else if ((S.rqs lowest_cpu).rt []).highest_prio_curr > (S.tasks task).prio then some lowest_cpu
      else find_lock_lowest_rq T S cpu task tries

/-- What `update_curr_rt` accounts for when a task is dequeued. -/
structure Accounting where
  borrow : task_group → Nat
  delta_exec : Nat

namespace System

/-- `deactivate_task`. A task that is on its way is on the queues of no CPU. -/
def deactivate_task (a : Accounting) (S : System) (cpu p : Nat) : System :=
  { S.store cpu (dequeue_task_rt a.borrow a.delta_exec (S.cpu_rq cpu) p) with on_rq := update S.on_rq p false }

def set_task_cpu (S : System) (p cpu : Nat) : System :=
  { S with task_cpu := update S.task_cpu p cpu }

def activate_task (S : System) (cpu p : Nat) : System :=
  { S.store cpu (enqueue_task_rt (S.cpu_rq cpu) p false) with on_rq := update S.on_rq p true }

def resched_curr (S : System) (cpu : Nat) : System :=
  S.store cpu (resched_task (S.cpu_rq cpu) (S.cpu_rq cpu).curr)

/-- The end of `push_rt_task`, where the task is taken to the CPU that was found. -/
def migrate (a : Accounting) (S : System) (cpu next_task lowest_cpu : Nat) : System :=
  (((S.deactivate_task a cpu next_task).set_task_cpu next_task lowest_cpu).activate_task lowest_cpu next_task).resched_curr
    lowest_cpu

end System

/-- A task was pushed to a CPU, with the system as it was when the CPU was found. -/
structure Push where
  task : Nat
  lowest_cpu : Nat
  before : System

/-- The system, and the tasks that were pushed so far. -/
structure Pushing where
  sys : System
  pushes : List Push

/-- `push_rt_task` from the label `retry` on, with what it returns, or none if it has not returned after
    so many rounds. -/
def retry (T : Topology) (a : Accounting) (cpu : Nat) (P : Pushing) : Nat → Nat → Except Bug (Option (Pushing × Bool))
  | 0, _ => .ok none
  | n + 1, next_task =>
    let S := P.sys
    let rq := S.cpu_rq cpu
    if next_task = rq.curr then .ok (some (P, false))
    else if (S.tasks next_task).prio < (S.tasks rq.curr).prio then
      .ok (some ({ P with sys := S.resched_curr cpu }, false))
    else
      match find_lock_lowest_rq T S cpu next_task RT_MAX_TRIES with
      | some lowest_cpu =>
        .ok (some (⟨S.migrate a cpu next_task lowest_cpu, P.pushes ++ [⟨next_task, lowest_cpu, S⟩]⟩, true))
      | none => do
        let task ← pick_next_pushable_task rq S.task_cpu S.on_rq
        if S.task_cpu next_task = cpu ∧ task = some next_task then
          return some ({ P with sys := S.store cpu (dequeue_pushable_task rq next_task) }, true)
        else
          match task with
          | none => return some (P, true)
          | some task => retry T a cpu P n task

def push_rt_task (T : Topology) (a : Accounting) (cpu n : Nat) (P : Pushing) : Except Bug (Option (Pushing × Bool)) := do
  let rq := P.sys.cpu_rq cpu
  if !(rq.smp []).overloaded then return some (P, false)
  match ← pick_next_pushable_task rq P.sys.task_cpu P.sys.on_rq with
  | none => return some (P, false)
  | some next_task => retry T a cpu P n next_task

/-- `push_rt_tasks`, or none if it has not returned after so many calls of `push_rt_task`. -/
def push_rt_tasks (T : Topology) (a : Nat → Accounting) (cpu : Nat) : Nat → Pushing → Except Bug (Option Pushing)
  | 0, _ => .ok none
  | n + 1, P => do
    match ← push_rt_task T (a n) cpu (n + 1) P with
    | none => return none
    | some (P, false) => return some P
    | some (P, true) => push_rt_tasks T a cpu n P

end Model

variable {S S' : System} {T : Topology} {cpu p : Nat}

section Search

/-- The mask has only CPUs that the task may run on. -/
theorem cpupri_find_subset {rd : root_domain} {t : task_struct} {lowest_mask : List Nat}
    (h : cpupri_find T rd t = some lowest_mask) : ∀ c ∈ lowest_mask, c ∈ t.cpus_allowed := by
  obtain ⟨idx, -, hidx⟩ := List.exists_of_findSome?_eq_some h
  intro c hc
  dsimp only at hidx
  split at hidx
  · cases hidx
  · cases hidx
    simpa using (List.mem_filter.mp hc).2

theorem find_in_domain_mem {lowest_mask : List Nat} {this_cpu : Option Nat} {sd : sched_domain} {c : Nat}
    (hthis : ∀ c, this_cpu = some c → c ∈ lowest_mask) (h : find_in_domain lowest_mask this_cpu sd = some c) :
    c ∈ lowest_mask := by
  rw [find_in_domain] at h
  split at h
  · split at h
    · exact hthis c h
    · exact List.mem_of_find?_eq_some h
  · cases h

/-- Every way out of the search is with a CPU of the mask. -/
theorem find_lowest_rq_mem {c : Nat} (h : find_lowest_rq T S p = some c) : c ∈ (S.tasks p).cpus_allowed := by
  simp only [find_lowest_rq] at h
  split at h
  · cases h
  split at h
  · cases h
  split at h
  · cases h
  rename_i lowest_mask hfind
  refine cpupri_find_subset hfind c ?_
  split at h
  · rename_i hown
    cases h
    simpa using hown
  · set this_cpu := if lowest_mask.contains T.smp_processor_id then some T.smp_processor_id else none with hthis_cpu
    have hthis : ∀ c, this_cpu = some c → c ∈ lowest_mask := by
      intro c hc
      rw [hthis_cpu] at hc
      split at hc
      · rename_i hin
        cases hc
        simpa using hin
      · cases hc
    obtain h | ⟨-, h⟩ := Option.or_eq_some_iff.mp h
    · obtain h | ⟨-, h⟩ := Option.or_eq_some_iff.mp h
      · obtain ⟨sd, -, hsd⟩ := List.exists_of_findSome?_eq_some h
        exact find_in_domain_mem hthis hsd
      · exact hthis c h
    · exact List.mem_of_head? h

/-- What is known of the CPU that is found, in as many tries as it takes. -/
theorem find_lock_lowest_rq_spec {tries c : Nat} (h : find_lock_lowest_rq T S cpu p tries = some c) :
    c ∈ (S.tasks p).cpus_allowed ∧ c ≠ cpu ∧ ((S.rqs c).rt []).highest_prio_curr > (S.tasks p).prio := by
  induction tries with
  | zero => simp [find_lock_lowest_rq] at h
  | succ tries ih =>
    rw [find_lock_lowest_rq] at h
    split at h
    · cases h
    rename_i lowest_cpu hfind
    split at h
    · cases h
    rename_i hne
    split at h
    · rename_i hsuitable
      cases h
      exact ⟨find_lowest_rq_mem hfind, hne, hsuitable⟩
    · exact ih h

end Search

section Step

/-- The tasks are described as before, the same ones are queued, and the CPU runs what it ran. -/
structure Stable (S S' : System) (cpu : Nat) : Prop where
  settled : Settled S'
  tasks : S'.tasks = S.tasks
  on_rq : S'.on_rq = S.on_rq
  curr : (S'.rqs cpu).curr = (S.rqs cpu).curr

theorem rqs_store_self (S : System) (cpu : Nat) (r : rq) : (S.store cpu r).rqs cpu = r :=
  update_self _ _ _

theorem rqs_store_of_ne (S : System) {c : Nat} (r : rq) (h : c ≠ cpu) : (S.store cpu r).rqs c = S.rqs c :=
  update_of_ne h _ _

/-- The list is shorter without its first task. -/
theorem length_plist_del {x : Nat × Nat} {l : List (Nat × Nat)} (h : x ∈ l) : (plist_del x.2 l).length < l.length := by
  rw [plist_del, List.length_filter_lt_length_iff_exists]
  exact ⟨x, h, by simp⟩

/-- What dequeuing does to the rest of the run queue. -/
theorem dequeue_task_rt_frame {s : rq} (h : Tallied s) (a : Accounting) (p : Nat) :
    (dequeue_task_rt a.borrow a.delta_exec s p).tasks = s.tasks ∧
      (dequeue_task_rt a.borrow a.delta_exec s p).curr = s.curr ∧
      ((dequeue_task_rt a.borrow a.delta_exec s p).smp []).pushable_tasks = plist_del p (s.smp []).pushable_tasks := by
  have haccount := steady_update_curr_rt a.borrow a.delta_exec s
  have hturned := (haccount.tallied h).dequeue_rt_entity p
  refine ⟨hturned.tasks.trans haccount.tasks, hturned.curr.trans haccount.curr, ?_⟩
  rw [sched_rt.dequeue_task_rt, pushable_dequeue_pushable_task, hturned.pushable, haccount.pushable]

theorem Settled.resched_curr (h : Settled S) (cpu : Nat) : Settled (S.resched_curr cpu) := by
  have hsteady := steady_resched_task (S.cpu_rq cpu) (S.cpu_rq cpu).curr
  have hinv : Inv (resched_task (S.cpu_rq cpu) (S.cpu_rq cpu).curr) := (h.inv cpu).retask_same rfl rfl rfl fun q _ => .of_eq rfl
  exact h.carried (hsteady.carried (h.balanced.tallied cpu) hinv) (hsteady.pushable_ok (h.pushable cpu))

/-- A task is taken from a CPU to another one. -/
theorem Settled.migrate (h : Settled S) (a : Accounting) (hon : S.on_rq p = true) (hcpu : S.task_cpu p = cpu)
    {c : Nat} (hc : c ≠ cpu) :
    Stable S (S.migrate a cpu p c) cpu ∧ (S.migrate a cpu p c).task_cpu = update S.task_cpu p c ∧
      (((S.migrate a cpu p c).rqs cpu).smp []).pushable_tasks = plist_del p ((S.rqs cpu).smp []).pushable_tasks := by
  have hprio : (S.tasks p).prio < MAX_RT_PRIO := by
    obtain ⟨g, hg⟩ := (h.balanced.queued cpu p).mpr ⟨hon, hcpu⟩
    exact ((h.balanced.tallied cpu).home g p hg).2
  obtain ⟨htasks₁, hcurr₁, hlist₁⟩ := dequeue_task_rt_frame (h.balanced.tallied cpu) a p
  have h₁ : Settled (S.deactivate_task a cpu p) := h.call (c := .dequeue_task_rt p a.borrow a.delta_exec) hcpu trivial
  set S₁ := S.deactivate_task a cpu p with hS₁
  have hoff : S₁.on_rq p = false := update_self _ _ _
  have h₂ : Settled (S₁.set_task_cpu p c) := h₁.set_task_cpu hoff c
  set S₂ := S₁.set_task_cpu p c with hS₂
  have htasks₂ : S₂.tasks = S.tasks := htasks₁
  have htasks₃ : (S₂.activate_task c p).tasks = S₂.tasks :=
    tasks_enqueue_task_rt (h₂.balanced.tallied c) (by rw [show (S₂.cpu_rq c).tasks = S₂.tasks from rfl, htasks₂]; exact hprio) false
  have h₃ : Settled (S₂.activate_task c p) := by
    refine h₂.call (c := .enqueue_task_rt p false) ⟨update_self _ _ _, ?_⟩ ?_
    · rw [htasks₂]
      exact hprio
    · have hclass := h.rt_class p hon
      rw [← htasks₂] at hclass
      exact hclass
  set S₃ := S₂.activate_task c p with hS₃
  have hrqs : (S₃.resched_curr c).rqs cpu = dequeue_task_rt a.borrow a.delta_exec (S.cpu_rq cpu) p := by
    rw [System.resched_curr, rqs_store_of_ne _ _ hc.symm, hS₃]
    exact (rqs_store_of_ne S₂ _ hc.symm).trans (rqs_store_self S cpu _)
  have hon_rq : S₃.on_rq = S.on_rq := by
    have hupdate : S₃.on_rq = update (update S.on_rq p false) p true := rfl
    rw [hupdate, update_idem, ← hon, update_eq_self]
  refine ⟨⟨h₃.resched_curr c, htasks₃.trans htasks₂, hon_rq, ?_⟩, rfl, ?_⟩
  · exact (congrArg rq.curr hrqs).trans hcurr₁
  · exact (congrArg (fun r : rq => (r.smp []).pushable_tasks) hrqs).trans hlist₁

/-- A task that cannot be pushed is taken from the list. -/
theorem Settled.give_up (h : Settled S) (cpu p : Nat) :
    Stable S (S.store cpu (dequeue_pushable_task (S.cpu_rq cpu) p)) cpu := by
  have hcarried := (Steady.refl (S.cpu_rq cpu)).carried (h.balanced.tallied cpu) (h.inv cpu)
  have hpushable : Pushable (dequeue_pushable_task (S.cpu_rq cpu) p) := by
    rw [Pushable, pushable_dequeue_pushable_task]
    exact (Plist.del (h.pushable cpu) p).mono fun q hq => ⟨hq.1, rfl⟩
  refine ⟨h.carried (hcarried.set_pushable _) hpushable, rfl, rfl, ?_⟩
  rw [rqs_store_self]
  rfl

/-- A push that is allowed: the task was on the CPU and did not run, and it goes to another CPU on which
    it may run, and where nothing of its priority or a higher one was queued. -/
structure Push.Allowed (m : Push) (cpu : Nat) : Prop where
  here : m.before.task_cpu m.task = cpu
  not_curr : m.task ≠ (m.before.rqs cpu).curr
  cpus_allowed : m.lowest_cpu ∈ (m.before.tasks m.task).cpus_allowed
  away : m.lowest_cpu ≠ cpu
  lower : ((m.before.rqs m.lowest_cpu).rt []).highest_prio_curr > (m.before.tasks m.task).prio

/-- What a call of `push_rt_task` does: it pushes no task, or one that it may push. -/
structure Pushed (cpu : Nat) (P P' : Pushing) : Prop extends Stable P.sys P'.sys cpu where
  pushes : P'.pushes = P.pushes ∧ P'.sys.task_cpu = P.sys.task_cpu ∨
    ∃ m : Push, m.before = P.sys ∧ m.Allowed cpu ∧ P'.pushes = P.pushes ++ [m] ∧
      P'.sys.task_cpu = update P.sys.task_cpu m.task m.lowest_cpu

/-- The number of tasks that are left to be pushed. -/
def Pushing.left (P : Pushing) (cpu : Nat) : Nat :=
  ((P.sys.rqs cpu).smp []).pushable_tasks.length

variable {P P' : Pushing}

theorem Pushed.of_stable (h : Stable P.sys S' cpu) (hcpu : S'.task_cpu = P.sys.task_cpu) :
    Pushed cpu P { P with sys := S' } :=
  ⟨h, .inl ⟨rfl, hcpu⟩⟩

/-- A round of `push_rt_task` for the first task of the list. The list is as it was when nothing was
    found, so that there is no other round. -/
theorem Settled.retry (h : Settled P.sys) (T : Topology) (a : Accounting) (n : Nat) {x : Nat × Nat}
    (hhead : ((P.sys.rqs cpu).smp []).pushable_tasks.head? = some x) :
    ∃ P' more, retry T a cpu P (n + 1) x.2 = .ok (some (P', more)) ∧ Pushed cpu P P' ∧
      (more = true → P'.left cpu < P.left cpu) := by
  have hx : x ∈ ((P.sys.rqs cpu).smp []).pushable_tasks := List.mem_of_head? hhead
  have hlist := h.pushableTasks cpu
  obtain ⟨-, hon, hcpu⟩ := hlist.queued x hx
  have hnot_curr : x.2 ≠ (P.sys.cpu_rq cpu).curr := hlist.not_curr x hx
  have hpick := hlist.pick_eq
  rw [hhead] at hpick
  simp only [sched_rt.retry]
  rw [if_neg hnot_curr]
  split
  · refine ⟨_, _, rfl, .of_stable ⟨h.resched_curr cpu, rfl, rfl, ?_⟩ rfl, by simp⟩
    rw [System.resched_curr, rqs_store_self]
    rfl
  cases hfind : find_lock_lowest_rq T P.sys cpu x.2 RT_MAX_TRIES with
  | some c =>
    obtain ⟨hallowed, hc, hlower⟩ := find_lock_lowest_rq_spec hfind
    obtain ⟨hstable, htask_cpu, hleft⟩ := h.migrate a hon hcpu hc
    refine ⟨_, _, rfl, ⟨hstable, .inr ⟨_, rfl, ⟨hcpu, hnot_curr, hallowed, hc, hlower⟩, rfl, htask_cpu⟩⟩, fun _ => ?_⟩
    rw [Pushing.left, hleft]
    exact length_plist_del hx
  | none =>
    have hsame : P.sys.task_cpu x.2 = cpu ∧ (some x : Option (Nat × Nat)).map Prod.snd = some x.2 := ⟨hcpu, rfl⟩
    dsimp only
    rw [hpick]
    refine ⟨_, _, if_pos hsame, .of_stable (h.give_up cpu x.2) rfl, fun _ => ?_⟩
    rw [Pushing.left, rqs_store_self, pushable_dequeue_pushable_task]
    exact length_plist_del hx

theorem Settled.push_rt_task (h : Settled P.sys) (T : Topology) (a : Accounting) (cpu n : Nat) :
    ∃ P' more, push_rt_task T a cpu (n + 1) P = .ok (some (P', more)) ∧ Pushed cpu P P' ∧
      (more = true → P'.left cpu < P.left cpu) := by
  have hnone : Pushed cpu P P := .of_stable ⟨h, rfl, rfl, rfl⟩ rfl
  simp only [sched_rt.push_rt_task]
  split
  · exact ⟨P, false, rfl, hnone, by simp⟩
  rw [(h.pushableTasks cpu).pick_eq]
  cases hhead : ((P.sys.rqs cpu).smp []).pushable_tasks.head? with
  | none => exact ⟨P, false, rfl, hnone, by simp⟩
  | some x => exact h.retry T a n hhead

end Step

section Run

variable {P P' P'' : Pushing}

/-- What `push_rt_tasks` does from a system in which nothing has been pushed yet. -/
structure Pushes (cpu : Nat) (S : System) (P : Pushing) : Prop extends Stable S P.sys cpu where
  before : ∀ m ∈ P.pushes, Stable S m.before cpu ∧ m.Allowed cpu
  there : ∀ m ∈ P.pushes, P.sys.task_cpu m.task = m.lowest_cpu
  others : ∀ p, (∀ m ∈ P.pushes, m.task ≠ p) → P.sys.task_cpu p = S.task_cpu p

theorem Stable.trans {S'' : System} (h : Stable S S' cpu) (h' : Stable S' S'' cpu) : Stable S S'' cpu where
  settled := h'.settled
  tasks := h'.tasks.trans h.tasks
  on_rq := h'.on_rq.trans h.on_rq
  curr := h'.curr.trans h.curr

/-- Another call. A task that was pushed is on another CPU and not pushed again. -/
theorem Pushes.snoc (h : Pushes cpu S P) (h' : Pushed cpu P P') : Pushes cpu S P' := by
  have hstable := h.toStable.trans h'.toStable
  obtain ⟨hpushes, htask_cpu⟩ | ⟨m, hbefore, hm, hpushes, htask_cpu⟩ := h'.pushes
  · refine ⟨hstable, ?_, ?_, ?_⟩
    · rw [hpushes]
      exact h.before
    · rw [hpushes, htask_cpu]
      exact h.there
    · rw [hpushes, htask_cpu]
      exact h.others
  · have hhere : P.sys.task_cpu m.task = cpu := hbefore ▸ hm.here
    have hmem : ∀ x, x ∈ P'.pushes ↔ x ∈ P.pushes ∨ x = m := fun x => by rw [hpushes, List.mem_append, List.mem_singleton]
    refine ⟨hstable, fun x hx => ?_, fun x hx => ?_, fun p hp => ?_⟩
    · obtain hx | rfl := (hmem x).mp hx
      · exact h.before x hx
      · exact ⟨hbefore ▸ h.toStable, hm⟩
    · rw [htask_cpu]
      obtain hx | rfl := (hmem x).mp hx
      · have hne : x.task ≠ m.task := by
          intro heq
          have haway := (h.before x hx).2.away
          rw [← h.there x hx, heq] at haway
          exact haway hhere
        rw [update_of_ne hne]
        exact h.there x hx
      · exact update_self _ _ _
    · rw [htask_cpu, update_of_ne (hp m ((hmem m).mpr (.inr rfl))).symm]
      exact h.others p fun x hx => hp x ((hmem x).mpr (.inl hx))

theorem Pushes.run (h : Pushes cpu S P) (T : Topology) (a : Nat → Accounting) {n : Nat} (hn : P.left cpu < n) :
    ∃ P', push_rt_tasks T a cpu n P = .ok (some P') ∧ Pushes cpu S P' := by
  induction n generalizing P with
  | zero => exact absurd hn (Nat.not_lt_zero _)
  | succ n ih =>
    obtain ⟨P', more, hcall, hpushed, hless⟩ := h.settled.push_rt_task T (a n) cpu n
    rw [push_rt_tasks, hcall]
    cases more with
    | false => exact ⟨P', rfl, h.snoc hpushed⟩
    | true => exact ih (h.snoc hpushed) (by have := hless rfl; omega)

/-- What is seen when `push_rt_tasks` has returned: the tasks that are queued are those that were queued,
    on one CPU each; a task is elsewhere only if it was pushed there; and what was pushed went to a CPU on
    which it may run and where, at that moment, nothing of its priority or a higher one was queued. -/
structure PushedAway (cpu : Nat) (S : System) (P : Pushing) : Prop where
  queued : ∀ p, (∃ c, Queued (P.sys.cpu_rq c) p) ↔ ∃ c, Queued (S.cpu_rq c) p
  once : ∀ p c c', Queued (P.sys.cpu_rq c) p → Queued (P.sys.cpu_rq c') p → c = c'
  moved : ∀ p c, Queued (P.sys.cpu_rq c) p → ¬ Queued (S.cpu_rq c) p → ∃ m ∈ P.pushes, m.task = p ∧ m.lowest_cpu = c
  cpus_allowed : ∀ m ∈ P.pushes, m.lowest_cpu ∈ (S.tasks m.task).cpus_allowed
  lower : ∀ m ∈ P.pushes, ((m.before.rqs m.lowest_cpu).rt []).highest_prio_curr > (S.tasks m.task).prio
  not_curr : (P.sys.rqs cpu).curr = (S.rqs cpu).curr ∧ ∀ m ∈ P.pushes, m.task ≠ (S.rqs cpu).curr

theorem Pushes.pushedAway (h : Pushes cpu S P) (hS : Settled S) : PushedAway cpu S P := by
  have hqueued := h.settled.balanced.queued
  have hqueued₀ := hS.balanced.queued
  refine ⟨fun p => ?_, fun p c c' hc hc' => ?_, fun p c hc hnot => ?_, fun m hm => ?_, fun m hm => ?_, h.curr,
    fun m hm => ?_⟩
  · simp only [hqueued, hqueued₀, h.on_rq, exists_and_left, exists_eq', and_true]
  · exact ((hqueued c p).mp hc).2.symm.trans ((hqueued c' p).mp hc').2
  · obtain ⟨hon, hcpu⟩ := (hqueued c p).mp hc
    by_contra hnone
    push Not at hnone
    have hstayed : ∀ m ∈ P.pushes, m.task ≠ p := by
      rintro m hm rfl
      exact hnone m hm rfl ((h.there m hm).symm.trans hcpu)
    refine hnot ((hqueued₀ c p).mpr ⟨h.on_rq ▸ hon, ?_⟩)
    rw [← h.others p hstayed, hcpu]
  · have hallowed := (h.before m hm).2.cpus_allowed
    rwa [(h.before m hm).1.tasks] at hallowed
  · have hlower := (h.before m hm).2.lower
    rwa [(h.before m hm).1.tasks] at hlower
  · have hnot_curr := (h.before m hm).2.not_curr
    rwa [(h.before m hm).1.curr] at hnot_curr

/-- From run queues in order, `push_rt_tasks` returns after no more calls of `push_rt_task` than the CPU
    has pushable tasks, and one. -/
theorem push_rt_tasks_returns (T : Topology) (a : Nat → Accounting) (cpu : Nat) {n : Nat} (h : Settled S)
    (hn : ((S.rqs cpu).smp []).pushable_tasks.length < n) :
    ∃ P, push_rt_tasks T a cpu n ⟨S, []⟩ = .ok (some P) ∧ Settled P.sys ∧ PushedAway cpu S P := by
  have hstart : Pushes cpu S ⟨S, []⟩ :=
    ⟨⟨h, rfl, rfl, rfl⟩, fun _ hm => absurd hm List.not_mem_nil, fun _ hm => absurd hm List.not_mem_nil, fun _ _ => rfl⟩
  obtain ⟨P, hrun, hP⟩ := hstart.run T a hn
  exact ⟨P, hrun, hP.settled, hP.pushedAway h⟩

/-- Two CPUs in a domain, and a CPU 0 that searches. -/
def twoCpus : Topology where
  nr_cpu_ids := 2
  smp_processor_id := 0
  local_cpu_mask := true
  for_each_domain _ := [⟨true, [0, 1]⟩]

/-- The CPUs are online. -/
def onlineSystem : System :=
  { bootSystem with rqs := fun cpu => { bootSystem.rqs cpu with online := true } }

/-- Task 0 is the idle task. Two tasks come to CPU 0, and one of them runs. -/
def overloadFirst : List Callback :=
  [.event (.call 0 (.set_task 0 { bootSystem.default_task with prio := 120, rt_class := false })),
    .event (.call 0 (.enqueue_task_rt 1 false)), .event (.call 0 (.enqueue_task_rt 2 false)),
    .schedule 0 (fun _ => 0) 1 0]

/-- The other one is pushed to CPU 1. -/
theorem push_rt_tasks_returns_overloadFirst : onlineSystem.ValidCallbacks overloadFirst ∧
    ∃ S, onlineSystem.callbacks overloadFirst = .ok S ∧ Settled S ∧
      ∃ P, push_rt_tasks twoCpus (fun _ => ⟨fun _ => 0, 1⟩) 0 2 ⟨S, []⟩ = .ok (some P) ∧
        P.pushes.map (fun m => (m.task, m.lowest_cpu)) = [(2, 1)] ∧ Settled P.sys ∧ PushedAway 0 S P := by
  have hinit : onlineSystem.Initial := ⟨fun _ => ⟨fun _ => rfl, rfl, rfl⟩, fun _ => rfl, fun _ => rfl, fun _ => rfl,
    fun _ => rfl, fun _ => rfl, rfl, fun _ => rfl⟩
  have hcs : onlineSystem.ValidCallbacks overloadFirst := by decide +kernel
  obtain ⟨S, hrun, hS⟩ := checked.run_ok (fun S c => Settled.callback_ok) hinit.settled hcs
  have hcallbacks : onlineSystem.callbacks overloadFirst = .ok S := hrun
  have hleft : (onlineSystem.callbacks overloadFirst).toOption.map
      (fun S => ((S.rqs 0).smp []).pushable_tasks.length) = some 1 := by decide +kernel
  have hpushes : ((onlineSystem.callbacks overloadFirst).toOption.bind fun S =>
      (push_rt_tasks twoCpus (fun _ => ⟨fun _ => 0, 1⟩) 0 2 ⟨S, []⟩).toOption.join).map
        (·.pushes.map fun m => (m.task, m.lowest_cpu)) = some [(2, 1)] := by decide +kernel
  rw [hcallbacks] at hleft hpushes
  have hone : ((S.rqs 0).smp []).pushable_tasks.length = 1 := Option.some.inj hleft
  obtain ⟨P, hpush, hsettled, haway⟩ := push_rt_tasks_returns twoCpus (fun _ => ⟨fun _ => 0, 1⟩) 0 (n := 2) hS
    (by omega)
  refine ⟨hcs, S, hcallbacks, hS, P, hpush, ?_, hsettled, haway⟩
  simpa [Except.toOption, hpush] using hpushes

end Run

end cs444.sched_rt
