import Cs444.SchedRt.Highest
import Cs444.SchedRt.Push

open Function

namespace cs444.sched_rt

variable {S S' : System} {s s' : rq} {cpu p : Nat}

section Promises

/-- `on_cpu` marks the current tasks of the CPUs, which are different ones, and a current task that is queued
    is queued where it runs. -/
structure Running (S : System) : Prop where
  on_cpu : ∀ p, (S.tasks p).on_cpu = true ↔ ∃ c, (S.rqs c).curr = p
  once : ∀ c c', (S.rqs c).curr = (S.rqs c').curr → c = c'
  here : ∀ c, S.on_rq (S.rqs c).curr = true → S.task_cpu (S.rqs c).curr = c

/-- What the core scheduler sees to: a task that runs is enqueued only where it runs, a new description of a
    task says the same of `on_cpu`, and what another class has to run does not run elsewhere. -/
def Callback.Orderly (S : System) : Callback → Prop
  | .event (.call cpu (.enqueue_task_rt p _)) => (S.tasks p).on_cpu = true → (S.rqs cpu).curr = p
  | .event (.call _ (.set_task p t)) => t.on_cpu = (S.tasks p).on_cpu
  | .schedule cpu _ _ next => (S.tasks next).on_cpu = true → (S.rqs cpu).curr = next
  | _ => True

/-- The run queue whose lock is held for a callback. A task that is not queued is given to another CPU under a
    lock of its own. -/
def Callback.rq (S : System) : Callback → Option Nat
  | .event (.call cpu _) => some cpu
  | .event (.set_cpus_allowed_rt p _) => some (S.task_cpu p)
  | .event (.set_rq_online cpu) => some cpu
  | .event (.set_rq_offline cpu) => some cpu
  | .event (.set_task_cpu _ _) => none
  | .set_curr_task_rt cpu => some cpu
  | .put_prev_task_rt cpu _ _ => some cpu
  | .schedule cpu _ _ _ => some cpu

instance (S : System) : (c : Callback) → Decidable (c.Orderly S)
  | .event (.call cpu (.enqueue_task_rt p _)) =>
    inferInstanceAs (Decidable ((S.tasks p).on_cpu = true → (S.rqs cpu).curr = p))
  | .event (.call _ (.set_task p t)) => inferInstanceAs (Decidable (t.on_cpu = (S.tasks p).on_cpu))
  | .schedule cpu _ _ next => inferInstanceAs (Decidable ((S.tasks next).on_cpu = true → (S.rqs cpu).curr = next))
  | .event (.call _ (.dequeue_task_rt ..)) | .event (.call _ (.requeue_task_rt ..))
  | .event (.call _ (.update_curr_rt ..)) | .event (.call _ (.sched_rt_runtime_exceeded ..))
  | .event (.call _ (.do_sched_rt_period_timer ..)) | .event (.call _ (.set_curr ..))
  | .event (.call _ (.set_bandwidth ..)) | .event (.set_cpus_allowed_rt ..) | .event (.set_rq_online ..)
  | .event (.set_rq_offline ..) | .event (.set_task_cpu ..) | .set_curr_task_rt .. | .put_prev_task_rt .. =>
    inferInstanceAs (Decidable True)

end Promises

section Frame

/-- What is done elsewhere leaves the run queue of a CPU as it is, and the tasks on it. -/
structure Aside (S S' : System) (cpu : Nat) : Prop where
  runqueue : S'.rqs cpu = S.rqs cpu
  queued : ∀ p, S.on_rq p = true → S.task_cpu p = cpu →
    S'.on_rq p = true ∧ S'.task_cpu p = cpu ∧ S'.tasks p = S.tasks p

theorem Aside.refl (S : System) (cpu : Nat) : Aside S S cpu :=
  ⟨rfl, fun _ hon hcpu => ⟨hon, hcpu, rfl⟩⟩

theorem Aside.trans {S'' : System} (h : Aside S S' cpu) (h' : Aside S' S'' cpu) : Aside S S'' cpu := by
  refine ⟨h'.runqueue.trans h.runqueue, fun p hon hcpu => ?_⟩
  obtain ⟨hon₁, hcpu₁, htask₁⟩ := h.queued p hon hcpu
  obtain ⟨hon₂, hcpu₂, htask₂⟩ := h'.queued p hon₁ hcpu₁
  exact ⟨hon₂, hcpu₂, htask₂.trans htask₁⟩

/-- A new run queue for another CPU. -/
theorem aside_store {r : rq} {on_rq : Nat → Bool} {i : Nat} (hi : i ≠ cpu)
    (h : ∀ p, S.on_rq p = true → S.task_cpu p = i → on_rq p = true ∧ r.tasks p = S.tasks p) :
    Aside S { S.store cpu r with on_rq } i :=
  ⟨rqs_store_of_ne S r hi, fun p hon hcpu => ⟨(h p hon hcpu).1, hcpu, (h p hon hcpu).2⟩⟩

/-- A CPU goes on with its current task. -/
theorem curr_store {r : rq} (h : r.curr = (S.rqs cpu).curr) (c : Nat) : ((S.store cpu r).rqs c).curr = (S.rqs c).curr := by
  obtain rfl | hne := eq_or_ne c cpu
  · rw [rqs_store_self, h]
  · rw [rqs_store_of_ne S r hne]

/-- All CPUs go on with their current tasks. -/
theorem Running.of_same (h : Running S) (hcurr : ∀ c, (S'.rqs c).curr = (S.rqs c).curr)
    (hon_cpu : ∀ p, (S'.tasks p).on_cpu = (S.tasks p).on_cpu)
    (hhere : ∀ c, S'.on_rq (S.rqs c).curr = true → S'.task_cpu (S.rqs c).curr = c) : Running S' := by
  refine ⟨fun p => ?_, fun c c' hcc => ?_, fun c => ?_⟩
  · simp only [hcurr, hon_cpu]
    exact h.on_cpu p
  · rw [hcurr, hcurr] at hcc
    exact h.once c c' hcc
  · rw [hcurr]
    exact hhere c

/-- No other CPU runs a task that is queued, than the one it is queued on. -/
theorem Running.curr_ne (h : Running S) (hon : S.on_rq p = true) {c : Nat} (hc : S.task_cpu p ≠ c) :
    (S.rqs c).curr ≠ p := by
  rintro rfl
  exact hc (h.here c hon)

end Frame

section Switch

/-- A context switch runs a task that is queued on the CPU, or what another class has to run, and changes
    nothing else in the descriptions of the tasks than `on_cpu`. -/
theorem schedule_switch (h : Inv s) (borrow : task_group → Nat) (delta_exec next : Nat)
    (hs' : schedule borrow delta_exec next s = .ok s') :
    (Queued s s'.curr ∨ s'.curr = next) ∧
      s'.tasks = update (update s.tasks s.curr { s.tasks s.curr with on_cpu := false }) s'.curr
        { update s.tasks s.curr { s.tasks s.curr with on_cpu := false } s'.curr with on_cpu := true } := by
  obtain ⟨s₁, hs₁⟩ : ∃ s₁, s₁ = if (s.tasks s.curr).rt_class then
      sched_rt.put_prev_task_rt borrow delta_exec s s.curr else s := ⟨_, rfl⟩
  have haccount := steady_update_curr_rt borrow delta_exec s
  obtain ⟨hsame, htasks, hinv⟩ : SameTasks s s₁ ∧ s₁.tasks = s.tasks ∧ Inv s₁ := by
    rw [hs₁]
    split
    · rw [sched_rt.put_prev_task_rt]
      have hinv := h.update_curr_rt borrow delta_exec
      split
      · exact ⟨haccount.queued, haccount.tasks, (sameCore_set_smp _ _ _).inv hinv⟩
      · exact ⟨haccount.queued, haccount.tasks, hinv⟩
    · exact ⟨fun _ _ => Iff.rfl, rfl, h⟩
  simp only [sched_rt.schedule, ← hs₁] at hs'
  obtain hpick | ⟨p, hp, hpick⟩ := hinv.pick_next_task_rt
  · rw [hpick] at hs'
    cases hs'
    rw [← htasks]
    exact ⟨.inr rfl, rfl⟩
  · rw [hpick] at hs'
    cases hs'
    rw [← htasks]
    exact ⟨.inl ((hsame.queued_iff p).mp hp), rfl⟩

end Switch

section Callbacks

/-- A call leaves the current task, and `on_cpu` of the tasks it does not describe anew. -/
theorem Tallied.call_frame (h : Tallied s) {c : Call} (hc : c.Valid s) (hcurr : ∀ p, c ≠ .set_curr p) :
    (step s c).curr = s.curr ∧ ((step s c).tasks = s.tasks ∨
      ∃ p t, c = .set_task p t ∧ (step s c).tasks = update s.tasks p t) := by
  cases c with
  | enqueue_task_rt p head =>
    have hturned := h.enqueue_rt_entity hc head
    refine ⟨?_, .inl (tasks_enqueue_task_rt h hc head)⟩
    rw [step, sched_rt.enqueue_task_rt]
    split
    · exact hturned.curr
    · exact hturned.curr
  | dequeue_task_rt p borrow delta_exec =>
    obtain ⟨htasks, hsame, -⟩ := dequeue_task_rt_frame h ⟨borrow, delta_exec⟩ p
    exact ⟨hsame, .inl htasks⟩
  | requeue_task_rt p head =>
    have hsteady := h.requeue_all (for_each_sched_rt_entity s (.task p)) head
    exact ⟨hsteady.curr, .inl hsteady.tasks⟩
  | update_curr_rt borrow delta_exec =>
    have hsteady := steady_update_curr_rt borrow delta_exec s
    exact ⟨hsteady.curr, .inl hsteady.tasks⟩
  | sched_rt_runtime_exceeded g borrow =>
    have hsteady := steady_sched_rt_runtime_exceeded borrow s g
    exact ⟨hsteady.curr, .inl hsteady.tasks⟩
  | do_sched_rt_period_timer g borrow overrun =>
    have hsteady := steady_do_sched_rt_period_timer borrow overrun s g
    exact ⟨hsteady.curr, .inl hsteady.tasks⟩
  | set_curr p => exact absurd rfl (hcurr p)
  | set_task p t => exact ⟨rfl, .inr ⟨p, t, rfl, rfl⟩⟩
  | set_bandwidth g b rt_runtime => exact ⟨rfl, .inl rfl⟩

/-- A task is queued after a call if it was before, or is enqueued by it. -/
theorem on_rq_after_cases {on_rq : Nat → Bool} {c : Call} (h : System.on_rq_after on_rq c p = true) :
    on_rq p = true ∨ ∃ head, c = .enqueue_task_rt p head := by
  cases c with
  | enqueue_task_rt q head =>
    obtain rfl | hne := eq_or_ne p q
    · exact .inr ⟨head, rfl⟩
    · rw [System.on_rq_after, update_of_ne hne] at h
      exact .inl h
  | dequeue_task_rt q borrow delta_exec =>
    obtain rfl | hne := eq_or_ne p q
    · rw [System.on_rq_after, update_self] at h
      cases h
    · rw [System.on_rq_after, update_of_ne hne] at h
      exact .inl h
  | requeue_task_rt | update_curr_rt | sched_rt_runtime_exceeded | do_sched_rt_period_timer | set_curr | set_task
  | set_bandwidth => exact .inl h

/-- A valid call of the system is one of the run queue. -/
theorem Settled.valid_call (h : Settled S) {c : Call} (hv : (Event.call cpu c).Valid S) : c.Valid (S.cpu_rq cpu) := by
  cases c with
  | enqueue_task_rt p head => exact hv.2
  | set_task p t =>
    have hoff : ¬ on_rt_rq (S.cpu_rq cpu) (.task p) = true := by
      rw [(h.balanced.tallied cpu).on_rt_rq, h.balanced.queued cpu p]
      rintro ⟨hon, -⟩
      rw [hv] at hon
      cases hon
    exact Bool.eq_false_iff.mpr hoff
  | dequeue_task_rt | requeue_task_rt | update_curr_rt | sched_rt_runtime_exceeded | do_sched_rt_period_timer
  | set_curr | set_bandwidth => trivial

theorem Running.call (h : Running S) (hS : Settled S) {c : Call} (hv : (Event.call cpu c).Valid S)
    (ho : (Event.call cpu c).Ordered S) (hr : (Callback.event (.call cpu c)).Orderly S) :
    Running { S.store cpu (step (S.cpu_rq cpu) c) with on_rq := System.on_rq_after S.on_rq c } := by
  have hcurr : ∀ p, c ≠ .set_curr p := by
    rintro p rfl
    exact ho
  obtain ⟨hsame, htasks⟩ := (hS.balanced.tallied cpu).call_frame (hS.valid_call hv) hcurr
  refine h.of_same (curr_store hsame) (fun p => ?_) fun i hon => ?_
  · obtain htasks | ⟨q, t, rfl, htasks⟩ := htasks
    · exact congrArg task_struct.on_cpu (congrFun htasks p)
    · refine (congrArg task_struct.on_cpu (congrFun htasks p)).trans ?_
      obtain rfl | hne := eq_or_ne p q
      · rw [update_self]
        exact hr
      · rw [update_of_ne hne]
        rfl
  · obtain hon | ⟨head, rfl⟩ := on_rq_after_cases hon
    · exact h.here i hon
    · -- A task that runs is enqueued on the CPU where it runs.
      have hwhere : (S.rqs cpu).curr = (S.rqs i).curr := hr ((h.on_cpu _).mpr ⟨i, rfl⟩)
      exact hv.1.trans (h.once cpu i hwhere)

theorem Settled.call_aside (h : Settled S) {c : Call} (hv : (Event.call cpu c).Valid S) {i : Nat} (hi : i ≠ cpu) :
    Aside S { S.store cpu (step (S.cpu_rq cpu) c) with on_rq := System.on_rq_after S.on_rq c } i := by
  have hcalled := h.balanced.called cpu c hv
  refine aside_store hi fun p hon hcpu => ⟨?_, ?_⟩
  · rw [hcalled.elsewhere p (hcpu ▸ hi), hon]
  · by_contra hne
    rw [hcalled.tasks p hne] at hon
    cases hon

theorem Running.set_cpus_allowed_rt {r : rq} {on_rq : Bool} {new_mask : List Nat} (h : Running S)
    (hr : Rebound (S.cpu_rq (S.task_cpu p)) r on_rq p new_mask) :
    Running (S.store (S.task_cpu p) r) ∧ ∀ i, i ≠ S.task_cpu p → Aside S (S.store (S.task_cpu p) r) i := by
  have htasks : ∀ q, q ≠ p → r.tasks q = S.tasks q := fun q hq => by
    rw [hr.tasks, rebind, update_of_ne hq]
    rfl
  refine ⟨h.of_same (curr_store hr.curr) (fun q => ?_) h.here, fun i hi => aside_store hi fun q hon hcpu => ⟨hon, ?_⟩⟩
  · obtain rfl | hne := eq_or_ne q p
    · refine (congrArg task_struct.on_cpu (congrFun hr.tasks q)).trans ?_
      rw [rebind, update_self]
      rfl
    · exact congrArg task_struct.on_cpu (htasks q hne)
  · refine htasks q ?_
    rintro rfl
    exact hi hcpu.symm

theorem Running.set_task_cpu (h : Running S) (hoff : S.on_rq p = false) (cpu : Nat) :
    Running (S.set_task_cpu p cpu) ∧ ∀ i, Aside S (S.set_task_cpu p cpu) i := by
  have hqueued : ∀ q, S.on_rq q = true → (S.set_task_cpu p cpu).task_cpu q = S.task_cpu q := by
    intro q hon
    refine update_of_ne ?_ _ _
    rintro rfl
    rw [hoff] at hon
    cases hon
  refine ⟨h.of_same (fun _ => rfl) (fun _ => rfl) fun c hon => ?_, fun i => ⟨rfl, fun q hon hcpu => ⟨hon, ?_, rfl⟩⟩⟩
  · rw [hqueued _ hon]
    exact h.here c hon
  · rw [hqueued q hon, hcpu]

/-- What happens to the list of pushable tasks and to the time a task has run leaves who runs where. -/
theorem Running.steady {r : rq} (h : Running S) (hcurr : r.curr = (S.rqs cpu).curr) (htasks : r.tasks = S.tasks) :
    Running (S.store cpu r) ∧ ∀ i, i ≠ cpu → Aside S (S.store cpu r) i :=
  ⟨h.of_same (curr_store hcurr) (fun p => congrArg task_struct.on_cpu (congrFun htasks p)) h.here,
    fun _ hi => aside_store hi fun p hon _ => ⟨hon, congrFun htasks p⟩⟩

/-- Who is marked after a switch. -/
theorem on_cpu_switch (tasks : Nat → task_struct) (prev next q : Nat) :
    (update (update tasks prev { tasks prev with on_cpu := false }) next
      { update tasks prev { tasks prev with on_cpu := false } next with on_cpu := true } q).on_cpu = true ↔
      q = next ∨ q ≠ prev ∧ (tasks q).on_cpu = true := by
  by_cases hnext : q = next
  · rw [hnext, update_self]
    exact iff_of_true rfl (.inl rfl)
  · rw [update_of_ne hnext]
    by_cases hprev : q = prev
    · rw [hprev, update_self]
      exact iff_of_false (by simp) (by simp [hprev ▸ hnext])
    · rw [update_of_ne hprev]
      simp [hnext, hprev]

theorem Running.schedule {r : rq} {borrow : task_group → Nat} {delta_exec next : Nat} (h : Running S) (hS : Settled S)
    (hclass : (S.tasks next).rt_class = false) (hnext : (S.tasks next).on_cpu = true → (S.rqs cpu).curr = next)
    (hr : sched_rt.schedule borrow delta_exec next (S.cpu_rq cpu) = .ok r) :
    Running (S.store cpu r) ∧ ∀ i, i ≠ cpu → Aside S (S.store cpu r) i := by
  obtain ⟨hpicked, htasks⟩ := schedule_switch (hS.inv cpu) borrow delta_exec next hr
  -- What another class has to run is not queued in this one.
  have hhere : S.on_rq r.curr = true → S.task_cpu r.curr = cpu := by
    intro hon
    obtain hqueued | heq := hpicked
    · exact ((hS.balanced.queued cpu _).mp hqueued).2
    · have hrt := hS.rt_class _ hon
      rw [heq, hclass] at hrt
      cases hrt
  -- The next task runs nowhere else, whether it was queued here or is of another class.
  have hfree : ∀ i, i ≠ cpu → (S.rqs i).curr ≠ r.curr := by
    intro i hi
    obtain hqueued | heq := hpicked
    · obtain ⟨hon, hcpu⟩ := (hS.balanced.queued cpu _).mp hqueued
      exact h.curr_ne hon (hcpu ▸ hi.symm)
    · intro hcurr
      have hwhere : (S.rqs cpu).curr = next := hnext ((h.on_cpu next).mpr ⟨i, hcurr.trans heq⟩)
      exact hi (h.once i cpu (by rw [hcurr, heq, hwhere]))
  have hcurr_self : ((S.store cpu r).rqs cpu).curr = r.curr := by rw [rqs_store_self]
  have hcurr_ne : ∀ i, i ≠ cpu → ((S.store cpu r).rqs i).curr = (S.rqs i).curr := fun i hi => by
    rw [rqs_store_of_ne S r hi]
  refine ⟨⟨fun q => ?_, fun c c' hcc => ?_, fun c hon => ?_⟩, fun i hi => aside_store hi fun q hon hcpu => ⟨hon, ?_⟩⟩
  · have hmarked : ((S.store cpu r).tasks q).on_cpu = true ↔ q = r.curr ∨ q ≠ (S.rqs cpu).curr ∧ (S.tasks q).on_cpu = true :=
      (congrArg (fun t : task_struct => t.on_cpu = true) (congrFun htasks q)).to_iff.trans (on_cpu_switch ..)
    rw [hmarked, h.on_cpu]
    constructor
    · rintro (rfl | ⟨hne, c, rfl⟩)
      · exact ⟨cpu, hcurr_self⟩
      · exact ⟨c, hcurr_ne c fun heq => hne (heq ▸ rfl)⟩
    · rintro ⟨c, rfl⟩
      by_cases hc : c = cpu
      · exact .inl (hc ▸ hcurr_self)
      · rw [hcurr_ne c hc]
        exact .inr ⟨fun heq => hc (h.once c cpu heq), c, rfl⟩
  · by_cases hc : c = cpu <;> by_cases hc' : c' = cpu
    · rw [hc, hc']
    · rw [hc, hcurr_self, hcurr_ne c' hc'] at hcc
      exact absurd hcc.symm (hfree c' hc')
    · rw [hc', hcurr_self, hcurr_ne c hc] at hcc
      exact absurd hcc (hfree c hc)
    · rw [hcurr_ne c hc, hcurr_ne c' hc'] at hcc
      exact h.once c c' hcc
  · by_cases hc : c = cpu
    · subst hc
      rw [hcurr_self] at hon ⊢
      exact hhere hon
    · rw [hcurr_ne c hc] at hon ⊢
      exact h.here c hon
  · have hne_next : q ≠ r.curr := by
      rintro rfl
      exact hi (hcpu.symm.trans (hhere hon))
    have hne_prev : q ≠ (S.cpu_rq cpu).curr := fun hq => h.curr_ne hon (hcpu ▸ hi) hq.symm
    rw [htasks, update_of_ne hne_next, update_of_ne hne_prev]
    rfl

theorem put_prev_task_rt_frame (borrow : task_group → Nat) (delta_exec : Nat) (s : rq) (p : Nat) :
    (sched_rt.put_prev_task_rt borrow delta_exec s p).curr = s.curr ∧
      (sched_rt.put_prev_task_rt borrow delta_exec s p).tasks = s.tasks := by
  have haccount := steady_update_curr_rt borrow delta_exec s
  rw [sched_rt.put_prev_task_rt]
  split
  · exact ⟨haccount.curr, haccount.tasks⟩
  · exact ⟨haccount.curr, haccount.tasks⟩

/-- Callbacks keep who runs where in order, and touch nothing of the run queues they do not lock. -/
theorem Running.callback (h : Running S) (hS : Settled S) {c : Callback} (hv : c.Valid S) (ho : c.Orderly S)
    (hc : S.callback c = .ok S') : Running S' ∧ ∀ i, c.rq S ≠ some i → Aside S S' i := by
  cases c with
  | event e =>
    obtain ⟨hv, hordered⟩ := hv
    cases e with
    | call cpu c =>
      cases hc
      exact ⟨h.call hS hv hordered ho, fun i hi => hS.call_aside hv fun heq => hi (congrArg some heq.symm)⟩
    | set_cpus_allowed_rt p new_mask =>
      obtain ⟨r, hcall, hr, -⟩ := hS.balanced.set_cpus_allowed_rt hv new_mask
      rw [System.callback, System.step, hcall] at hc
      cases hc
      obtain ⟨hrunning, haside⟩ := h.set_cpus_allowed_rt hr
      exact ⟨hrunning, fun i hi => haside i fun heq => hi (congrArg some heq.symm)⟩
    | set_rq_online cpu => exact hordered.elim
    | set_rq_offline cpu => exact hordered.elim
    | set_task_cpu p cpu =>
      cases hc
      obtain ⟨hrunning, haside⟩ := h.set_task_cpu hv cpu
      exact ⟨hrunning, fun i _ => haside i⟩
  | set_curr_task_rt cpu =>
    cases hc
    have hcurr : (sched_rt.set_curr_task_rt (S.cpu_rq cpu)).curr = (S.rqs cpu).curr := rfl
    obtain ⟨hrunning, haside⟩ := h.steady hcurr rfl
    exact ⟨hrunning, fun i hi => haside i fun heq => hi (congrArg some heq.symm)⟩
  | put_prev_task_rt cpu borrow delta_exec =>
    cases hc
    obtain ⟨hcurr, htasks⟩ := put_prev_task_rt_frame borrow delta_exec (S.cpu_rq cpu) (S.cpu_rq cpu).curr
    obtain ⟨hrunning, haside⟩ := h.steady hcurr htasks
    exact ⟨hrunning, fun i hi => haside i fun heq => hi (congrArg some heq.symm)⟩
  | schedule cpu borrow delta_exec next =>
    obtain ⟨r, hr, hstore⟩ := checked.bind_eq_ok.mp hc
    cases hstore
    obtain ⟨hrunning, haside⟩ := h.schedule hS hv ho hr
    exact ⟨hrunning, fun i hi => haside i fun heq => hi (congrArg some heq.symm)⟩

end Callbacks

section Transfer

/-- A task is taken to another CPU, as in `push_rt_task` and `pull_rt_task`, under the locks of both. -/
def System.transfer (a : Accounting) (S : System) (src p dst : Nat) : System :=
  ((S.deactivate_task a src p).set_task_cpu p dst).activate_task dst p

/-- The task is on the other CPU, and nothing else is different than the two run queues. -/
structure Transferred (S S' : System) (src p dst : Nat) : Prop where
  settled : Settled S'
  tasks : S'.tasks = S.tasks
  on_rq : S'.on_rq = S.on_rq
  task_cpu : S'.task_cpu = update S.task_cpu p dst
  curr : ∀ c, (S'.rqs c).curr = (S.rqs c).curr
  others : ∀ i, i ≠ src → i ≠ dst → S'.rqs i = S.rqs i

theorem Settled.transfer {src dst : Nat} (h : Settled S) (a : Accounting) (hon : S.on_rq p = true)
    (hcpu : S.task_cpu p = src) : Transferred S (S.transfer a src p dst) src p dst := by
  have hprio : (S.tasks p).prio < MAX_RT_PRIO := by
    obtain ⟨g, hg⟩ := (h.balanced.queued src p).mpr ⟨hon, hcpu⟩
    exact ((h.balanced.tallied src).home g p hg).2
  obtain ⟨htasks₁, hcurr₁, -⟩ := dequeue_task_rt_frame (h.balanced.tallied src) a p
  have h₁ : Settled (S.deactivate_task a src p) := h.call (c := .dequeue_task_rt p a.borrow a.delta_exec) hcpu trivial
  set S₁ := S.deactivate_task a src p with hS₁
  have hoff : S₁.on_rq p = false := update_self _ _ _
  have h₂ : Settled (S₁.set_task_cpu p dst) := h₁.set_task_cpu hoff dst
  set S₂ := S₁.set_task_cpu p dst with hS₂
  have htasks₂ : S₂.tasks = S.tasks := htasks₁
  have hvalid : (Event.call dst (.enqueue_task_rt p false)).Valid S₂ := ⟨update_self _ _ _, htasks₂ ▸ hprio⟩
  have hordered : (Event.call dst (.enqueue_task_rt p false)).Ordered S₂ := by
    have hclass := h.rt_class p hon
    rw [← htasks₂] at hclass
    exact hclass
  have h₃ : Settled (S₂.activate_task dst p) := h₂.call hvalid hordered
  obtain ⟨hcurr₃, -⟩ := (h₂.balanced.tallied dst).call_frame (h₂.valid_call hvalid) (by simp)
  refine ⟨h₃, ?_, ?_, rfl, fun c => ?_, fun i hsrc hdst => ?_⟩
  · exact (tasks_enqueue_task_rt (h₂.balanced.tallied dst) hvalid.2 false).trans htasks₂
  · have hupdate : (S₂.activate_task dst p).on_rq = update (update S.on_rq p false) p true := rfl
    rw [System.transfer, ← hS₁, ← hS₂, hupdate, update_idem, ← hon, update_eq_self]
  · have hthere : ((S₂.activate_task dst p).rqs c).curr = (S₂.rqs c).curr := curr_store hcurr₃ c
    exact hthere.trans (curr_store hcurr₁ c)
  · exact (rqs_store_of_ne S₂ _ hdst).trans (rqs_store_of_ne S _ hsrc)

theorem Transferred.running {src dst : Nat} (h : Transferred S S' src p dst) (hS : Running S)
    (hrunning : ∀ c, (S.rqs c).curr ≠ p) : Running S' := by
  refine hS.of_same h.curr (fun q => by rw [h.tasks]) fun c hon => ?_
  rw [h.task_cpu, update_of_ne (hrunning c)]
  rw [h.on_rq] at hon
  exact hS.here c hon

theorem Transferred.aside {src dst i : Nat} (h : Transferred S S' src p dst) (hcpu : S.task_cpu p = src)
    (hsrc : i ≠ src) (hdst : i ≠ dst) : Aside S S' i := by
  refine ⟨h.others i hsrc hdst, fun q hon hq => ⟨by rw [h.on_rq, hon], ?_, by rw [h.tasks]⟩⟩
  rw [h.task_cpu, update_of_ne, hq]
  rintro rfl
  exact hsrc (hq.symm.trans hcpu)

end Transfer

end cs444.sched_rt
