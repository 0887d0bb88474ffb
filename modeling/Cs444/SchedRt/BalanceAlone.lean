import Cs444.SchedRt.BalanceProgress

open Function locks

namespace cs444.sched_rt.balance

variable {E : Platform} {M M' M'' : Machine} {c rq : Nat} {caller : Caller}

section Alone

/-- One CPU goes on in its push or pull while the others do nothing. -/
def Alone (E : Platform) (c : Nat) (M M' : Machine) : Prop :=
  ∃ ms : List Move, (∀ m ∈ ms, m.goes c = true) ∧ ValidRun E M ms ∧ run E M ms = .ok M'

theorem Alone.trans (h : Alone E c M M') (h' : Alone E c M' M'') : Alone E c M M'' := by
  obtain ⟨ms, hgo, hvalid, hrun⟩ := h
  obtain ⟨ms', hgo', hvalid', hrun'⟩ := h'
  refine ⟨ms ++ ms', fun m hm => ?_, hvalid.append hrun hvalid', (checked.run_append hrun ms').trans hrun'⟩
  obtain hm | hm := List.mem_append.mp hm
  · exact hgo m hm
  · exact hgo' m hm

/-- A step of a CPU that does not wait for a lock. -/
theorem Alone.step {lowest_mask : Option (List Nat)} {a : Accounting} (hbusy : (M.pc c).busy = true)
    (hwaits : (M.pc c).waits = none) (hmask : (M.pc c).Answers E M.sys lowest_mask)
    (hgo : M.advance E c lowest_mask a = .ok M') : Alone E c M M' := by
  refine ⟨[.go c lowest_mask a], fun m hm => ?_, ⟨⟨hbusy, ?_, hmask⟩, fun _ _ => trivial⟩, ?_⟩
  · obtain rfl := List.mem_singleton.mp hm
    simp [Move.goes]
  · rw [hwaits]
    exact fun _ h => absurd h (by simp)
  · have hstep : balance.step E M (.go c lowest_mask a) = .ok M' := hgo
    rw [run, checked.run, hstep]
    rfl

end Alone

section Find

/-- A step from the phase that a CPU has gone to. -/
theorem Alone.goto {phase : Phase} (lowest_mask : Option (List Nat)) (a : Accounting) (hbusy : phase.busy = true)
    (hwaits : phase.waits = none) (hmask : phase.Answers E M.sys lowest_mask)
    (hgo : (M.goto c phase).advance E c lowest_mask a = .ok M') : Alone E c (M.goto c phase) M' := by
  have hpc : (M.goto c phase).pc c = phase := goto_pc_self M c phase
  refine Alone.step ?_ ?_ ?_ hgo
  · rw [hpc]
    exact hbusy
  · rw [hpc]
    exact hwaits
  · rw [hpc]
    exact hmask

theorem goto_goto (M : Machine) (c : Nat) (phase phase' : Phase) : (M.goto c phase).goto c phase' = M.goto c phase' := by
  simp [Machine.goto]

/-- The callers that push as long as there is something to push. -/
def Caller.loops : Caller → Bool
  | .post_schedule_rt | .task_woken_rt => true
  | _ => false

theorem returned_of_loops (h : caller.loops = true) (M : Machine) (c rq : Nat) (moved : Bool) :
    M.returned c rq moved caller = M.goto c (if moved then .push rq caller else .hold rq) := by
  cases caller with
  | post_schedule_rt | task_woken_rt => rfl
  | pre_schedule_rt | switched_from_rt | switched_to_rt | prio_changed_rt => cases h

/-- The platform as the CPU sees it. -/
def Platform.on (E : Platform) (c : Nat) : Topology := { E.topology with smp_processor_id := c }

/-- The recorded priorities give a mask with CPUs on which the task may run. -/
theorem cpupri_find_answers {T : Topology} {rd : root_domain} {t : task_struct} :
    ∀ mask ∈ sched_rt.cpupri_find T rd t, ∀ b ∈ mask, b ∈ t.cpus_allowed ∧ b < T.nr_cpu_ids := by
  intro mask hmask b hb
  refine ⟨cpupri_find_subset hmask b hb, ?_⟩
  obtain ⟨idx, -, hidx⟩ := List.exists_of_findSome?_eq_some hmask
  dsimp only at hidx
  split at hidx
  · cases hidx
  · cases hidx
    have hin := (List.mem_filter.mp hb).1
    rw [pri_to_cpu] at hin
    exact List.mem_range.mp (List.mem_filter.mp hin).1

/-- What follows `find_lock_lowest_rq` in a push that nothing disturbs. -/
def Machine.found (M : Machine) (a : Accounting) (c rq task : Nat) (caller : Caller) : Option Nat → Machine
  | none => M.goto c (.again rq task caller)
  | some lowest_rq => ((M.transfer a rq task lowest_rq).resched_if true lowest_rq).goto c (.push rq caller)

/-- A try with the second lock. It is free, so that the first one is kept. -/
theorem try_alone (E : Platform) (c rq task tries : Nat) {b : Nat} (hloops : caller.loops = true)
    (hfree : M.lock b = none) (a : Accounting) :
    Alone E c (M.goto c (.trylock rq b (.push task tries) caller))
      (if ((M.sys.rqs b).rt []).highest_prio_curr > (M.sys.tasks task).prio then M.found a c rq task caller (some b)
        else M.goto c (.find rq task tries caller)) := by
  have hlock : Alone E c (M.goto c (.trylock rq b (.push task tries) caller))
      ((M.raw_spin_lock c b).goto c (.locked rq b false (.push task tries) caller)) := by
    have hfree : (M.goto c (.trylock rq b (.push task tries) caller)).lock b = none := hfree
    refine Alone.goto none a rfl rfl trivial ?_
    unfold Machine.advance
    rw [goto_pc_self]
    dsimp only
    rw [if_pos hfree]
    simp [Machine.goto, Machine.raw_spin_lock]
  refine hlock.trans (Alone.goto none a rfl rfl trivial ?_)
  have hunlock : update (update M.lock b (some c)) b none = M.lock := by
    rw [update_idem, ← hfree, update_eq_self]
  unfold Machine.advance
  rw [goto_pc_self]
  dsimp only
  rw [Machine.push_locked, Bool.false_and, if_neg Bool.false_ne_true, returned_of_loops hloops]
  by_cases hlower : ((M.sys.rqs b).rt []).highest_prio_curr > (M.sys.tasks task).prio
  · rw [if_pos hlower]
    refine congrArg Except.ok ((if_pos hlower).trans ?_)
    simp [Machine.goto, Machine.raw_spin_lock, Machine.raw_spin_unlock, Machine.found, Machine.transfer,
      Machine.resched_if, hunlock]
  · rw [if_neg hlower]
    refine congrArg Except.ok ((if_neg hlower).trans ?_)
    simp [Machine.goto, Machine.raw_spin_lock, Machine.raw_spin_unlock, hunlock]

/-- Where a try of `find_lock_lowest_rq` goes with what `find_lowest_rq` has returned. -/
def Phase.searched (rq task tries : Nat) (caller : Caller) : Option Nat → Phase
  | none => .again rq task caller
  | some cpu => if cpu = rq then .again rq task caller else .trylock rq cpu (.push task tries) caller

/-- The search with the mask that the recorded priorities give. -/
theorem search_alone (E : Platform) (M : Machine) (c rq task tries : Nat) (caller : Caller) (a : Accounting) :
    Alone E c (M.goto c (.find rq task (tries + 1) caller))
      (M.goto c (.searched rq task tries caller (find_lowest_rq (E.on c) M.sys task))) := by
  set lowest_mask := sched_rt.cpupri_find (E.on c) M.sys.rd (M.sys.tasks task) with hmask
  have hsearch : ∀ phase, find_lowest_rq_in { E.topology with smp_processor_id := c } (M.goto c phase).sys task
      lowest_mask = find_lowest_rq (E.on c) M.sys task := fun _ => rfl
  refine Alone.goto lowest_mask a rfl rfl cpupri_find_answers ?_
  unfold Machine.advance
  rw [goto_pc_self]
  dsimp only
  rw [hsearch, goto_goto]
  cases hlowest : find_lowest_rq (E.on c) M.sys task with
  | none => rfl
  | some b =>
    dsimp only
    rw [Phase.searched]
    split
    · rfl
    · rw [goto_goto]

/-- The loop of `find_lock_lowest_rq`, as a CPU goes through it alone. -/
theorem find_alone (E : Platform) (c : Nat) {task : Nat} (hloops : caller.loops = true)
    (hfree : ∀ b, b ≠ rq → M.lock b = none) (a : Accounting) (tries : Nat) :
    Alone E c (M.goto c (.find rq task tries caller))
      (M.found a c rq task caller (find_lock_lowest_rq (E.on c) M.sys rq task tries)) := by
  induction tries with
  | zero =>
    refine Alone.goto none a rfl rfl (fun mask hmask => absurd hmask (by simp)) ?_
    unfold Machine.advance
    rw [goto_pc_self]
    dsimp only
    rw [goto_goto]
    rfl
  | succ tries ih =>
    have hsearch := search_alone E M c rq task tries caller a
    rw [find_lock_lowest_rq]
    cases hlowest : find_lowest_rq (E.on c) M.sys task with
    | none =>
      rw [hlowest] at hsearch
      exact hsearch
    | some b =>
      rw [hlowest, Phase.searched] at hsearch
      dsimp only
      by_cases hself : b = rq
      · rw [if_pos hself] at hsearch ⊢
        exact hsearch
      rw [if_neg hself] at hsearch ⊢
      have htry := hsearch.trans (try_alone E c rq task tries hloops (hfree b hself) a)
      by_cases hlower : ((M.sys.rqs b).rt []).highest_prio_curr > (M.sys.tasks task).prio
      · rw [if_pos hlower] at htry ⊢
        exact htry
      · rw [if_neg hlower] at htry ⊢
        exact htry.trans ih

end Find

section Push

variable {P P' : Pushing}

/-- A push as the machine keeps a record of it. -/
def Push.migration (rq : Nat) (m : Push) : Migration := ⟨m.task, rq, m.lowest_cpu, m.before⟩

/-- The machine after some pushes, with all locks as they were. -/
def Machine.pushed (M : Machine) (rq : Nat) (P : Pushing) : Machine :=
  { M with sys := P.sys, migrations := M.migrations ++ P.pushes.map (Push.migration rq) }

/-- Where nothing was found, the first task of the list is still the same and is taken off it. -/
theorem again_alone (E : Platform) (c : Nat) (h : Settled M.sys) {x : Nat × Nat} (hloops : caller.loops = true)
    (hhead : ((M.sys.rqs rq).smp []).pushable_tasks.head? = some x) (a : Accounting) :
    Alone E c (M.goto c (.again rq x.2 caller))
      ({ M with sys := M.sys.store rq (dequeue_pushable_task (M.sys.cpu_rq rq) x.2) }.goto c (.push rq caller)) := by
  have hpick := pick_pushable h M.queued rq
  have hsame : M.sys.task_cpu x.2 = rq ∧ (some x : Option (Nat × Nat)).map Prod.snd = some x.2 :=
    ⟨(Chosen.of_head h hhead).here, rfl⟩
  rw [hhead] at hpick
  refine Alone.goto none a rfl rfl trivial ?_
  unfold Machine.advance
  rw [goto_pc_self]
  refine (congrArg (· >>= _) hpick).trans ((if_pos hsame).trans ?_)
  rw [returned_of_loops hloops]
  refine congrArg Except.ok ?_
  simp [Machine.goto]

/-- There is nothing to push. -/
theorem stop_alone (E : Platform) (c : Nat) (h : Settled M.sys) (hloops : caller.loops = true)
    (hnone : ((M.sys.rqs rq).smp []).overloaded = false ∨ ((M.sys.rqs rq).smp []).pushable_tasks.head? = none)
    (a : Accounting) : Alone E c (M.goto c (.push rq caller)) (M.goto c (.hold rq)) := by
  have hpick := pick_pushable h M.queued rq
  have hstop : Except.ok (ε := Bug) ((M.goto c (.push rq caller)).returned c rq false caller) = .ok (M.goto c (.hold rq)) := by
    rw [returned_of_loops hloops, goto_goto]
    rfl
  refine Alone.goto none a rfl rfl trivial ?_
  unfold Machine.advance
  rw [goto_pc_self]
  dsimp only
  split
  · exact hstop
  · rename_i hover
    obtain hfalse | hnone := hnone
    · exact absurd (congrArg Bool.not hfalse) hover
    rw [hnone] at hpick
    exact (congrArg (· >>= _) hpick).trans hstop

/-- The first task of the list is to be pushed, unless it should run here. -/
theorem start_alone (E : Platform) (c : Nat) (h : Settled M.sys) {x : Nat × Nat} (hloops : caller.loops = true)
    (hover : ((M.sys.rqs rq).smp []).overloaded = true)
    (hhead : ((M.sys.rqs rq).smp []).pushable_tasks.head? = some x) (a : Accounting) :
    Alone E c (M.goto c (.push rq caller))
      (if (M.sys.tasks x.2).prio < (M.sys.tasks (M.sys.rqs rq).curr).prio then
        { M with sys := M.sys.resched_curr rq }.goto c (.hold rq)
      else M.goto c (.find rq x.2 RT_MAX_TRIES caller)) := by
  have hpick := pick_pushable h M.queued rq
  have hover : ¬ (!((((M.goto c (.push rq caller)).sys.rqs rq).smp []).overloaded)) = true := by
    rw [Bool.not_eq_true', Bool.not_eq_false]
    exact hover
  rw [hhead] at hpick
  refine Alone.goto none a rfl rfl trivial ?_
  unfold Machine.advance
  rw [goto_pc_self]
  dsimp only
  rw [if_neg hover]
  refine (congrArg (· >>= _) hpick).trans (congrArg Except.ok ?_)
  unfold Machine.retry
  refine (if_neg (Chosen.of_head h hhead).waiting).trans ?_
  by_cases hprio : (M.sys.tasks x.2).prio < (M.sys.tasks (M.sys.rqs rq).curr).prio
  · rw [if_pos hprio]
    refine (if_pos hprio).trans ?_
    rw [returned_of_loops hloops]
    simp [Machine.goto, Machine.resched_if]
  · rw [if_neg hprio]
    refine (if_neg hprio).trans ?_
    exact goto_goto ..

/-- A call of `push_rt_task` in which nothing disturbs the CPU. -/
theorem push_rt_task_alone (E : Platform) (M : Machine) {n : Nat} {a : Accounting} {more : Bool} (h : Settled P.sys)
    (hloops : caller.loops = true) (hfree : ∀ b, b ≠ rq → M.lock b = none)
    (hcall : push_rt_task (E.on c) a rq (n + 1) P = .ok (some (P', more))) :
    Alone E c ((M.pushed rq P).goto c (.push rq caller))
      ((M.pushed rq P').goto c (if more then .push rq caller else .hold rq)) := by
  set N := M.pushed rq P with hN
  have hsettled : Settled N.sys := h
  have hfree : ∀ b, b ≠ rq → N.lock b = none := hfree
  simp only [push_rt_task] at hcall
  split at hcall
  · rename_i hover
    cases hcall
    have hover : ((P.sys.cpu_rq rq).smp []).overloaded = false := by simpa using hover
    exact stop_alone E c hsettled hloops (.inl hover) a
  rename_i hover
  have hover : ((P.sys.cpu_rq rq).smp []).overloaded = true := by simpa using hover
  rw [(h.pushableTasks rq).pick_eq] at hcall
  cases hhead : ((P.sys.rqs rq).smp []).pushable_tasks.head? with
  | none =>
    rw [hhead] at hcall
    cases hcall
    exact stop_alone E c hsettled hloops (.inr hhead) a
  | some x =>
    have hchosen : Chosen P.sys rq x.2 := .of_head h hhead
    have hstart := start_alone E c hsettled hloops hover hhead a
    rw [hhead] at hcall
    replace hcall : sched_rt.retry (E.on c) a rq P (n + 1) x.2 = .ok (some (P', more)) := hcall
    simp only [sched_rt.retry] at hcall
    have hwaiting : ¬ x.2 = (P.sys.cpu_rq rq).curr := hchosen.waiting
    rw [if_neg hwaiting] at hcall
    split at hcall
    · rename_i hprio
      have hprio : (N.sys.tasks x.2).prio < (N.sys.tasks (N.sys.rqs rq).curr).prio := hprio
      cases hcall
      rw [if_pos hprio] at hstart
      exact hstart
    rename_i hprio
    have hprio : ¬ (N.sys.tasks x.2).prio < (N.sys.tasks (N.sys.rqs rq).curr).prio := hprio
    rw [if_neg hprio] at hstart
    have hfind : Alone E c (N.goto c (.push rq caller))
        (N.found a c rq x.2 caller (find_lock_lowest_rq (E.on c) P.sys rq x.2 RT_MAX_TRIES)) :=
      hstart.trans (find_alone E c hloops hfree a RT_MAX_TRIES)
    cases hlowest : find_lock_lowest_rq (E.on c) P.sys rq x.2 RT_MAX_TRIES with
    | some b =>
      rw [hlowest] at hcall hfind
      cases hcall
      have hsame : M.pushed rq ⟨P.sys.migrate a rq x.2 b, P.pushes ++ [⟨x.2, b, P.sys⟩]⟩ =
          (N.transfer a rq x.2 b).resched_if true b := by
        simp [hN, Machine.pushed, Machine.transfer, Machine.resched_if, Push.migration, System.migrate, System.transfer]
      rw [hsame]
      exact hfind
    | none =>
      rw [hlowest] at hcall hfind
      dsimp only at hcall
      rw [(h.pushableTasks rq).pick_eq, hhead] at hcall
      have hsame : P.sys.task_cpu x.2 = rq ∧ (some x : Option (Nat × Nat)).map Prod.snd = some x.2 := ⟨hchosen.here, rfl⟩
      obtain ⟨rfl, rfl⟩ := Prod.mk.inj (Option.some.inj (Except.ok.inj ((if_pos hsame).symm.trans hcall)))
      exact hfind.trans (again_alone E c hsettled hloops hhead a)

theorem push_rt_tasks_alone (E : Platform) (M : Machine) {n : Nat} {a : Nat → Accounting} (h : Settled P.sys)
    (hloops : caller.loops = true) (hfree : ∀ b, b ≠ rq → M.lock b = none)
    (hcalls : push_rt_tasks (E.on c) a rq n P = .ok (some P')) :
    Alone E c ((M.pushed rq P).goto c (.push rq caller)) ((M.pushed rq P').goto c (.hold rq)) := by
  induction n generalizing P with
  | zero => cases hcalls
  | succ n ih =>
    obtain ⟨P₁, more, hcall, hpushed, -⟩ := h.push_rt_task (E.on c) (a n) rq n
    have hfirst := push_rt_task_alone E M h hloops hfree hcall
    rw [push_rt_tasks, hcall] at hcalls
    cases more with
    | false =>
      obtain rfl := Option.some.inj (Except.ok.inj hcalls)
      exact hfirst
    | true => exact hfirst.trans (ih hpushed.settled hcalls)

/-- A push during which no other run queue is locked and nothing happens on the other CPUs does what
    `push_rt_tasks` computes: the same tasks go to the same CPUs in the same order, and all locks are as they
    were. -/
theorem push_alone {M₀ : Machine} {ms : List Move} {n : Nat} (hinit : Initial M₀) (hms : ValidRun E M₀ ms)
    (hrun : run E M₀ ms = .ok M) (hpc : M.pc c = .push rq caller) (hloops : caller.loops = true)
    (hfree : ∀ b, b ≠ rq → M.lock b = none) (a : Nat → Accounting)
    (hn : ((M.sys.rqs rq).smp []).pushable_tasks.length < n) :
    ∃ P, push_rt_tasks (E.on c) a rq n ⟨M.sys, []⟩ = .ok (some P) ∧
      Alone E c M ((M.pushed rq P).goto c (.hold rq)) := by
  obtain ⟨M', hrun', hM⟩ := checked.run_ok (fun _ _ h => h.step_ok) hinit.inv hms
  obtain rfl : M' = M := Except.ok.inj (hrun'.symm.trans hrun)
  have hstart : Pushes rq M'.sys ⟨M'.sys, []⟩ :=
    ⟨⟨hM.core.settled, rfl, rfl, rfl⟩, fun _ hm => absurd hm List.not_mem_nil, fun _ hm => absurd hm List.not_mem_nil,
      fun _ _ => rfl⟩
  obtain ⟨P, hcalls, -⟩ := hstart.run (E.on c) a hn
  have halone := push_rt_tasks_alone (c := c) E M' hM.core.settled hloops hfree hcalls
  have hsame : (M'.pushed rq ⟨M'.sys, []⟩).goto c (.push rq caller) = M' := by
    simp [Machine.pushed, Machine.goto, ← hpc]
  rw [hsame] at halone
  exact ⟨P, hcalls, halone⟩

/-- Two tasks come to CPU 0, and the lock of the other CPU is free when one of them is to be pushed away. -/
def overloadThenPush : List Move :=
  [.lock 0 0, .callback 0 (.event (.call 0 (.enqueue_task_rt 1 false))),
    .callback 0 (.event (.call 0 (.enqueue_task_rt 3 false))), .callback 0 (.schedule 0 (fun _ => 0) 1 0),
    .enter 0 .post_schedule_rt]

theorem push_alone_sample : ∃ M P, run twoRunqueues idleMachine overloadThenPush = .ok M ∧
    push_rt_tasks (twoRunqueues.on 0) (fun _ => ⟨fun _ => 0, 1⟩) 0 2 ⟨M.sys, []⟩ = .ok (some P) ∧
    P.pushes.map (fun m => (m.task, m.lowest_cpu)) = [(3, 1)] ∧
    Alone twoRunqueues 0 M ((M.pushed 0 P).goto 0 (.hold 0)) := by
  have hvalid : ValidRun twoRunqueues idleMachine overloadThenPush := by decide +kernel
  have hpc : (run twoRunqueues idleMachine overloadThenPush).toOption.map
      (fun M => (M.pc 0, ((M.sys.rqs 0).smp []).pushable_tasks.length)) = some (.push 0 .post_schedule_rt, 1) := by
    decide +kernel
  have hpushes : ((run twoRunqueues idleMachine overloadThenPush).toOption.bind fun M =>
      (push_rt_tasks (twoRunqueues.on 0) (fun _ => ⟨fun _ => 0, 1⟩) 0 2 ⟨M.sys, []⟩).toOption.join).map
      (fun P => P.pushes.map fun m => (m.task, m.lowest_cpu)) = some [(3, 1)] := by decide +kernel
  have hlock : (run twoRunqueues idleMachine overloadThenPush).toOption.map (fun M => M.lock) =
      some (update idleMachine.lock 0 (some 0)) := by rfl
  obtain ⟨M, hrun, -⟩ := checked.run_ok (fun _ _ h => h.step_ok) initial_idleMachine.inv hvalid
  have hrun : run twoRunqueues idleMachine overloadThenPush = .ok M := hrun
  rw [hrun] at hpc hpushes hlock
  obtain ⟨hpc, hlength⟩ := Prod.mk.inj (Option.some.inj hpc)
  have hfree : ∀ b, b ≠ 0 → M.lock b = none := fun b hb =>
    (congrFun (Option.some.inj hlock) b).trans (update_of_ne hb _ _)
  have hshort : ((M.sys.rqs 0).smp []).pushable_tasks.length < 2 := by omega
  obtain ⟨P, hcalls, halone⟩ := push_alone initial_idleMachine hvalid hrun hpc rfl hfree (fun _ => ⟨fun _ => 0, 1⟩) hshort
  have hpushes : ((push_rt_tasks (twoRunqueues.on 0) (fun _ => ⟨fun _ => 0, 1⟩) 0 2 ⟨M.sys, []⟩).toOption.join).map
      (fun P => P.pushes.map fun m => (m.task, m.lowest_cpu)) = some [(3, 1)] := hpushes
  rw [hcalls] at hpushes
  exact ⟨M, P, hrun, hcalls, Option.some.inj hpushes, halone⟩

end Push

end cs444.sched_rt.balance
