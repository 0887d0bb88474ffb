import Cs444.SchedRt.Migrations

open Function locks

namespace cs444.sched_rt.balance

variable {E : Platform} {M M' : Machine} {S S' : System} {queued : Nat → Bool} {c rq p : Nat} {ms : List Move}

section Moves

/-- A callback of the class keeps the lock, and may begin a push or a pull. -/
theorem Inv.enter (h : Inv E M) (hpc : M.pc c = .hold rq) (entry : Entry) : Inv E (M.enter c rq entry) := by
  have hrq := h.phase c
  have hheld : (M.pc c).held = [rq] := by rw [hpc]; rfl
  rw [hpc] at hrq
  have hsame : Stepped M M [rq] := h.stepped [rq]
  have hgo : ∀ phase : Phase, phase.held = [rq] → phase.Ok E M.sys M.queued → Inv E (M.goto c phase) :=
    fun phase hphase hok => h.keep phase hheld ⟨hsame.core, hsame.left⟩ rfl rfl hphase hok
  -- The CPU stays in the core scheduler.
  have hstay : ∀ M', Stepped M M' [rq] → M'.lock = M.lock → M'.pc = M.pc → Inv E M' := fun M' hstepped hlock hpc' => by
    refine h.keep (.hold rq) hheld hstepped hlock ?_ rfl hrq
    rw [hpc', ← hpc, update_eq_self]
  have hresched : ∀ condition, Inv E (M.resched_if condition rq) := fun condition =>
    hstay _ (hsame.resched_if List.mem_cons_self condition) (resched_if_lock ..) (resched_if_pc ..)
  have hrequeue : ∀ p head, Stepped M (M.requeue rq p head) [rq] := fun p head => by
    have hsteady := (h.core.settled.balanced.tallied rq).requeue_all (for_each_sched_rt_entity (M.sys.cpu_rq rq) (.task p)) head
    exact hsame.store List.mem_cons_self (h.core.settled.call (c := .requeue_task_rt p head) trivial trivial)
      hsteady.curr hsteady.tasks
  cases entry with
  | pre_schedule_rt prev => exact iteInduction (fun _ => hgo _ rfl hrq) fun _ => h
  | post_schedule_rt => exact hgo _ rfl hrq
  | task_woken_rt p need_resched => exact iteInduction (fun _ => hgo _ rfl hrq) fun _ => h
  | switched_from_rt p => exact iteInduction (fun _ => hgo _ rfl hrq) fun _ => h
  | switched_to_rt p =>
    refine iteInduction (fun _ => iteInduction (fun _ => hgo _ rfl hrq) fun _ => ?_) fun _ => h
    exact h.keep_returned hheld hrq hsame rfl rfl false (.switched_to_rt p)
  | prio_changed_rt p oldprio =>
    refine iteInduction (fun _ => h) fun _ => iteInduction (fun _ => iteInduction (fun _ => hgo _ rfl hrq) fun _ => ?_)
      fun _ => hresched _
    exact h.keep_returned hheld hrq hsame rfl rfl false (.prio_changed_rt p)
  | check_preempt_curr_rt p need_resched found found_curr =>
    refine iteInduction (fun _ => hresched true) fun _ => iteInduction (fun _ => ?_) fun _ => h
    refine iteInduction (fun _ => h) fun _ => iteInduction (fun _ => h) fun _ => iteInduction (fun _ => h) fun _ => ?_
    exact hstay _ ((hrequeue p true).resched_if List.mem_cons_self true) (resched_if_lock ..) (resched_if_pc ..)
  | yield_task_rt => exact hstay _ (hrequeue _ false) rfl rfl

/-- What callbacks leave of the tasks that other classes have queued. -/
theorem Core.callback_foreign {warnings : List Warning} {migrations : List Migration} (h : Core S queued warnings migrations)
    {cb : Callback} (hv : cb.Valid S) (hpromised : Promised queued cb) (hcb : S.callback cb = .ok S')
    (hp : queued p = true) :
    S'.on_rq p = false ∧ MAX_RT_PRIO ≤ (S'.tasks p).prio ∧ S'.task_cpu p = S.task_cpu p := by
  obtain ⟨hoff, hprio⟩ := h.queued p hp
  cases cb with
  | event e =>
    obtain ⟨hv, hordered⟩ := hv
    cases e with
    | call cpu call =>
      cases hcb
      have hcurr : ∀ q, call ≠ .set_curr q := by
        rintro q rfl
        exact hordered
      obtain ⟨-, htasks⟩ := (h.settled.balanced.tallied cpu).call_frame (h.settled.valid_call hv) hcurr
      refine ⟨?_, ?_, rfl⟩
      · by_contra hon
        obtain hon | ⟨head, rfl⟩ := on_rq_after_cases (Bool.eq_true_of_not_eq_false hon)
        · exact Bool.noConfusion (hoff.symm.trans hon)
        · exact Bool.noConfusion (hp.symm.trans hpromised)
      · obtain htasks | ⟨q, t, rfl, htasks⟩ := htasks
        · exact hprio.trans (congrArg task_struct.prio (congrFun htasks p)).ge
        · refine le_of_le_of_eq ?_ (congrArg task_struct.prio (congrFun htasks p)).symm
          obtain rfl | hne := eq_or_ne p q
          · rw [update_self]
            exact hpromised hp
          · rw [update_of_ne hne]
            exact hprio
    | set_cpus_allowed_rt q new_mask =>
      obtain ⟨r, hcall, hr, -⟩ := h.settled.balanced.set_cpus_allowed_rt hv new_mask
      rw [System.callback, System.step, hcall] at hcb
      cases hcb
      have hsame : (r.tasks p).prio = (S.tasks p).prio := by
        rw [hr.tasks, rebind_prio]
        rfl
      exact ⟨hoff, hprio.trans hsame.ge, rfl⟩
    | set_rq_online cpu => exact hordered.elim
    | set_rq_offline cpu => exact hordered.elim
    | set_task_cpu q cpu =>
      cases hcb
      refine ⟨hoff, hprio, update_of_ne ?_ _ _⟩
      rintro rfl
      exact Bool.noConfusion (hp.symm.trans hpromised)
  | set_curr_task_rt cpu =>
    cases hcb
    exact ⟨hoff, hprio, rfl⟩
  | put_prev_task_rt cpu borrow delta_exec =>
    cases hcb
    obtain ⟨-, htasks⟩ := put_prev_task_rt_frame borrow delta_exec (S.cpu_rq cpu) (S.cpu_rq cpu).curr
    exact ⟨hoff, hprio.trans (congrArg task_struct.prio (congrFun htasks p)).ge, rfl⟩
  | schedule cpu borrow delta_exec next =>
    obtain ⟨r, hr, hstore⟩ := checked.bind_eq_ok.mp hcb
    cases hstore
    obtain ⟨-, htasks⟩ := schedule_switch (h.settled.inv cpu) borrow delta_exec next hr
    have hsame : (r.tasks p).prio = (S.tasks p).prio := by
      rw [htasks]
      exact (sameRole_switch _ _ _ p).prio
    exact ⟨hoff, hprio.trans hsame.ge, rfl⟩

theorem Inv.callback (h : Inv E M) {cb : Callback} (hv : (Move.callback c cb).Valid E M) :
    ∃ M', step E M (.callback c cb) = .ok M' ∧ Inv E M' := by
  obtain ⟨hvalid, horderly, hpromised, hlocked⟩ := hv
  obtain ⟨S', hcb, hsettled⟩ := h.core.settled.callback_ok hvalid
  obtain ⟨hrunning, haside⟩ := h.core.running.callback h.core.settled hvalid horderly hcb
  have hforeign := fun p => h.core.callback_foreign (p := p) hvalid hpromised hcb
  have hstepped : ∀ rqs, (∀ rq, cb.rq M.sys = some rq → rq ∈ rqs) → Stepped M { M with sys := S' } rqs := by
    intro rqs hrqs
    refine (h.stepped rqs).sys hsettled hrunning (fun p hp => ⟨(hforeign p hp).1, (hforeign p hp).2.1⟩)
      (fun p hp => (hforeign p hp).2.2) fun i hi => haside i fun heq => hi (hrqs i heq)
  refine ⟨{ M with sys := S' }, by rw [step, hcb]; rfl, ?_⟩
  have hpc : M.pc = update M.pc c (M.pc c) := (update_eq_self ..).symm
  refine h.step_of (M.pc c) (hstepped _ fun rq hrq => ?_) hpc ?_ ?_
  · rw [hlocked rq hrq]
    exact List.mem_cons_self
  · exact h.owned.relist fun _ => Iff.rfl
  · cases hrq : cb.rq M.sys with
    | none => exact (h.phase c).left fun i _ => (hstepped [] fun rq heq => absurd (hrq.symm.trans heq) (by simp)).left i (by simp)
    | some rq =>
      have hok := h.phase c
      rw [hlocked rq hrq] at hok ⊢
      exact hok

theorem Inv.set_queued (h : Inv E M) {b : Bool} (hv : (Move.set_queued c p b).Valid E M) :
    Inv E { M with queued := update M.queued p b } := by
  obtain ⟨hpc, hpromised⟩ := hv
  have hrq := h.phase c
  rw [hpc] at hrq
  refine h.keep (.hold (M.sys.task_cpu p)) (by rw [hpc]; rfl) ⟨{ h.core with queued := fun q hq => ?_ }, fun i hi => ?_⟩ rfl
    (by rw [← hpc, update_eq_self]) rfl hrq
  · dsimp only at hq ⊢
    obtain rfl | hne := eq_or_ne q p
    · rw [update_self] at hq
      exact hpromised hq
    · rw [update_of_ne hne] at hq
      exact h.core.queued q hq
  · refine ⟨.refl _ i, fun q hq => ⟨?_, hq.2⟩⟩
    dsimp only
    rw [update_of_ne, hq.1]
    rintro rfl
    exact hi (by simp [hq.2])

theorem Inv.step_ok (h : Inv E M) {m : Move} (hv : m.Valid E M) : ∃ M', step E M m = .ok M' ∧ Inv E M' := by
  cases m with
  | lock c rq =>
    obtain ⟨hpc, hfree, hlt⟩ := hv
    refine ⟨_, rfl, h.take (.hold rq) hfree (fun k => ?_) hlt⟩
    rw [hpc]
    simp [Phase.held]
  | unlock c =>
    obtain ⟨rq, hpc⟩ := hv
    refine ⟨_, by rw [step, hpc], h.drop .out ?_ (h.stepped _) rfl rfl (fun k => ?_) trivial⟩
    · simp [hpc, Phase.held]
    · rw [hpc]
      simp [Phase.held]
  | callback c cb => exact h.callback hv
  | set_queued c p queued => exact ⟨_, rfl, h.set_queued hv⟩
  | enter c entry =>
    obtain ⟨rq, hpc⟩ := hv
    exact ⟨_, by rw [step, hpc], h.enter hpc entry⟩
  | go c lowest_mask a => exact h.advance hv.2.1 hv.2.2 a

end Moves

section Runs

/-- What is seen of the CPUs after any number of moves: the run queues are in order, the tasks that run are
    marked as such and on one CPU each, a lock is held by one CPU, no `WARN_ON` has fired, and every task that
    was pushed or pulled might be. -/
structure Safe (M : Machine) : Prop where
  settled : Settled M.sys
  running : Running M.sys
  locks : ∀ rq c, M.lock rq = some c ↔ rq ∈ (M.pc c).held
  warnings : M.warnings = []
  migrations : ∀ m ∈ M.migrations, m.Allowed

theorem Inv.safe (h : Inv E M) : Safe M :=
  ⟨h.core.settled, h.core.running, h.owned, h.core.warnings, h.core.migrations⟩

/-- Two CPUs, the run queue of the second one before that of the first in memory. -/
def twoRunqueues : Platform where
  topology := twoCpus
  addr c := if c < 2 then 1 - c else c
  addr_injective c c' h := by
    dsimp only at h
    split at h <;> split at h <;> omega

/-- Each CPU runs a task with an even number, and the tasks with odd numbers are of the class, in the root group. -/
def idleMachine : Machine where
  sys :=
    { onlineSystem with
      rqs := fun cpu => { onlineSystem.rqs cpu with curr := 2 * cpu }
      tasks := fun p =>
        if p % 2 = 0 then { bootSystem.default_task with prio := 120, rt_class := false, on_cpu := true }
        else { bootSystem.default_task with rt_rq := [] } }
  queued _ := false
  lock _ := none
  pc _ := .out
  warnings := []
  migrations := []

theorem initial_idleMachine : Initial idleMachine where
  sys := ⟨fun _ => ⟨fun _ => rfl, rfl, rfl⟩, fun _ => rfl, fun _ => rfl, fun _ => rfl, fun _ => rfl, fun _ => rfl, rfl,
    fun _ => rfl⟩
  running := by
    refine ⟨fun p => ?_, fun c c' hcc => ?_, fun c hon => absurd hon (by simp [idleMachine, onlineSystem, bootSystem])⟩
    · by_cases hp : p % 2 = 0
      · exact iff_of_true (by simp [idleMachine, hp]) ⟨p / 2, by simp [idleMachine]; omega⟩
      · refine iff_of_false (by simp [idleMachine, hp, bootSystem.default_task]) ?_
        rintro ⟨c, hc⟩
        simp only [idleMachine] at hc
        omega
    · simp only [idleMachine] at hcc
      omega
  queued _ := rfl
  lock _ := rfl
  pc _ := rfl
  warnings := rfl
  migrations := rfl

/-- Two tasks come to CPU 0, which then pushes one of them away. The other CPU is in the scheduler at that time,
    so that the lock of CPU 0 is let go. -/
def overloadAndPush : List Move :=
  [.lock 0 0, .callback 0 (.event (.call 0 (.enqueue_task_rt 1 false))),
    .callback 0 (.event (.call 0 (.enqueue_task_rt 3 false))), .callback 0 (.schedule 0 (fun _ => 0) 1 0), .lock 1 1,
    .enter 0 .post_schedule_rt, .go 0 none ⟨fun _ => 0, 1⟩, .go 0 (some [1]) ⟨fun _ => 0, 1⟩, .go 0 none ⟨fun _ => 0, 1⟩]

/-- A CPU that spins on a lock has only locks below that one. -/
theorem Phase.Ok.waits {phase : Phase} (h : phase.Ok E S queued) {l : Nat} (hl : phase.waits = some l) :
    l < E.topology.nr_cpu_ids ∧ ∀ k ∈ phase.held, E.addr k < E.addr l := by
  cases phase with
  | nested rq busiest purpose caller =>
    cases hl
    refine ⟨h.1.busiest_lt, fun k hk => ?_⟩
    obtain rfl := List.mem_singleton.mp hk
    exact h.2.1
  | first rq busiest purpose caller =>
    cases hl
    exact ⟨h.1.busiest_lt, fun k hk => absurd hk List.not_mem_nil⟩
  | second rq busiest purpose caller =>
    cases hl
    refine ⟨h.1.rq_lt, fun k hk => ?_⟩
    obtain rfl := List.mem_singleton.mp hk
    exact h.2
  | out | hold | pull | scan | hint | trylock | locked | push | find | again => simp [Phase.waits] at hl

/-- The CPUs never wait for each other in a circle: as long as one is in the scheduler, some CPU in it can go on
    with its push or pull, or let go of its lock. -/
theorem balance_never_deadlocks (hinit : Initial M) (hms : ValidRun E M ms) (hrun : run E M ms = .ok M')
    (hc : M'.pc c ≠ .out) :
    ∃ c', M'.pc c' ≠ .out ∧ ((Move.unlock c').Valid E M' ∨ ∀ a, (Move.go c' none a).Valid E M') := by
  obtain ⟨M'', hrun', hM''⟩ := checked.run_ok (fun _ _ h => h.step_ok) hinit.inv hms
  obtain rfl : M'' = M' := Except.ok.inj (hrun'.symm.trans hrun)
  have hwaits : ∀ c l, (M''.pc c).waits = some l → ∀ k ∈ (M''.pc c).held, E.addr k < E.addr l := fun c l hl =>
    ((hM''.phase c).waits hl).2
  have hbound : ∀ c l, (M''.pc c).waits = some l →
      E.addr l < (Finset.range E.topology.nr_cpu_ids).sup E.addr + 1 := fun c l hl => by
    have hle : E.addr l ≤ (Finset.range E.topology.nr_cpu_ids).sup E.addr :=
      Finset.le_sup (Finset.mem_range.mpr ((hM''.phase c).waits hl).1)
    omega
  obtain ⟨c', hc', hfree⟩ := hM''.owned.exists_unblocked hwaits hbound c
  have hout : M''.pc c' ≠ .out := by
    obtain rfl | hheld := hc'
    · exact hc
    · intro hout
      exact hheld (by rw [hout]; rfl)
  refine ⟨c', hout, ?_⟩
  cases hbusy : (M''.pc c').busy with
  | true =>
    refine .inr fun a => ⟨hbusy, hfree, ?_⟩
    cases hpc : M''.pc c' with
    | find => exact fun mask hmask => absurd hmask (by simp)
    | out | hold | pull | scan | hint | trylock | nested | first | second | locked | push | again => trivial
  | false =>
    cases hpc : M''.pc c' with
    | out => exact absurd hpc hout
    | hold rq => exact .inl ⟨rq, hpc⟩
    | pull | scan | hint | trylock | nested | first | second | locked | push | find | again =>
      simp [hpc, Phase.busy] at hbusy

/-- The CPU that let go of its lock and the one that is in its way. -/
theorem balance_never_deadlocks_sample : ∃ M', run twoRunqueues idleMachine overloadAndPush = .ok M' ∧ M'.pc 0 ≠ .out ∧
    ∃ c', M'.pc c' ≠ .out ∧ ((Move.unlock c').Valid twoRunqueues M' ∨ ∀ a, (Move.go c' none a).Valid twoRunqueues M') := by
  have hvalid : ValidRun twoRunqueues idleMachine overloadAndPush := by decide +kernel
  have hpc : (run twoRunqueues idleMachine overloadAndPush).toOption.map (fun M => M.pc 0) =
      some (.first 0 1 (.push 3 2) .post_schedule_rt) := by decide +kernel
  obtain ⟨M', hrun, -⟩ := checked.run_ok (fun _ _ h => h.step_ok) initial_idleMachine.inv hvalid
  have hrun : run twoRunqueues idleMachine overloadAndPush = .ok M' := hrun
  rw [hrun] at hpc
  have hfirst : M'.pc 0 = .first 0 1 (.push 3 2) .post_schedule_rt := Option.some.inj hpc
  have hin : M'.pc 0 ≠ .out := by
    rw [hfirst]
    simp
  exact ⟨M', hrun, hin, balance_never_deadlocks initial_idleMachine hvalid hrun hin⟩

end Runs

end cs444.sched_rt.balance
