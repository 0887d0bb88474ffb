import Cs444.SchedRt.BalanceRuns

open Function locks

namespace cs444.sched_rt.balance

variable {E : Platform} {M M' : Machine} {c i rq p : Nat} {ms : List Move}

section OtherCpus

/-- No CPU changes where another one is. -/
theorem goto_pc_ne (hi : i ≠ c) (M : Machine) (phase : Phase) : (M.goto c phase).pc i = M.pc i :=
  update_of_ne hi _ _

theorem goto_pc_self (M : Machine) (c : Nat) (phase : Phase) : (M.goto c phase).pc c = phase :=
  update_self _ _ _

theorem returned_pc_ne (hi : i ≠ c) (M : Machine) (rq : Nat) (moved : Bool) (caller : Caller) :
    (M.returned c rq moved caller).pc i = M.pc i := by
  obtain hpc | hpc := (returned_frame M c rq moved caller).2
  · rw [hpc, update_of_ne hi]
  · rw [hpc, update_of_ne hi]

theorem retry_pc_ne (hi : i ≠ c) (M : Machine) (rq task : Nat) (caller : Caller) :
    (M.retry c rq task caller).pc i = M.pc i := by
  unfold Machine.retry
  split
  · exact returned_pc_ne hi ..
  split
  · rw [returned_pc_ne hi, resched_if_pc]
  · exact goto_pc_ne hi ..

theorem push_locked_pc_ne (hi : i ≠ c) (M : Machine) (a : Accounting) (rq lowest_rq : Nat) (unlocked : Bool)
    (task tries : Nat) (caller : Caller) : (M.push_locked a c rq lowest_rq unlocked task tries caller).pc i = M.pc i := by
  unfold Machine.push_locked
  split
  · exact goto_pc_ne hi ..
  split
  · rw [returned_pc_ne hi]
    exact congrFun (resched_if_pc (M.transfer a rq task lowest_rq) true lowest_rq) i
  · exact goto_pc_ne hi ..

theorem advance_pc_ne {lowest_mask : Option (List Nat)} {a : Accounting} (h : M.advance E c lowest_mask a = .ok M')
    (hi : i ≠ c) : M'.pc i = M.pc i := by
  have hgoto : ∀ (M₁ : Machine) (phase : Phase), M₁.pc = M.pc → Except.ok (ε := Bug) (M₁.goto c phase) = .ok M' →
      M'.pc i = M.pc i := fun M₁ phase hM₁ h => by
    cases h
    rw [goto_pc_ne hi, hM₁]
  have hreturned : ∀ (M₁ : Machine) (moved : Bool) (rq : Nat) (caller : Caller), M₁.pc = M.pc →
      Except.ok (ε := Bug) (M₁.returned c rq moved caller) = .ok M' → M'.pc i = M.pc i := fun M₁ moved rq caller hM₁ h => by
    cases h
    rw [returned_pc_ne hi, hM₁]
  have hretry : ∀ (rq task : Nat) (caller : Caller), Except.ok (ε := Bug) (M.retry c rq task caller) = .ok M' →
      M'.pc i = M.pc i := fun rq task caller h => by
    cases h
    exact retry_pc_ne hi ..
  unfold Machine.advance at h
  cases hpc : M.pc c with
  | out | hold =>
    rw [hpc] at h
    rw [← Except.ok.inj h]
  | pull rq caller =>
    simp only [hpc] at h
    split at h
    · exact hreturned M _ _ _ rfl h
    · exact hgoto M _ rfl h
  | scan rq cpu caller =>
    simp only [hpc] at h
    split at h
    · exact hreturned M _ _ _ rfl h
    split at h
    · exact hgoto M _ rfl h
    · exact hgoto M _ rfl h
  | hint rq cpu caller =>
    simp only [hpc] at h
    split at h
    · exact hgoto M _ rfl h
    · exact hgoto M _ rfl h
  | trylock rq busiest purpose caller =>
    simp only [hpc] at h
    split at h
    · exact hgoto (M.raw_spin_lock c busiest) _ rfl h
    split at h
    · exact hgoto (M.raw_spin_unlock rq) _ rfl h
    · exact hgoto M _ rfl h
  | nested rq busiest purpose caller | first rq busiest purpose caller =>
    simp only [hpc] at h
    exact hgoto (M.raw_spin_lock c busiest) _ rfl h
  | second rq busiest purpose caller =>
    simp only [hpc] at h
    exact hgoto (M.raw_spin_lock c rq) _ rfl h
  | locked rq busiest unlocked purpose caller =>
    cases purpose with
    | pull =>
      simp only [hpc] at h
      exact hgoto ((M.pull_locked a rq busiest).raw_spin_unlock busiest) _ (pull_locked_frame M a rq busiest).2 h
    | push task tries =>
      simp only [hpc] at h
      cases h
      exact push_locked_pc_ne hi ..
  | push rq caller =>
    simp only [hpc] at h
    split at h
    · exact hreturned M _ _ _ rfl h
    obtain ⟨next, -, h⟩ := checked.bind_eq_ok.mp h
    cases next with
    | none => exact hreturned M _ _ _ rfl h
    | some task => exact hretry _ _ _ h
  | find rq task tries caller =>
    simp only [hpc] at h
    cases tries with
    | zero => exact hgoto M _ rfl h
    | succ tries =>
      dsimp only at h
      split at h
      · exact hgoto M _ rfl h
      split at h
      · exact hgoto M _ rfl h
      · exact hgoto M _ rfl h
  | again rq task caller =>
    simp only [hpc] at h
    obtain ⟨next, -, h⟩ := checked.bind_eq_ok.mp h
    split at h
    · exact hreturned { M with sys := M.sys.store rq (dequeue_pushable_task (M.sys.cpu_rq rq) task) } _ _ _ rfl h
    cases next with
    | none => exact hreturned M _ _ _ rfl h
    | some task => exact hretry _ _ _ h

theorem enter_pc_ne (hi : i ≠ c) (M : Machine) (rq : Nat) (entry : Entry) : (M.enter c rq entry).pc i = M.pc i := by
  let same (M' : Machine) : Prop := M'.pc i = M.pc i
  have hgoto : ∀ phase, same (M.goto c phase) := fun phase => goto_pc_ne hi M phase
  have hreturned : ∀ caller, same (M.returned c rq false caller) := fun caller => returned_pc_ne hi M rq false caller
  have hresched : ∀ condition, same (M.resched_if condition rq) := fun condition => congrFun (resched_if_pc M condition rq) i
  cases entry with
  | pre_schedule_rt | task_woken_rt | switched_from_rt => exact iteInduction (motive := same) (fun _ => hgoto _) fun _ => rfl
  | post_schedule_rt => exact hgoto _
  | switched_to_rt p =>
    exact iteInduction (motive := same) (fun _ => iteInduction (motive := same) (fun _ => hgoto _) fun _ => hreturned _) fun _ => rfl
  | prio_changed_rt p oldprio =>
    refine iteInduction (motive := same) (fun _ => rfl) fun _ => iteInduction (motive := same) (fun _ => ?_) fun _ => hresched _
    exact iteInduction (motive := same) (fun _ => hgoto _) fun _ => hreturned _
  | check_preempt_curr_rt p need_resched found found_curr =>
    refine iteInduction (motive := same) (fun _ => hresched true) fun _ => iteInduction (motive := same) (fun _ => ?_) fun _ => rfl
    unfold Machine.check_preempt_equal_prio
    refine iteInduction (motive := same) (fun _ => rfl) fun _ => iteInduction (motive := same) (fun _ => rfl) fun _ => ?_
    exact iteInduction (motive := same) (fun _ => rfl) fun _ => congrFun (resched_if_pc (M.requeue rq p true) true rq) i
  | yield_task_rt => rfl

/-- A CPU that is inside a push or a pull stays where it is while the others move. -/
theorem step_pc_of_busy {m : Move} (hv : m.Valid E M) (h : step E M m = .ok M') (hbusy : (M.pc c).busy = true)
    (hm : ∀ lowest_mask a, m ≠ .go c lowest_mask a) : M'.pc c = M.pc c := by
  have hne : ∀ c', (M.pc c').busy = false → c ≠ c' := by
    rintro c' hidle rfl
    exact Bool.noConfusion (hbusy.symm.trans hidle)
  cases m with
  | lock c' rq =>
    cases h
    exact goto_pc_ne (hne c' (by rw [hv.1]; rfl)) _ _
  | unlock c' =>
    obtain ⟨rq, hpc⟩ := hv
    rw [step, hpc] at h
    cases h
    exact goto_pc_ne (hne c' (by rw [hpc]; rfl)) _ _
  | callback c' cb =>
    obtain ⟨S', -, h⟩ := checked.bind_eq_ok.mp h
    cases h
    rfl
  | set_queued c' p queued =>
    cases h
    rfl
  | enter c' entry =>
    obtain ⟨rq, hpc⟩ := hv
    rw [step, hpc] at h
    cases h
    exact enter_pc_ne (hne c' (by rw [hpc]; rfl)) M rq entry
  | go c' lowest_mask a =>
    refine advance_pc_ne h ?_
    rintro rfl
    exact hm lowest_mask a rfl

end OtherCpus

section Pull

/-- The run queue that tasks are being pulled to. -/
def Phase.pulling : Phase → Option Nat
  | .pull rq _ | .scan rq _ _ | .hint rq _ _ | .trylock rq _ .pull _ | .nested rq _ .pull _ | .first rq _ .pull _
  | .second rq _ .pull _ | .locked rq _ _ .pull _ => some rq
  | _ => none

/-- The steps that are left of a pull, at most: six for each CPU that it may still come to. -/
def Phase.left (nr_cpu_ids : Nat) : Phase → Nat
  | .pull _ _ => 6 * nr_cpu_ids + 1
  | .scan _ cpu _ => 6 * (nr_cpu_ids - cpu)
  | .hint _ cpu _ => 6 * (nr_cpu_ids - cpu) - 1
  | .trylock _ busiest _ _ => 6 * (nr_cpu_ids - busiest) - 2
  | .nested _ busiest _ _ | .first _ busiest _ _ => 6 * (nr_cpu_ids - busiest) - 3
  | .second _ busiest _ _ => 6 * (nr_cpu_ids - busiest) - 4
  | .locked _ busiest _ _ _ => 6 * (nr_cpu_ids - busiest) - 5
  | _ => 0

theorem Phase.busy_of_pulling {phase : Phase} (h : phase.pulling = some rq) : phase.busy = true := by
  cases phase <;> first | rfl | cases h

/-- A pull is over when it returns, whoever has called it. -/
theorem returned_false_pc (M : Machine) (c rq : Nat) (caller : Caller) : (M.returned c rq false caller).pc c = .hold rq := by
  cases caller with
  | pre_schedule_rt | switched_from_rt | post_schedule_rt | task_woken_rt | switched_to_rt | prio_changed_rt =>
    exact update_self _ _ _

/-- Each step of a pull brings it nearer to its end. -/
theorem advance_pulling (h : Inv E M) {lowest_mask : Option (List Nat)} {a : Accounting}
    (hp : (M.pc c).pulling = some rq) (hgo : M.advance E c lowest_mask a = .ok M') :
    M'.pc c = .hold rq ∨ (M'.pc c).pulling = some rq ∧
      (M'.pc c).left E.topology.nr_cpu_ids < (M.pc c).left E.topology.nr_cpu_ids := by
  have hok := h.phase c
  have hgoto : ∀ (M₁ : Machine) (phase : Phase), Except.ok (ε := Bug) (M₁.goto c phase) = .ok M' →
      phase.pulling = some rq → phase.left E.topology.nr_cpu_ids < (M.pc c).left E.topology.nr_cpu_ids →
      M'.pc c = .hold rq ∨ (M'.pc c).pulling = some rq ∧
        (M'.pc c).left E.topology.nr_cpu_ids < (M.pc c).left E.topology.nr_cpu_ids := fun M₁ phase h hpulling hless => by
    cases h
    rw [goto_pc_self]
    exact .inr ⟨hpulling, hless⟩
  have hreturned : ∀ caller, Except.ok (ε := Bug) (M.returned c rq false caller) = .ok M' → M'.pc c = .hold rq :=
    fun caller h => by
      cases h
      exact returned_false_pc M c rq caller
  unfold Machine.advance at hgo
  cases hpc : M.pc c with
  | pull rq' caller =>
    rw [hpc] at hp
    cases hp
    simp only [hpc] at hgo hgoto
    split at hgo
    · exact .inl (hreturned caller hgo)
    · refine hgoto M _ hgo rfl ?_
      simp only [Phase.left]
      omega
  | scan rq' cpu caller =>
    rw [hpc] at hp
    cases hp
    simp only [hpc] at hgo hgoto
    split at hgo
    · exact .inl (hreturned caller hgo)
    split at hgo
    all_goals
      refine hgoto M _ hgo rfl ?_
      simp only [Phase.left]
      omega
  | hint rq' cpu caller =>
    rw [hpc] at hp hok
    cases hp
    have hlt := hok.busiest_lt
    simp only [hpc] at hgo hgoto
    split at hgo
    all_goals
      refine hgoto M _ hgo rfl ?_
      simp only [Phase.left]
      omega
  | trylock rq' busiest purpose caller =>
    rw [hpc] at hp hok
    have hlt := hok.1.busiest_lt
    cases purpose with
    | push task tries => cases hp
    | pull =>
      cases hp
      simp only [hpc] at hgo hgoto
      split at hgo
      · refine hgoto _ _ hgo rfl ?_
        simp only [Phase.left]
        omega
      split at hgo
      all_goals
        refine hgoto _ _ hgo rfl ?_
        simp only [Phase.left]
        omega
  | nested rq' busiest purpose caller | first rq' busiest purpose caller | second rq' busiest purpose caller =>
    rw [hpc] at hp hok
    have hlt := hok.1.busiest_lt
    cases purpose with
    | push task tries => cases hp
    | pull =>
      cases hp
      simp only [hpc] at hgo hgoto
      refine hgoto _ _ hgo rfl ?_
      simp only [Phase.left]
      omega
  | locked rq' busiest unlocked purpose caller =>
    rw [hpc] at hp hok
    have hlt := hok.1.busiest_lt
    cases purpose with
    | push task tries => cases hp
    | pull =>
      cases hp
      simp only [hpc] at hgo hgoto
      refine hgoto _ _ hgo rfl ?_
      simp only [Phase.left]
      omega
  | out | hold | push | find | again =>
    rw [hpc] at hp
    cases hp

/-- The move is a step of a CPU in a push or a pull. -/
def Move.goes (c : Nat) : Move → Bool
  | .go c' _ _ => c' == c
  | _ => false

/-- Once begun, a pull is over after no more than six steps for each CPU and two, and it does not matter what the
    other CPUs do in the meantime: they may change `rto_mask` as the loop goes over it, and the lock of the run
    queue may be let go and taken again for each of them. -/
theorem pull_ends {ms₀ : List Move} {M₀ : Machine} {caller : Caller} (hinit : Initial M) (hms₀ : ValidRun E M ms₀)
    (hrun : run E M ms₀ = .ok M₀) (hpc : M₀.pc c = .pull rq caller) (hms : ValidRun E M₀ ms)
    (hcount : 6 * E.topology.nr_cpu_ids + 2 ≤ ms.countP (Move.goes c)) :
    ∃ ms₁ ms₂ M₁, ms = ms₁ ++ ms₂ ∧ run E M₀ ms₁ = .ok M₁ ∧ M₁.pc c = .hold rq := by
  obtain ⟨M₀', hrun', hM₀⟩ := checked.run_ok (fun _ _ h => h.step_ok) hinit.inv hms₀
  obtain rfl : M₀' = M₀ := Except.ok.inj (hrun'.symm.trans hrun)
  refine checked.run_reaches (fun M => (M.pc c).pulling = some rq) (fun M => M.pc c = .hold rq)
    (fun M => (M.pc c).left E.topology.nr_cpu_ids) (Move.goes c) (fun _ _ h => h.step_ok)
    (fun M m M' hM hp hv hm hstep => ?_) (fun M m M' hM hp hv hm hstep => ?_) hM₀ ?_ hms ?_
  · cases m with
    | go c' lowest_mask a =>
      obtain rfl : c' = c := by simpa [Move.goes] using hm
      exact advance_pulling hM hp hstep
    | lock | unlock | callback | set_queued | enter => cases hm
  · have hsame : M'.pc c = M.pc c := by
      refine step_pc_of_busy hv hstep (Phase.busy_of_pulling hp) ?_
      rintro lowest_mask a rfl
      simp [Move.goes] at hm
    rw [hsame]
    exact ⟨hp, Nat.le_refl _⟩
  · rw [hpc]
    rfl
  · rw [hpc]
    simp only [Phase.left]
    omega

/-- Two tasks come to CPU 0, and CPU 1 is about to run something else than a task of the class. -/
def overloadAndPull : List Move :=
  [.lock 0 0, .callback 0 (.event (.call 0 (.enqueue_task_rt 1 false))),
    .callback 0 (.event (.call 0 (.enqueue_task_rt 3 false))), .callback 0 (.schedule 0 (fun _ => 0) 1 0), .unlock 0,
    .lock 1 1, .enter 1 (.pre_schedule_rt 5)]

/-- The pull takes one of the tasks, and then there is nothing to push. -/
def pullThenPush : List Move :=
  List.replicate 7 (.go 1 none ⟨fun _ => 0, 1⟩) ++
    (List.replicate 7 [.enter 1 .post_schedule_rt, .go 1 none ⟨fun _ => 0, 1⟩]).flatten

theorem pull_ends_sample : ∃ M₀, run twoRunqueues idleMachine overloadAndPull = .ok M₀ ∧
    M₀.pc 1 = .pull 1 .pre_schedule_rt ∧ ValidRun twoRunqueues M₀ pullThenPush ∧
    ∃ ms₁ ms₂ M₁, pullThenPush = ms₁ ++ ms₂ ∧ run twoRunqueues M₀ ms₁ = .ok M₁ ∧ M₁.pc 1 = .hold 1 := by
  have hvalid : ValidRun twoRunqueues idleMachine overloadAndPull := by decide +kernel
  have hpc : (run twoRunqueues idleMachine overloadAndPull).toOption.map (fun M => M.pc 1) =
      some (.pull 1 .pre_schedule_rt) := by decide +kernel
  have hms : ValidRun twoRunqueues ((run twoRunqueues idleMachine overloadAndPull).toOption.getD idleMachine) pullThenPush := by
    decide +kernel
  obtain ⟨M₀, hrun, -⟩ := checked.run_ok (fun _ _ h => h.step_ok) initial_idleMachine.inv hvalid
  have hrun : run twoRunqueues idleMachine overloadAndPull = .ok M₀ := hrun
  rw [hrun] at hpc hms
  have hpc : M₀.pc 1 = .pull 1 .pre_schedule_rt := Option.some.inj hpc
  have hms : ValidRun twoRunqueues M₀ pullThenPush := hms
  exact ⟨M₀, hrun, hpc, hms, pull_ends initial_idleMachine hvalid hrun hpc hms (by decide)⟩

end Pull

end cs444.sched_rt.balance
