import Cs444.SchedRt.Balance

open Function locks

namespace cs444.sched_rt.balance

variable {E : Platform} {M M' : Machine} {S S' : System} {queued queued' : Nat → Bool}
  {c rq busiest src dst p : Nat} {rqs : List Nat}

section Invariant

/-- A task of a run queue that waits to run. -/
structure Chosen (S : System) (rq task : Nat) : Prop where
  queued : S.on_rq task = true
  here : S.task_cpu task = rq
  waiting : task ≠ (S.rqs rq).curr

/-- Two run queues. -/
structure Pair (E : Platform) (rq busiest : Nat) : Prop where
  rq_lt : rq < E.topology.nr_cpu_ids
  busiest_lt : busiest < E.topology.nr_cpu_ids
  ne : busiest ≠ rq

/-- A task of the CPU that is on the queues of another class. -/
def Foreign (S : System) (queued : Nat → Bool) (rq task : Nat) : Prop :=
  queued task = true ∧ S.task_cpu task = rq

/-- What is known of the task to be pushed as long as the lock of its run queue is kept. If the lock was let go
    in an earlier try, the task may have changed its class. -/
def Purpose.Ok (S : System) (queued : Nat → Bool) (rq busiest : Nat) : Purpose → Prop
  | .pull => True
  | .push task _ => Chosen S rq task ∧ busiest ∈ (S.tasks task).cpus_allowed ∨ Foreign S queued rq task

/-- What is known where a CPU is. A lock is waited for with another one in hand only in the order of their
    addresses. -/
def Phase.Ok (E : Platform) (S : System) (queued : Nat → Bool) : Phase → Prop
  | .out => True
  | .hold rq | .pull rq _ | .scan rq _ _ | .push rq _ | .again rq _ _ => rq < E.topology.nr_cpu_ids
  | .hint rq cpu _ => Pair E rq cpu
  | .trylock rq busiest purpose _ => Pair E rq busiest ∧ purpose.Ok S queued rq busiest
  | .nested rq busiest purpose _ => Pair E rq busiest ∧ E.addr rq < E.addr busiest ∧ purpose.Ok S queued rq busiest
  | .first rq busiest _ _ | .second rq busiest _ _ => Pair E rq busiest ∧ E.addr busiest < E.addr rq
  | .locked rq busiest unlocked purpose _ => Pair E rq busiest ∧ (unlocked = false → purpose.Ok S queued rq busiest)
  | .find rq task _ _ => rq < E.topology.nr_cpu_ids ∧ (Chosen S rq task ∨ Foreign S queued rq task)

/-- A migration as it should be: of a task that was queued on the one CPU and ran on none, to another CPU on
    which it may run, and where nothing of its priority or a higher one was queued. -/
structure Migration.Allowed (m : Migration) : Prop where
  away : m.dst ≠ m.src
  queued : m.before.on_rq m.task = true
  here : m.before.task_cpu m.task = m.src
  waiting : ∀ c, (m.before.rqs c).curr ≠ m.task
  cpus_allowed : m.dst ∈ (m.before.tasks m.task).cpus_allowed
  lower : ((m.before.rqs m.dst).rt []).highest_prio_curr > (m.before.tasks m.task).prio

/-- What holds of the run queues, whoever has their locks. -/
structure Core (S : System) (queued : Nat → Bool) (warnings : List Warning) (migrations : List Migration) : Prop where
  settled : Settled S
  running : Running S
  queued : ∀ p, queued p = true → S.on_rq p = false ∧ MAX_RT_PRIO ≤ (S.tasks p).prio
  warnings : warnings = []
  migrations : ∀ m ∈ migrations, m.Allowed

/-- What holds between two moves. -/
structure Inv (E : Platform) (M : Machine) : Prop where
  core : Core M.sys M.queued M.warnings M.migrations
  owned : Owned M.lock fun c => (M.pc c).held
  phase : ∀ c, (M.pc c).Ok E M.sys M.queued

theorem Initial.inv (h : Initial M) : Inv E M where
  core := ⟨h.sys.settled, h.running, fun p hp => absurd ((h.queued p).symm.trans hp) (by simp), h.warnings,
    fun m hm => absurd hm (by simp [h.migrations])⟩
  owned l c := by simp [h.lock, h.pc, Phase.held]
  phase c := by simp [h.pc, Phase.Ok]

end Invariant

section Frame

theorem Chosen.aside {task : Nat} (h : Chosen S rq task) (haside : Aside S S' rq) :
    Chosen S' rq task ∧ S'.tasks task = S.tasks task := by
  obtain ⟨hon, hcpu, htask⟩ := haside.queued task h.queued h.here
  refine ⟨⟨hon, hcpu, ?_⟩, htask⟩
  rw [haside.runqueue]
  exact h.waiting

/-- What a CPU leaves of a run queue that it has not locked. -/
structure Left (S : System) (queued : Nat → Bool) (S' : System) (queued' : Nat → Bool) (i : Nat) : Prop where
  aside : Aside S S' i
  foreign : ∀ p, Foreign S queued i p → Foreign S' queued' i p

theorem Left.refl (S : System) (queued : Nat → Bool) (i : Nat) : Left S queued S queued i :=
  ⟨.refl S i, fun _ h => h⟩

theorem Purpose.Ok.left {purpose : Purpose} (h : purpose.Ok S queued rq busiest) (hleft : Left S queued S' queued' rq) :
    purpose.Ok S' queued' rq busiest := by
  cases purpose with
  | pull => trivial
  | push task tries =>
    obtain ⟨hchosen, hallowed⟩ | hforeign := h
    · obtain ⟨hchosen, htask⟩ := hchosen.aside hleft.aside
      exact .inl ⟨hchosen, htask ▸ hallowed⟩
    · exact .inr (hleft.foreign task hforeign)

/-- What a CPU knows stays true while others work on run queues that it has not locked. -/
theorem Phase.Ok.left {phase : Phase} (h : phase.Ok E S queued) (hleft : ∀ i ∈ phase.held, Left S queued S' queued' i) :
    phase.Ok E S' queued' := by
  cases phase with
  | out | hold | pull | scan | push | again | hint | first | second => exact h
  | trylock rq busiest purpose caller => exact ⟨h.1, h.2.left (hleft rq List.mem_cons_self)⟩
  | nested rq busiest purpose caller => exact ⟨h.1, h.2.1, h.2.2.left (hleft rq List.mem_cons_self)⟩
  | locked rq busiest unlocked purpose caller => exact ⟨h.1, fun hkept => (h.2 hkept).left (hleft rq List.mem_cons_self)⟩
  | find rq task tries caller =>
    have hrq := hleft rq List.mem_cons_self
    exact ⟨h.1, h.2.imp (fun hchosen => (hchosen.aside hrq.aside).1) (hrq.foreign task)⟩

theorem Chosen.running {task : Nat} (h : Chosen S rq task) (hS : Running S) (c : Nat) : (S.rqs c).curr ≠ task := by
  obtain rfl | hne := eq_or_ne c rq
  · exact h.waiting.symm
  · exact hS.curr_ne h.queued (h.here ▸ hne.symm)

/-- Steps of a CPU on some run queues. -/
structure Stepped (M M' : Machine) (rqs : List Nat) : Prop where
  core : Core M'.sys M'.queued M'.warnings M'.migrations
  left : ∀ i, i ∉ rqs → Left M.sys M.queued M'.sys M'.queued i

theorem Inv.stepped (h : Inv E M) (rqs : List Nat) : Stepped M M rqs :=
  ⟨h.core, fun i _ => .refl _ _ i⟩

/-- One CPU steps on the run queues that it has locked, and goes to its next phase. -/
theorem Inv.step_of (h : Inv E M) (phase : Phase) (hstepped : Stepped M M' (M.pc c).held)
    (hpc : M'.pc = update M.pc c phase)
    (howned : Owned M'.lock (update (fun i => (M.pc i).held) c phase.held)) (hok : phase.Ok E M'.sys M'.queued) :
    Inv E M' := by
  refine ⟨hstepped.core, ?_, fun i => ?_⟩
  · have hheld : (fun i => (M'.pc i).held) = update (fun i => (M.pc i).held) c phase.held := by
      funext i
      obtain rfl | hne := eq_or_ne i c
      · simp [hpc]
      · simp [hpc, update_of_ne hne]
    rw [hheld]
    exact howned
  · obtain rfl | hne := eq_or_ne i c
    · simpa [hpc] using hok
    · rw [hpc, update_of_ne hne]
      refine (h.phase i).left fun r hr => hstepped.left r fun hc => hne ?_
      exact h.owned.exclusive hr hc

end Frame

section Operations

/-- A step of the system under the same classes, on run queues among those. -/
theorem Stepped.sys (h : Stepped M M' rqs) (hsettled : Settled S) (hrunning : Running S)
    (hqueued : ∀ p, M'.queued p = true → S.on_rq p = false ∧ MAX_RT_PRIO ≤ (S.tasks p).prio)
    (hcpu : ∀ p, M'.queued p = true → S.task_cpu p = M'.sys.task_cpu p)
    (haside : ∀ i, i ∉ rqs → Aside M'.sys S i) : Stepped M { M' with sys := S } rqs := by
  refine ⟨⟨hsettled, hrunning, hqueued, h.core.warnings, h.core.migrations⟩, fun i hi => ?_⟩
  refine ⟨(h.left i hi).aside.trans (haside i hi), fun p hp => ?_⟩
  obtain ⟨hother, hthere⟩ := (h.left i hi).foreign p hp
  exact ⟨hother, (hcpu p hother).trans hthere⟩

/-- The run queue changes and the tasks do not. -/
theorem Stepped.store {r : sched_rt.rq} (h : Stepped M M' rqs) (hrq : rq ∈ rqs) (hsettled : Settled (M'.sys.store rq r))
    (hcurr : r.curr = (M'.sys.rqs rq).curr) (htasks : r.tasks = M'.sys.tasks) :
    Stepped M { M' with sys := M'.sys.store rq r } rqs := by
  obtain ⟨hrunning, haside⟩ := h.core.running.steady hcurr htasks
  refine h.sys hsettled hrunning (fun p hp => ?_) (fun _ _ => rfl) fun i hi => haside i ?_
  · have hsame : (M'.sys.store rq r).tasks p = M'.sys.tasks p := congrFun htasks p
    rw [hsame]
    exact h.core.queued p hp
  · rintro rfl
    exact hi hrq

theorem Stepped.resched_if (h : Stepped M M' rqs) (hrq : rq ∈ rqs) (condition : Bool) :
    Stepped M (M'.resched_if condition rq) rqs := by
  unfold Machine.resched_if
  split
  · exact h.store hrq (h.core.settled.resched_curr rq) rfl rfl
  · exact h

theorem Stepped.transfer (h : Stepped M M' rqs) (a : Accounting) (hsrc : src ∈ rqs) (hdst : dst ∈ rqs)
    (hm : (⟨p, src, dst, M'.sys⟩ : Migration).Allowed) : Stepped M (M'.transfer a src p dst) rqs := by
  have htransferred : Transferred M'.sys (M'.sys.transfer a src p dst) src p dst :=
    h.core.settled.transfer a hm.queued hm.here
  have hstepped := h.sys htransferred.settled (htransferred.running h.core.running hm.waiting) (fun q hq => ?_)
    (fun q hq => ?_) fun i hi => htransferred.aside hm.here (fun heq => hi (heq ▸ hsrc)) fun heq => hi (heq ▸ hdst)
  · refine ⟨{ hstepped.core with migrations := fun m hin => ?_ }, hstepped.left⟩
    obtain hin | hin := List.mem_append.mp hin
    · exact h.core.migrations m hin
    · obtain rfl := List.mem_singleton.mp hin
      exact hm
  · rw [htransferred.on_rq, htransferred.tasks]
    exact h.core.queued q hq
  · -- A task that another class has queued is not the one that moves.
    rw [htransferred.task_cpu, update_of_ne]
    rintro rfl
    exact Bool.noConfusion ((h.core.queued q hq).1.symm.trans hm.queued)

theorem Stepped.returned (h : Stepped M M' rqs) (hrq : rq ∈ rqs) (c : Nat) (moved : Bool) (caller : Caller) :
    Stepped M (M'.returned c rq moved caller) rqs := by
  cases caller with
  | pre_schedule_rt | switched_from_rt | post_schedule_rt | task_woken_rt => exact ⟨h.core, h.left⟩
  | switched_to_rt p | prio_changed_rt p =>
    have hresched := h.resched_if hrq
    exact ⟨(hresched _).core, (hresched _).left⟩

theorem resched_if_lock (M : Machine) (condition : Bool) (rq : Nat) : (M.resched_if condition rq).lock = M.lock := by
  unfold Machine.resched_if
  split <;> rfl

theorem resched_if_pc (M : Machine) (condition : Bool) (rq : Nat) : (M.resched_if condition rq).pc = M.pc := by
  unfold Machine.resched_if
  split <;> rfl

/-- The CPU is back in the core scheduler, or begins another push. -/
theorem returned_frame (M : Machine) (c rq : Nat) (moved : Bool) (caller : Caller) :
    (M.returned c rq moved caller).lock = M.lock ∧
      ((M.returned c rq moved caller).pc = update M.pc c (.hold rq) ∨
        (M.returned c rq moved caller).pc = update M.pc c (.push rq caller)) := by
  cases caller with
  | pre_schedule_rt | switched_from_rt => exact ⟨rfl, .inl rfl⟩
  | post_schedule_rt | task_woken_rt =>
    cases moved with
    | false => exact ⟨rfl, .inl rfl⟩
    | true => exact ⟨rfl, .inr rfl⟩
  | switched_to_rt p | prio_changed_rt p =>
    refine ⟨resched_if_lock .., .inl ?_⟩
    simp only [Machine.returned, Machine.goto, resched_if_pc]

end Operations

section Steps

/-- A CPU with one lock steps on that run queue, and keeps the lock. -/
theorem Inv.keep (h : Inv E M) (phase : Phase) (hheld : (M.pc c).held = [rq]) (hstepped : Stepped M M' [rq])
    (hlock : M'.lock = M.lock) (hpc : M'.pc = update M.pc c phase) (hphase : phase.held = [rq])
    (hok : phase.Ok E M'.sys M'.queued) : Inv E M' := by
  refine h.step_of phase (hheld ▸ hstepped) hpc ?_ hok
  rw [hlock]
  refine h.owned.relist fun k => ?_
  rw [hphase, ← hheld]

/-- A push or a pull is over. -/
theorem Inv.keep_returned (h : Inv E M) (hheld : (M.pc c).held = [rq]) (hrq : rq < E.topology.nr_cpu_ids)
    (hstepped : Stepped M M' [rq]) (hlock : M'.lock = M.lock) (hpc : M'.pc = M.pc) (moved : Bool) (caller : Caller) :
    Inv E (M'.returned c rq moved caller) := by
  obtain ⟨hlock', hpc'⟩ := returned_frame M' c rq moved caller
  have hreturned := hstepped.returned List.mem_cons_self c moved caller
  rw [hpc] at hpc'
  obtain hpc' | hpc' := hpc'
  · exact h.keep _ hheld hreturned (hlock'.trans hlock) hpc' rfl hrq
  · exact h.keep _ hheld hreturned (hlock'.trans hlock) hpc' rfl hrq

/-- A CPU takes a lock that is free. -/
theorem Inv.take (h : Inv E M) (phase : Phase) (hfree : M.lock rq = none)
    (hheld : ∀ k, k ∈ phase.held ↔ k = rq ∨ k ∈ (M.pc c).held) (hok : phase.Ok E M.sys M.queued) :
    Inv E ((M.raw_spin_lock c rq).goto c phase) :=
  h.step_of phase ⟨h.core, fun i _ => .refl _ _ i⟩ rfl (h.owned.take hfree hheld) hok

/-- A CPU steps on the run queues it has locked, and lets go of one of them. -/
theorem Inv.drop (h : Inv E M) (phase : Phase) (hhas : rq ∈ (M.pc c).held) (hstepped : Stepped M M' (M.pc c).held)
    (hlock : M'.lock = M.lock) (hpc : M'.pc = M.pc) (hheld : ∀ k, k ∈ phase.held ↔ k ∈ (M.pc c).held ∧ k ≠ rq)
    (hok : phase.Ok E M'.sys M'.queued) : Inv E ((M'.raw_spin_unlock rq).goto c phase) := by
  refine h.step_of phase ⟨hstepped.core, hstepped.left⟩ ?_ ?_ hok
  · rw [← hpc]
    rfl
  · have howned := h.owned.drop hhas hheld
    rw [← hlock] at howned
    exact howned

/-- What is known of the two locks when one of them is let go. -/
theorem Pair.held_iff (h : Pair E rq busiest) (k : Nat) : k ∈ [rq] ↔ k ∈ [rq, busiest] ∧ k ≠ busiest := by
  simp only [List.mem_cons, List.not_mem_nil, or_false]
  constructor
  · rintro rfl
    exact ⟨.inl rfl, h.ne.symm⟩
  · rintro ⟨rfl | rfl, hne⟩
    · rfl
    · exact absurd rfl hne

/-- A task that is picked is still picked if more tasks are queued. -/
theorem pick_next_pushable_task_mono {r : sched_rt.rq} {task_cpu : Nat → Nat} {on_rq on_rq' : Nat → Bool} {next : Option Nat}
    (h : pick_next_pushable_task r task_cpu on_rq = .ok next) (hmono : ∀ p, on_rq p = true → on_rq' p = true) :
    pick_next_pushable_task r task_cpu on_rq' = .ok next := by
  unfold pick_next_pushable_task at h ⊢
  cases hlist : (r.smp []).pushable_tasks with
  | nil =>
    rw [hlist] at h
    exact h
  | cons x rest =>
    rw [hlist] at h
    dsimp only at h ⊢
    cases hon : on_rq x.2 with
    | true =>
      have hsame : on_rq' x.2 = on_rq x.2 := (hmono x.2 hon).trans hon.symm
      rwa [hsame]
    | false =>
      rw [hon] at h
      split_ifs at h
      all_goals simp_all

/-- A pushable task waits on its run queue, and no `BUG_ON` fires for it. -/
theorem pick_pushable (h : Settled S) (queued : Nat → Bool) (rq : Nat) :
    pick_next_pushable_task (S.cpu_rq rq) S.task_cpu (fun p => S.on_rq p || queued p) =
      .ok (((S.rqs rq).smp []).pushable_tasks.head?.map Prod.snd) :=
  pick_next_pushable_task_mono (h.pushableTasks rq).pick_eq fun p hp => by rw [hp, Bool.true_or]

theorem Chosen.of_head {x : Nat × Nat} (h : Settled S) (hx : ((S.rqs rq).smp []).pushable_tasks.head? = some x) :
    Chosen S rq x.2 := by
  have hmem := List.mem_of_head? hx
  obtain ⟨-, hon, hcpu⟩ := (h.pushableTasks rq).queued x hmem
  exact ⟨hon, hcpu, (h.pushableTasks rq).not_curr x hmem⟩

theorem Core.pick {warnings : List Warning} {migrations : List Migration}
    (h : Core S queued warnings migrations) (rq : Nat) :
    ∃ next, pick_next_pushable_task (S.cpu_rq rq) S.task_cpu (fun p => S.on_rq p || queued p) = .ok next ∧
      ∀ task, next = some task → Chosen S rq task := by
  refine ⟨_, pick_pushable h.settled queued rq, fun task htask => ?_⟩
  obtain ⟨x, hx, rfl⟩ := Option.map_eq_some_iff.mp htask
  exact .of_head h.settled hx

theorem Inv.retry (h : Inv E M) (hheld : (M.pc c).held = [rq]) (hrq : rq < E.topology.nr_cpu_ids) {task : Nat}
    (hchosen : Chosen M.sys rq task) (caller : Caller) : Inv E (M.retry c rq task caller) := by
  unfold Machine.retry
  rw [if_neg hchosen.waiting]
  have hstepped := h.stepped [rq]
  split
  · exact h.keep_returned hheld hrq (hstepped.resched_if List.mem_cons_self true) (resched_if_lock ..)
      (resched_if_pc ..) false caller
  · exact h.keep (.find rq task RT_MAX_TRIES caller) hheld ⟨hstepped.core, hstepped.left⟩ rfl rfl rfl
      ⟨hrq, .inl hchosen⟩

/-- The first lock may be let go and taken again in `double_lock_balance`. -/
theorem Inv.trylock (h : Inv E M) {purpose : Purpose} {caller : Caller}
    (hpc : M.pc c = .trylock rq busiest purpose caller) (lowest_mask : Option (List Nat)) (a : Accounting) :
    ∃ M', M.advance E c lowest_mask a = .ok M' ∧ Inv E M' := by
  have hok := h.phase c
  rw [hpc] at hok
  obtain ⟨hpair, hpurpose⟩ := hok
  have hheld : (M.pc c).held = [rq] := by rw [hpc]; rfl
  unfold Machine.advance
  simp only [hpc]
  split
  · rename_i hfree
    refine ⟨_, rfl, h.take (.locked rq busiest false purpose caller) hfree (fun k => ?_) ⟨hpair, fun _ => hpurpose⟩⟩
    rw [hheld]
    simp [Phase.held, or_comm]
  split
  · rename_i hbelow
    refine ⟨_, rfl, h.drop (.first rq busiest purpose caller) ?_ (h.stepped _) rfl rfl (fun k => ?_) ⟨hpair, hbelow⟩⟩
    · simp [hheld]
    · rw [hheld]
      simp [Phase.held]
  · rename_i hbelow
    have hne : E.addr rq ≠ E.addr busiest := fun heq => hpair.ne (E.addr_injective heq).symm
    have habove : E.addr rq < E.addr busiest := by omega
    exact ⟨_, rfl, h.keep (.nested rq busiest purpose caller) hheld ⟨h.core, fun i _ => .refl _ _ i⟩ rfl rfl rfl
      ⟨hpair, habove, hpurpose⟩⟩

/-- What `pick_next_highest_task_rt` finds on a run queue for another CPU. -/
theorem Core.pick_highest {warnings : List Warning} {migrations : List Migration}
    (h : Core S queued warnings migrations) (hpick : pick_next_highest_task_rt (S.cpu_rq src) (some dst) = some p) :
    Chosen S src p ∧ dst ∈ (S.tasks p).cpus_allowed := by
  obtain ⟨-, g, -, -, hmovable, -⟩ := walk_some (fun g _ => (h.settled.inv src).filed g) hpick
  obtain ⟨hon, hcpu⟩ := (h.settled.balanced.queued src p).mp ⟨g, hmovable.queued⟩
  have hp := hmovable.pick
  simp only [pick_rt_task, Option.all_some, Bool.and_eq_true, Bool.not_eq_true', List.contains_iff_mem] at hp
  refine ⟨⟨hon, hcpu, ?_⟩, hp.1.2⟩
  rintro rfl
  exact Bool.noConfusion (hp.1.1.symm.trans ((h.running.on_cpu _).mpr ⟨src, rfl⟩))

/-- A pull with both locks. The task that was found does not run, so that no `WARN_ON` fires. -/
theorem Stepped.pull_locked (h : Stepped M M' rqs) (a : Accounting) (hsrc : src ∈ rqs) (hdst : dst ∈ rqs)
    (hne : src ≠ dst) : Stepped M (M'.pull_locked a dst src) rqs := by
  unfold Machine.pull_locked
  dsimp only
  split
  · exact h
  split
  · exact h
  · rename_i p hpick
    obtain ⟨hchosen, hallowed⟩ := h.core.pick_highest hpick
    split
    · rename_i hlower
      have hcurr : (p == (M'.sys.cpu_rq src).curr) = false := beq_eq_false_iff_ne.mpr hchosen.waiting
      have hon : M'.on_rq p = true := by simp [Machine.on_rq, hchosen.queued]
      simp only [Machine.WARN_ON, hcurr, hon, Bool.not_true, Bool.false_eq_true, if_false]
      split
      · exact h
      · exact h.transfer a hsrc hdst
          ⟨hne.symm, hchosen.queued, hchosen.here, hchosen.running h.core.running, hallowed, hlower⟩
    · exact h

theorem pull_locked_frame (M : Machine) (a : Accounting) (this_cpu src_cpu : Nat) :
    (M.pull_locked a this_cpu src_cpu).lock = M.lock ∧ (M.pull_locked a this_cpu src_cpu).pc = M.pc := by
  unfold Machine.pull_locked Machine.WARN_ON
  dsimp only
  repeat' split
  all_goals exact ⟨rfl, rfl⟩

/-- No CPU is below the priority of a task of another class. -/
theorem Core.lower_ne_foreign {warnings : List Warning} {migrations : List Migration}
    (h : Core S queued warnings migrations) (hlower : ((S.rqs dst).rt []).highest_prio_curr > (S.tasks p).prio) :
    ¬ Foreign S queued rq p := by
  intro hforeign
  have hhighest : ((S.rqs dst).rt []).highest_prio_curr ≤ MAX_RT_PRIO :=
    ((h.settled.inv dst).tidy.all []).sound.least.le
  have hprio := (h.queued p hforeign.1).2
  omega

/-- What is asked of a task when the lock had to be let go. That it may have changed its class is not. -/
theorem Core.still_there {task : Nat} (h : Core M.sys M.queued M.warnings M.migrations)
    (hthere : M.moved_away rq task busiest = false) (tries : Nat) :
    (Purpose.push task tries).Ok M.sys M.queued rq busiest := by
  simp only [Machine.moved_away, Bool.or_eq_false_iff, bne_eq_false_iff_eq, Bool.not_eq_false', List.contains_iff_mem] at hthere
  obtain ⟨⟨⟨hcpu, hallowed⟩, hoff⟩, hon⟩ := hthere
  obtain hon | hother := Bool.or_eq_true_iff.mp hon
  · refine .inl ⟨⟨hon, hcpu, ?_⟩, hallowed⟩
    rintro rfl
    exact Bool.noConfusion (hoff.symm.trans ((h.running.on_cpu _).mpr ⟨rq, rfl⟩))
  · exact .inr ⟨hother, hcpu⟩

theorem Inv.push_locked (h : Inv E M) {unlocked : Bool} {task tries : Nat} {caller : Caller}
    (hpc : M.pc c = .locked rq busiest unlocked (.push task tries) caller) (a : Accounting) :
    Inv E (M.push_locked a c rq busiest unlocked task tries caller) := by
  have hok := h.phase c
  rw [hpc] at hok
  obtain ⟨hpair, hpurpose⟩ := hok
  have hheld : (M.pc c).held = [rq, busiest] := by rw [hpc]; rfl
  have hrq : rq ∈ (M.pc c).held := by simp [hheld]
  have hbusiest : busiest ∈ (M.pc c).held := by simp [hheld]
  have hdrop : ∀ k, k ∈ [rq] ↔ k ∈ (M.pc c).held ∧ k ≠ busiest := by
    rw [hheld]
    exact hpair.held_iff
  unfold Machine.push_locked
  split
  · exact h.drop (.again rq task caller) hbusiest (h.stepped _) rfl rfl hdrop hpair.rq_lt
  rename_i hthere
  have hpurpose : (Purpose.push task tries).Ok M.sys M.queued rq busiest := by
    cases unlocked with
    | false => exact hpurpose rfl
    | true => exact h.core.still_there (by simpa using hthere) tries
  split
  · rename_i hlower
    obtain ⟨hchosen, hallowed⟩ := hpurpose.resolve_right (h.core.lower_ne_foreign hlower)
    have hmoved := (h.stepped (M.pc c).held).transfer a hrq hbusiest
      ⟨hpair.ne, hchosen.queued, hchosen.here, hchosen.running h.core.running, hallowed, hlower⟩
    have hresched := hmoved.resched_if hbusiest true
    set M₁ := ((M.transfer a rq task busiest).resched_if true busiest).raw_spin_unlock busiest with hM₁
    have hstepped : Stepped M M₁ (M.pc c).held := ⟨hresched.core, hresched.left⟩
    obtain ⟨hlock, hpc'⟩ := returned_frame M₁ c rq true caller
    have howned : Owned (M₁.returned c rq true caller).lock (update (fun i => (M.pc i).held) c [rq]) := by
      rw [hlock]
      exact h.owned.drop hbusiest hdrop
    obtain hpc' | hpc' := hpc'
    · exact h.step_of (.hold rq) (hstepped.returned hrq c true caller) hpc' howned hpair.rq_lt
    · exact h.step_of (.push rq caller) (hstepped.returned hrq c true caller) hpc' howned hpair.rq_lt
  · exact h.drop (.find rq task tries caller) hbusiest (h.stepped _) rfl rfl hdrop ⟨hpair.rq_lt, hpurpose.imp_left And.left⟩

/-- What `find_lowest_rq` returns is in the mask. -/
theorem find_lowest_rq_in_mem {T : Topology} {task cpu : Nat} {lowest_mask : Option (List Nat)}
    (h : find_lowest_rq_in T S task lowest_mask = some cpu) : ∃ mask ∈ lowest_mask, cpu ∈ mask := by
  simp only [find_lowest_rq_in] at h
  split at h
  · cases h
  split at h
  · cases h
  cases lowest_mask with
  | none => cases h
  | some mask =>
    refine ⟨mask, rfl, ?_⟩
    dsimp only at h
    split at h
    · rename_i hown
      cases h
      simpa using hown
    · set this_cpu := if mask.contains T.smp_processor_id then some T.smp_processor_id else none with hthis_cpu
      have hthis : ∀ c, this_cpu = some c → c ∈ mask := by
        intro c hc
        rw [hthis_cpu] at hc
        split at hc
        · rename_i hin
          cases hc
          simpa using hin
        · cases hc
      obtain h | ⟨-, h⟩ := Option.or_eq_some_iff.mp h
      · obtain h | ⟨-, h⟩ := Option.or_eq_some_iff.mp h
        · obtain ⟨sd, -, hsd⟩ := List.exists_of_findSome?_eq_some h
          exact find_in_domain_mem hthis hsd
        · exact hthis cpu h
      · exact List.mem_of_head? h

theorem Inv.find (h : Inv E M) {task tries : Nat} {caller : Caller} (hpc : M.pc c = .find rq task tries caller)
    {lowest_mask : Option (List Nat)} (hmask : (M.pc c).Answers E M.sys lowest_mask) (a : Accounting) :
    ∃ M', M.advance E c lowest_mask a = .ok M' ∧ Inv E M' := by
  have hok := h.phase c
  rw [hpc] at hok hmask
  obtain ⟨hrq, htask⟩ := hok
  have hheld : (M.pc c).held = [rq] := by rw [hpc]; rfl
  have hagain : Inv E (M.goto c (.again rq task caller)) :=
    h.keep (.again rq task caller) hheld ⟨h.core, fun i _ => .refl _ _ i⟩ rfl rfl rfl hrq
  unfold Machine.advance
  simp only [hpc]
  cases tries with
  | zero => exact ⟨_, rfl, hagain⟩
  | succ tries =>
    cases hfind : find_lowest_rq_in { E.topology with smp_processor_id := c } M.sys task lowest_mask with
    | none => exact ⟨_, rfl, hagain⟩
    | some cpu =>
      obtain ⟨mask, hin, hcpu⟩ := find_lowest_rq_in_mem hfind
      obtain ⟨hallowed, hlt⟩ := hmask mask hin cpu hcpu
      dsimp only
      split
      · exact ⟨_, rfl, hagain⟩
      · rename_i hne
        exact ⟨_, rfl, h.keep (.trylock rq cpu (.push task tries) caller) hheld ⟨h.core, fun i _ => .refl _ _ i⟩ rfl rfl rfl
          ⟨⟨hrq, hlt, hne⟩, htask.imp_left fun hchosen => ⟨hchosen, hallowed⟩⟩⟩

theorem Inv.push (h : Inv E M) {caller : Caller} (hpc : M.pc c = .push rq caller) (lowest_mask : Option (List Nat))
    (a : Accounting) : ∃ M', M.advance E c lowest_mask a = .ok M' ∧ Inv E M' := by
  have hrq := h.phase c
  rw [hpc] at hrq
  have hheld : (M.pc c).held = [rq] := by rw [hpc]; rfl
  have hback : Inv E (M.returned c rq false caller) :=
    h.keep_returned hheld hrq (h.stepped [rq]) rfl rfl false caller
  unfold Machine.advance
  simp only [hpc]
  split
  · exact ⟨_, rfl, hback⟩
  obtain ⟨next, hpick, hchosen⟩ := h.core.pick rq
  rw [show M.on_rq = fun p => M.sys.on_rq p || M.queued p from rfl, hpick]
  cases next with
  | none => exact ⟨_, rfl, hback⟩
  | some task => exact ⟨_, rfl, h.retry hheld hrq (hchosen task rfl) caller⟩

/-- No run queue was found. A task that is still the first one is taken off the list. -/
theorem Inv.again (h : Inv E M) {next_task : Nat} {caller : Caller} (hpc : M.pc c = .again rq next_task caller)
    (lowest_mask : Option (List Nat)) (a : Accounting) : ∃ M', M.advance E c lowest_mask a = .ok M' ∧ Inv E M' := by
  have hrq := h.phase c
  rw [hpc] at hrq
  have hheld : (M.pc c).held = [rq] := by rw [hpc]; rfl
  unfold Machine.advance
  simp only [hpc]
  obtain ⟨next, hpick, hchosen⟩ := h.core.pick rq
  rw [show M.on_rq = fun p => M.sys.on_rq p || M.queued p from rfl, hpick]
  by_cases hsame : M.sys.task_cpu next_task = rq ∧ next = some next_task
  · have hstepped := (h.stepped [rq]).store (r := dequeue_pushable_task (M.sys.cpu_rq rq) next_task) List.mem_cons_self
      (h.core.settled.give_up rq next_task).settled rfl rfl
    exact ⟨_, if_pos hsame, h.keep_returned hheld hrq hstepped rfl rfl true caller⟩
  · cases next with
    | none => exact ⟨_, if_neg hsame, h.keep_returned hheld hrq (h.stepped [rq]) rfl rfl true caller⟩
    | some task => exact ⟨_, if_neg hsame, h.retry hheld hrq (hchosen task rfl) caller⟩

/-- The loop of a pull, up to where a second lock is asked for. -/
theorem Inv.scan (h : Inv E M) {caller : Caller}
    (hpc : M.pc c = .pull rq caller ∨ ∃ cpu, M.pc c = .scan rq cpu caller ∨ M.pc c = .hint rq cpu caller)
    (lowest_mask : Option (List Nat)) (a : Accounting) : ∃ M', M.advance E c lowest_mask a = .ok M' ∧ Inv E M' := by
  have hok := h.phase c
  have hsame : Stepped M M [rq] := h.stepped [rq]
  have hgo : ∀ phase : Phase, (M.pc c).held = [rq] → phase.held = [rq] → phase.Ok E M.sys M.queued → Inv E (M.goto c phase) :=
    fun phase hheld hphase hok => h.keep phase hheld ⟨hsame.core, hsame.left⟩ rfl rfl hphase hok
  obtain hpc | ⟨cpu, hpc | hpc⟩ := hpc
  · have hheld : (M.pc c).held = [rq] := by rw [hpc]; rfl
    rw [hpc] at hok
    unfold Machine.advance
    simp only [hpc]
    split
    · exact ⟨_, rfl, h.keep_returned hheld hok hsame rfl rfl false caller⟩
    · exact ⟨_, rfl, hgo (.scan rq 0 caller) hheld rfl hok⟩
  · have hheld : (M.pc c).held = [rq] := by rw [hpc]; rfl
    rw [hpc] at hok
    unfold Machine.advance
    simp only [hpc]
    split
    · exact ⟨_, rfl, h.keep_returned hheld hok hsame rfl rfl false caller⟩
    rename_i hlt
    split
    · rename_i hmask
      exact ⟨_, rfl, hgo (.hint rq cpu caller) hheld rfl ⟨hok, Nat.not_le.mp hlt, hmask.2⟩⟩
    · exact ⟨_, rfl, hgo (.scan rq (cpu + 1) caller) hheld rfl hok⟩
  · have hheld : (M.pc c).held = [rq] := by rw [hpc]; rfl
    rw [hpc] at hok
    unfold Machine.advance
    simp only [hpc]
    split
    · exact ⟨_, rfl, hgo (.scan rq (cpu + 1) caller) hheld rfl hok.rq_lt⟩
    · exact ⟨_, rfl, hgo (.trylock rq cpu .pull caller) hheld rfl ⟨hok, trivial⟩⟩

/-- A pull with both locks. -/
theorem Inv.pull_locked (h : Inv E M) {unlocked : Bool} {caller : Caller}
    (hpc : M.pc c = .locked rq busiest unlocked .pull caller) (a : Accounting) :
    Inv E (((M.pull_locked a rq busiest).raw_spin_unlock busiest).goto c (.scan rq (busiest + 1) caller)) := by
  have hok := h.phase c
  have hheld : (M.pc c).held = [rq, busiest] := by rw [hpc]; rfl
  rw [hpc] at hok
  have hpair := hok.1
  have hrq : rq ∈ (M.pc c).held := by simp [hheld]
  have hbusiest : busiest ∈ (M.pc c).held := by simp [hheld]
  have hstepped := (h.stepped (M.pc c).held).pull_locked a hbusiest hrq hpair.ne
  obtain ⟨hlock, hpc'⟩ := pull_locked_frame M a rq busiest
  refine h.drop (.scan rq (busiest + 1) caller) hbusiest hstepped hlock hpc' ?_ hpair.rq_lt
  rw [hheld]
  exact hpair.held_iff

/-- Wherever a CPU is in a push or a pull, it goes on without a `BUG_ON`. -/
theorem Inv.advance (h : Inv E M) {lowest_mask : Option (List Nat)}
    (hfree : ∀ rq, (M.pc c).waits = some rq → M.lock rq = none) (hmask : (M.pc c).Answers E M.sys lowest_mask)
    (a : Accounting) : ∃ M', M.advance E c lowest_mask a = .ok M' ∧ Inv E M' := by
  have hok := h.phase c
  cases hpc : M.pc c with
  | out | hold =>
    refine ⟨M, ?_, h⟩
    unfold Machine.advance
    rw [hpc]
  | pull rq caller => exact h.scan (.inl hpc) lowest_mask a
  | scan rq cpu caller => exact h.scan (.inr ⟨cpu, .inl hpc⟩) lowest_mask a
  | hint rq cpu caller => exact h.scan (.inr ⟨cpu, .inr hpc⟩) lowest_mask a
  | trylock rq busiest purpose caller => exact h.trylock hpc lowest_mask a
  | nested rq busiest purpose caller =>
    rw [hpc] at hok hfree
    refine ⟨_, by unfold Machine.advance; rw [hpc], h.take (.locked rq busiest false purpose caller) (hfree busiest rfl)
      (fun k => ?_) ⟨hok.1, fun _ => hok.2.2⟩⟩
    rw [hpc]
    simp [Phase.held, or_comm]
  | first rq busiest purpose caller =>
    rw [hpc] at hok hfree
    refine ⟨_, by unfold Machine.advance; rw [hpc], h.take (.second rq busiest purpose caller) (hfree busiest rfl)
      (fun k => ?_) hok⟩
    rw [hpc]
    simp [Phase.held]
  | second rq busiest purpose caller =>
    rw [hpc] at hok hfree
    refine ⟨_, by unfold Machine.advance; rw [hpc], h.take (.locked rq busiest true purpose caller) (hfree rq rfl)
      (fun k => ?_) ⟨hok.1, by simp⟩⟩
    rw [hpc]
    simp [Phase.held]
  | locked rq busiest unlocked purpose caller =>
    cases purpose with
    | pull => exact ⟨_, by unfold Machine.advance; rw [hpc], h.pull_locked hpc a⟩
    | push task tries => exact ⟨_, by unfold Machine.advance; rw [hpc], h.push_locked hpc a⟩
  | push rq caller => exact h.push hpc lowest_mask a
  | find rq task tries caller => exact h.find hpc hmask a
  | again rq task caller => exact h.again hpc lowest_mask a

end Steps

end cs444.sched_rt.balance
