import Cs444.SchedRt.Callbacks
import Cs444.SchedRt.Steady

open Function priotable

namespace cs444.sched_rt

variable {s s' : rq} {S S' : System} {cpu p : Nat}

section Calls

/-- A task looks the same to the counters. -/
structure SameDuties (t t' : task_struct) : Prop where
  rt_rq : t'.rt_rq = t.rt_rq
  prio : t'.prio = t.prio
  nr_cpus_allowed : t'.nr_cpus_allowed = t.nr_cpus_allowed

theorem SameDuties.of_eq {t t' : task_struct} (h : t' = t) : SameDuties t t' :=
  h ▸ ⟨rfl, rfl, rfl⟩

/-- The counters are about the tasks that are queued. -/
theorem Tallied.of_queued (h : Tallied s) (hsame : SameTasks s s') (hsmp : s'.smp [] = s.smp [])
    (htasks : ∀ q, Queued s q → SameDuties (s.tasks q) (s'.tasks q)) : Tallied s' := by
  have hqueued := hsame.queued_iff
  have hmigratory : ∀ q, Migratory s' q ↔ Migratory s q := fun q => by
    rw [Migratory, Migratory, hqueued]
    refine and_congr_right fun hq => ?_
    rw [(htasks q hq).nr_cpus_allowed]
  refine ⟨fun g q hq => ?_, ?_, ?_, ?_, ?_⟩
  · have hq := (hsame g q).mp hq
    have hduties := htasks q ⟨g, hq⟩
    rw [hduties.rt_rq, hduties.prio]
    exact h.home g q hq
  · simp only [hqueued]
    exact h.finite
  · rw [hsmp, ncard_congr hqueued]
    exact h.total
  · rw [hsmp, ncard_congr hmigratory]
    exact h.migratory
  · rw [hsmp]
    exact h.overloaded

/-- Changing the pushable tasks touches no counter. -/
theorem Tallied.set_pushable (h : Tallied s) (l : List (Nat × Nat)) :
    Tallied (s.set_smp [] { s.smp [] with pushable_tasks := l }) ∧
      Followed s (s.set_smp [] { s.smp [] with pushable_tasks := l }) := by
  refine ⟨⟨h.home, h.finite, ?_, ?_, ?_⟩, .of_same rfl rfl (by simp [rq.set_smp]) rfl⟩
  · simp only [rq.set_smp, update_self]
    exact h.total
  · simp only [rq.set_smp, update_self]
    exact h.migratory
  · simp only [rq.set_smp, update_self]
    exact h.overloaded

/-- What a call does to the tasks of the CPU. -/
structure Called (s s' : rq) (on_rq on_rq' : Nat → Bool) (here : Nat → Prop) : Prop where
  tallied : Tallied s'
  followed : Followed s s'
  queued : ∀ q, Queued s' q ↔ on_rq' q = true ∧ here q
  elsewhere : ∀ q, ¬ here q → on_rq' q = on_rq q
  tasks : ∀ q, s'.tasks q ≠ s.tasks q → on_rq q = false

variable {on_rq : Nat → Bool} {here : Nat → Prop}

theorem Steady.called (h : Steady s s') (hs : Tallied s) (hqueued : ∀ q, Queued s q ↔ on_rq q = true ∧ here q) :
    Called s s' on_rq on_rq here where
  tallied := h.tallied hs
  followed := h.toKept.followed
  queued q := (h.queued.queued_iff q).trans (hqueued q)
  elsewhere _ _ := rfl
  tasks q hq := absurd (congrFun h.tasks q) hq

theorem Turned.called {b : Bool} (h : Turned s s' p (b = true)) (hhere : here p)
    (hqueued : ∀ q, Queued s q ↔ on_rq q = true ∧ here q) :
    Called s s' on_rq (update on_rq p b) here where
  tallied := h.tallied
  followed := h.followed
  queued q := by
    obtain rfl | hne := eq_or_ne q p
    · rw [h.here, update_self]
      exact (and_iff_left hhere).symm
    · rw [h.others q hne, hqueued, update_of_ne hne]
  elsewhere q hq := by
    refine update_of_ne ?_ _ _
    rintro rfl
    exact hq hhere
  tasks q hq := absurd (congrFun h.tasks q) hq

theorem Called.set_pushable {on_rq' : Nat → Bool} (h : Called s s' on_rq on_rq' here) (l : List (Nat × Nat)) :
    Called s (s'.set_smp [] { s'.smp [] with pushable_tasks := l }) on_rq on_rq' here where
  tallied := (h.tallied.set_pushable l).1
  followed := h.followed.trans (h.tallied.set_pushable l).2
  queued := h.queued
  elsewhere := h.elsewhere
  tasks := h.tasks

theorem Tallied.enqueue_task_rt (h : Tallied s) (hqueued : ∀ q, Queued s q ↔ on_rq q = true ∧ here q)
    (hhere : here p) (hprio : (s.tasks p).prio < MAX_RT_PRIO) (head : Bool) :
    Called s (enqueue_task_rt s p head) on_rq (update on_rq p true) here := by
  have hturned : Turned s (sched_rt.enqueue_rt_entity s (.task p) head) p (true = true) := by
    simpa using h.enqueue_rt_entity hprio head
  have hcalled := hturned.called hhere hqueued
  simp only [sched_rt.enqueue_task_rt]
  split
  · exact hcalled.set_pushable _
  · exact hcalled

theorem Tallied.dequeue_task_rt (h : Tallied s) (hqueued : ∀ q, Queued s q ↔ on_rq q = true ∧ here q)
    (hhere : here p) (borrow : task_group → Nat) (delta_exec : Nat) :
    Called s (dequeue_task_rt borrow delta_exec s p) on_rq (update on_rq p false) here := by
  have haccount := steady_update_curr_rt borrow delta_exec s
  have hturned : Turned s (sched_rt.dequeue_rt_entity (update_curr_rt borrow delta_exec s) (.task p)) p
      (false = true) := by
    simpa using Turned.of_steady haccount ((haccount.tallied h).dequeue_rt_entity p) (.refl _)
  exact (hturned.called hhere hqueued).set_pushable _

/-- What each call does, for a caller that keeps its promises. -/
theorem Tallied.call (h : Tallied s) (hqueued : ∀ q, Queued s q ↔ on_rq q = true ∧ here q) (c : Call)
    (henqueue : ∀ p head, c = .enqueue_task_rt p head → here p ∧ (s.tasks p).prio < MAX_RT_PRIO)
    (hdequeue : ∀ p borrow delta_exec, c = .dequeue_task_rt p borrow delta_exec → here p)
    (htask : ∀ p t, c = .set_task p t → on_rq p = false) :
    Called s (step s c) on_rq (System.on_rq_after on_rq c) here := by
  cases c with
  | enqueue_task_rt p head =>
    obtain ⟨hhere, hprio⟩ := henqueue p head rfl
    exact h.enqueue_task_rt hqueued hhere hprio head
  | dequeue_task_rt p borrow delta_exec =>
    exact h.dequeue_task_rt hqueued (hdequeue p borrow delta_exec rfl) borrow delta_exec
  | requeue_task_rt p head => exact (h.requeue_all _ head).called h hqueued
  | update_curr_rt borrow delta_exec => exact (steady_update_curr_rt borrow delta_exec s).called h hqueued
  | sched_rt_runtime_exceeded g borrow => exact (steady_sched_rt_runtime_exceeded borrow s g).called h hqueued
  | do_sched_rt_period_timer g borrow overrun =>
    exact (steady_do_sched_rt_period_timer borrow overrun s g).called h hqueued
  | set_curr p =>
    exact ⟨h.of_queued (fun _ _ => Iff.rfl) rfl fun _ _ => .of_eq rfl, .of_same rfl rfl rfl rfl, hqueued, fun _ _ => rfl,
      fun q hq => absurd rfl hq⟩
  | set_task p t =>
    have hoff := htask p t rfl
    have hother : ∀ q, on_rq q = true → update s.tasks p t q = s.tasks q := by
      intro q hq
      refine update_of_ne ?_ _ _
      rintro rfl
      rw [hoff] at hq
      exact Bool.noConfusion hq
    refine ⟨h.of_queued (fun _ _ => Iff.rfl) rfl fun q hq => .of_eq (hother q ((hqueued q).mp hq).1),
      .of_same rfl rfl rfl rfl, hqueued, fun _ _ => rfl, fun q hq => ?_⟩
    rw [← Bool.not_eq_true]
    exact fun hon => hq (hother q hon)
  | set_bandwidth g b rt_runtime =>
    have hbandwidth : Steady s { s with bandwidth := update s.bandwidth g b } :=
      .of_rt ⟨rfl, rfl, rfl, rfl, rfl, rfl, rfl, rfl, rfl, rfl⟩ rfl
    have hset : Steady { s with bandwidth := update s.bandwidth g b } (step s (.set_bandwidth g b rt_runtime)) :=
      steady_set _ fun _ => Iff.rfl
    exact (hbandwidth.trans hset).called h hqueued

end Calls

section Affinity

/-- The task of a mask of the given weight. -/
def Widened (s : rq) (p weight : Nat) (q : Nat) : Prop :=
  Queued s q ∧ (if q = p then weight else (s.tasks q).nr_cpus_allowed) > 1

/-- `rt_nr_migratory` becomes that of the new mask, and its `BUG_ON` does not fire. -/
theorem Tallied.update_migratory (h : Tallied s) (hp : Queued s p) (weight : Nat) :
    update_migratory s p weight = .ok (s.set_smp [] { s.smp [] with rt_nr_migratory := {q | Widened s p weight q}.ncard }) := by
  have hother : ∀ q, q ≠ p → (Widened s p weight q ↔ Migratory s q) := fun q hq => by
    rw [Widened, Migratory, if_neg hq]
  have hself : Widened s p weight p ↔ weight > 1 := by simp [Widened, hp]
  have hbefore : Migratory s p ↔ (s.tasks p).nr_cpus_allowed > 1 := and_iff_right hp
  simp only [sched_rt.update_migratory]
  split
  · rename_i hwider
    have hmore : ∀ q, Widened s p weight q ↔ Migratory s q ∨ q = p := by
      intro q
      obtain rfl | hq := eq_or_ne q p
      · simp [hself, hwider]
      · simp [hother q hq, hq]
    obtain ⟨-, hcard⟩ := ncard_with h.finite_migratory (fun hin => by have := hbefore.mp hin; omega) hmore
    rw [h.migratory, hcard]
    rfl
  split
  · rename_i hnarrower
    have hless : ∀ q, Widened s p weight q ↔ Migratory s q ∧ q ≠ p := by
      intro q
      obtain rfl | hq := eq_or_ne q p
      · simp [hself, hnarrower]
      · simp [hother q hq, hq]
    obtain ⟨-, hcard⟩ := ncard_without h.finite_migratory (hbefore.mpr hnarrower.1) hless
    have hcount : (s.smp []).rt_nr_migratory - 1 = {q | Widened s p weight q}.ncard := by
      rw [h.migratory, ← hcard]
      omega
    rw [if_neg (by omega), hcount]
  · rename_i hwider hnarrower
    have hsame : ∀ q, Widened s p weight q ↔ Migratory s q := by
      intro q
      obtain rfl | hq := eq_or_ne q p
      · rw [hself, hbefore]
        omega
      · exact hother q hq
    rw [ncard_congr hsame, ← h.migratory]
    simp [rq.set_smp]

/-- The tasks with a new mask for one of them. -/
def rebind (tasks : Nat → task_struct) (p : Nat) (new_mask : List Nat) : Nat → task_struct :=
  update tasks p { tasks p with cpus_allowed := new_mask, nr_cpus_allowed := cpumask_weight new_mask }

section Rebind

variable (tasks : Nat → task_struct) (p : Nat) (new_mask : List Nat) (q : Nat)

theorem rebind_nr_cpus_allowed : (rebind tasks p new_mask q).nr_cpus_allowed =
    if q = p then cpumask_weight new_mask else (tasks q).nr_cpus_allowed := by
  by_cases hq : q = p <;> simp [rebind, hq]

theorem rebind_rt_rq : (rebind tasks p new_mask q).rt_rq = (tasks q).rt_rq := by
  by_cases hq : q = p <;> simp [rebind, hq]

theorem rebind_prio : (rebind tasks p new_mask q).prio = (tasks q).prio := by
  by_cases hq : q = p <;> simp [rebind, hq]

end Rebind

/-- The counters are right again when the new mask is stored. -/
theorem Tallied.of_rebind (h : Tallied s) (hrt : s'.rt = s.rt) {new_mask : List Nat}
    (htasks : s'.tasks = rebind s.tasks p new_mask) (htotal : (s'.smp []).rt_nr_total = (s.smp []).rt_nr_total)
    (hcount : (s'.smp []).rt_nr_migratory = {q | Widened s p (cpumask_weight new_mask) q}.ncard)
    (hover : (s'.smp []).overloaded = true ↔ (s'.smp []).rt_nr_migratory ≠ 0 ∧ (s'.smp []).rt_nr_total > 1) :
    Tallied s' := by
  have hqueued : ∀ q, Queued s' q ↔ Queued s q := fun q => by simp only [Queued, queued, hrt]
  have hmigratory : ∀ q, Migratory s' q ↔ Widened s p (cpumask_weight new_mask) q := fun q => by
    rw [Migratory, Widened, hqueued, htasks, rebind_nr_cpus_allowed]
  refine ⟨fun g q hq => ?_, ?_, ?_, ?_, hover⟩
  · rw [queued, hrt] at hq
    rw [htasks, rebind_rt_rq, rebind_prio]
    exact h.home g q hq
  · simp only [hqueued]
    exact h.finite
  · rw [htotal, ncard_congr hqueued]
    exact h.total
  · rw [ncard_congr hmigratory]
    exact hcount

/-- What the pushable tasks of the CPU are after `set_cpus_allowed_rt`. -/
def pushable_after (s : rq) (on_rq : Bool) (p weight : Nat) : List (Nat × Nat) :=
  if on_rq ∧ weight ≠ (s.tasks p).nr_cpus_allowed then ((update_pushable s p weight).smp []).pushable_tasks
  else (s.smp []).pushable_tasks

/-- What `set_cpus_allowed_rt` does. -/
structure Rebound (s s' : rq) (on_rq : Bool) (p : Nat) (new_mask : List Nat) : Prop where
  tallied : Tallied s'
  followed : Followed s s'
  rt : s'.rt = s.rt
  leaf : s'.leaf_rt_rq_list = s.leaf_rt_rq_list
  warnings : s'.warnings = s.warnings
  curr : s'.curr = s.curr
  tasks : s'.tasks = rebind s.tasks p new_mask
  pushable : (s'.smp []).pushable_tasks = pushable_after s on_rq p (cpumask_weight new_mask)

/-- Only the list of pushable tasks is different. -/
theorem update_pushable_eq (s : rq) (p weight : Nat) :
    ∃ l, update_pushable s p weight = s.set_smp [] { s.smp [] with pushable_tasks := l } := by
  simp only [update_pushable]
  have hsame : s = s.set_smp [] { s.smp [] with pushable_tasks := (s.smp []).pushable_tasks } := by simp [rq.set_smp]
  split
  · exact ⟨_, hsame⟩
  · split <;> split
    · exact ⟨_, by simp only [enqueue_pushable_task, dequeue_pushable_task, rq.set_smp, update_self,
        update_idem]; rfl⟩
    · exact ⟨_, rfl⟩
    · exact ⟨_, rfl⟩
    · exact ⟨_, hsame⟩

theorem Tallied.set_cpus_allowed_rt {on_rq : Bool} (h : Tallied s) (hon : on_rq = true ↔ Queued s p)
    (hprio : (s.tasks p).prio < MAX_RT_PRIO) (new_mask : List Nat) :
    ∃ s', set_cpus_allowed_rt s on_rq p new_mask = .ok s' ∧ Rebound s s' on_rq p new_mask := by
  have hrt : rt_prio (s.tasks p).prio = true := by simpa [rt_prio] using hprio
  simp only [sched_rt.set_cpus_allowed_rt, hrt, Bool.not_true, Bool.false_eq_true, if_false]
  split
  · rename_i hchange
    have hp : Queued s p := hon.mp hchange.1
    obtain ⟨l, hl⟩ := update_pushable_eq s p (cpumask_weight new_mask)
    have hpushable : pushable_after s on_rq p (cpumask_weight new_mask) = l := by
      rw [pushable_after, if_pos hchange, hl]
      simp [rq.set_smp]
    obtain ⟨htallied, hfollowed⟩ := h.set_pushable l
    rw [hl, htallied.update_migratory hp]
    set s₀ := s.set_smp [] { s.smp [] with pushable_tasks := l }
    set s₁ := s₀.set_smp [] { s₀.smp [] with
      rt_nr_migratory := {q | Widened s₀ p (cpumask_weight new_mask) q}.ncard } with hs₁
    have hupdated := updated_update_rt_migration s₁
    have hcore := sameCore_update_rt_migration s₁
    have hstored : update (update_rt_migration s₁).tasks p { s.tasks p with
        cpus_allowed := new_mask, nr_cpus_allowed := cpumask_weight new_mask } = rebind s₀.tasks p new_mask := by
      rw [hupdated.tasks]
      rfl
    refine ⟨_, rfl, ?_, ?_, hupdated.rt, hcore.leaf, hcore.warnings, hupdated.curr, hstored, ?_⟩
    · refine htallied.of_rebind hupdated.rt hstored ?_ ?_ ?_
      · exact hupdated.total.trans (by simp [hs₁, rq.set_smp])
      · exact hupdated.migratory.trans (by simp [hs₁, rq.set_smp])
      · refine hupdated.overloaded.trans ?_
        rw [← hupdated.migratory, ← hupdated.total]
    · refine hfollowed.trans (.trans ?_ (hupdated.followed.trans (.of_same rfl rfl rfl rfl)))
      exact .of_same rfl rfl (by simp [hs₁, rq.set_smp]) rfl
    · rw [hpushable]
      refine hupdated.pushable.trans ?_
      simp [hs₁, rq.set_smp, s₀]
  · rename_i hsame
    refine ⟨_, rfl, ?_, .of_same rfl rfl rfl rfl, rfl, rfl, rfl, rfl, rfl, by rw [pushable_after, if_neg hsame]⟩
    by_cases hp : Queued s p
    · -- The weight is the same, so the counter is that of the new mask already.
      have hweight : cpumask_weight new_mask = (s.tasks p).nr_cpus_allowed := by
        by_contra hne
        exact hsame ⟨hon.mpr hp, hne⟩
      have hwidened : ∀ q, Widened s p (cpumask_weight new_mask) q ↔ Migratory s q := fun q => by
        rw [Widened, Migratory]
        by_cases hq : q = p <;> simp [hq, hweight]
      have hcount : (s.smp []).rt_nr_migratory = {q | Widened s p (cpumask_weight new_mask) q}.ncard := by
        rw [ncard_congr hwidened]
        exact h.migratory
      have hstored : update s.tasks p { s.tasks p with
          cpus_allowed := new_mask, nr_cpus_allowed := cpumask_weight new_mask } = rebind s.tasks p new_mask := rfl
      exact h.of_rebind rfl hstored rfl hcount h.overloaded
    · refine h.of_queued (fun _ _ => Iff.rfl) rfl fun q hq => .of_eq (update_of_ne ?_ _ _)
      rintro rfl
      exact hp hq

end Affinity

section System

/-- What holds of all CPUs between two events. -/
structure Balanced (S : System) : Prop where
  tallied : ∀ cpu, Tallied (S.cpu_rq cpu)
  queued : ∀ cpu p, Queued (S.cpu_rq cpu) p ↔ S.on_rq p = true ∧ S.task_cpu p = cpu
  mask : ∀ cpu, S.rd.rto_mask cpu = (S.cpu_rq cpu).overload
  finite : {cpu | S.rd.rto_mask cpu = true}.Finite
  count : S.rd.rto_count = {cpu | S.rd.rto_mask cpu = true}.ncard

theorem cpu_rq_store_self {r : rq} (h : r.cpu = cpu) : (S.store cpu r).cpu_rq cpu = r := by
  subst h
  simp [System.cpu_rq, System.store]

theorem cpu_rq_store_of_ne {r : rq} {i : Nat} (h : i ≠ cpu) :
    (S.store cpu r).cpu_rq i = { S.cpu_rq i with tasks := r.tasks, rd := r.rd } := by
  simp [System.cpu_rq, System.store, update_of_ne h]

/-- One CPU enters the mask or leaves it. -/
theorem ncard_update {m : Nat → Bool} (hfinite : {i | m i = true}.Finite) (cpu : Nat) (b : Bool) :
    {i | update m cpu b i = true}.Finite ∧
      ({i | update m cpu b i = true}.ncard : Int) - b.toNat = {i | m i = true}.ncard - (m cpu).toNat := by
  cases hm : m cpu with
  | false =>
    cases b with
    | false =>
      have hsame : update m cpu false = m := by rw [← hm, update_eq_self]
      rw [hsame]
      exact ⟨hfinite, rfl⟩
    | true =>
      have hmore : ∀ i, update m cpu true i = true ↔ m i = true ∨ i = cpu := by
        intro i
        by_cases hi : i = cpu <;> simp [hi]
      obtain ⟨hfinite', hcard⟩ := ncard_with hfinite (by simp [hm]) hmore
      refine ⟨hfinite', ?_⟩
      simp only [Bool.toNat_true, Bool.toNat_false]
      omega
  | true =>
    cases b with
    | false =>
      have hless : ∀ i, update m cpu false i = true ↔ m i = true ∧ i ≠ cpu := by
        intro i
        by_cases hi : i = cpu <;> simp [hi]
      obtain ⟨hfinite', hcard⟩ := ncard_without hfinite hm hless
      refine ⟨hfinite', ?_⟩
      simp only [Bool.toNat_true, Bool.toNat_false]
      omega
    | true =>
      have hsame : update m cpu true = m := by rw [← hm, update_eq_self]
      rw [hsame]
      exact ⟨hfinite, rfl⟩

/-- A new run queue for one CPU. -/
theorem Balanced.store {r : rq} {on_rq : Nat → Bool} (h : Balanced S) (hfollowed : Followed (S.cpu_rq cpu) r)
    (htallied : Tallied r) (hqueued : ∀ p, Queued r p ↔ on_rq p = true ∧ S.task_cpu p = cpu)
    (helsewhere : ∀ p, S.task_cpu p ≠ cpu → on_rq p = S.on_rq p)
    (htasks : ∀ p, S.on_rq p = true → S.task_cpu p ≠ cpu → SameDuties (S.tasks p) (r.tasks p)) :
    Balanced { S.store cpu r with on_rq } := by
  have hself : ({ S.store cpu r with on_rq } : System).cpu_rq cpu = r := cpu_rq_store_self hfollowed.cpu
  have hother : ∀ i, i ≠ cpu → ({ S.store cpu r with on_rq } : System).cpu_rq i =
      { S.cpu_rq i with tasks := r.tasks, rd := r.rd } := fun i hi => cpu_rq_store_of_ne hi
  have hmask : r.rd.rto_mask = update S.rd.rto_mask cpu r.overload := hfollowed.mask (h.mask cpu)
  obtain ⟨hfinite, hcard⟩ := ncard_update h.finite cpu r.overload
  refine ⟨fun i => ?_, fun i p => ?_, fun i => ?_, ?_, ?_⟩
  · obtain rfl | hi := eq_or_ne i cpu
    · rw [hself]
      exact htallied
    · rw [hother i hi]
      refine (h.tallied i).of_queued (fun _ _ => Iff.rfl) rfl fun q hq => ?_
      obtain ⟨hon, hcpu⟩ := (h.queued i q).mp hq
      exact htasks q hon fun heq => hi (hcpu.symm.trans heq)
  · obtain rfl | hi := eq_or_ne i cpu
    · rw [hself]
      exact hqueued p
    · rw [hother i hi]
      refine (h.queued i p).trans (and_congr_left fun hcpu => ?_)
      rw [← helsewhere p fun heq => hi (hcpu.symm.trans heq)]
  · have hset : ({ S.store cpu r with on_rq } : System).rd.rto_mask = r.rd.rto_mask := rfl
    rw [hset, hmask]
    obtain rfl | hi := eq_or_ne i cpu
    · rw [hself, update_self]
    · rw [hother i hi, update_of_ne hi, h.mask i]
      rfl
  · have hset : ({ S.store cpu r with on_rq } : System).rd.rto_mask = r.rd.rto_mask := rfl
    rw [hset, hmask]
    exact hfinite
  · have hset : ({ S.store cpu r with on_rq } : System).rd = r.rd := rfl
    have hcount := hfollowed.count
    have hbefore : (S.cpu_rq cpu).overload = S.rd.rto_mask cpu := (h.mask cpu).symm
    have hcount₀ : (S.cpu_rq cpu).rd.rto_count = {i | S.rd.rto_mask i = true}.ncard := h.count
    rw [hset, hmask]
    rw [hbefore, hcount₀] at hcount
    omega

end System

section Online

variable {d : Domain}

theorem active_enable_runtime (b : rt_bandwidth) (d : Domain) (cpu i : Nat) :
    ((__enable_runtime b d cpu).rt_rq i).active = (d.rt_rq i).active := by
  by_cases hi : i = cpu <;> simp [__enable_runtime, hi]

theorem active_set_runtime (d : Domain) (j : Nat) (result : Int) (i : Nat) :
    ((d.set_runtime j result).rt_rq i).active = (d.rt_rq i).active := by
  by_cases hi : i = j <;> simp [Domain.set_runtime, hi]

theorem active_disable (d : Domain) (j i : Nat) : ((d.disable j).rt_rq i).active = (d.rt_rq i).active := by
  by_cases hi : i = j <;> simp [Domain.disable, hi]

theorem active_reclaim_loop (cpu : Nat) (d : Domain) (want : Int) (span : List Nat) (i : Nat) :
    ((reclaim_loop cpu d want span).1.rt_rq i).active = (d.rt_rq i).active := by
  induction span generalizing d want with
  | nil => rfl
  | cons j span ih =>
    simp only [reclaim_loop]
    split
    · exact ih d want
    · generalize (if want > 0 then min (wrap_s64 (d.rt_rq j).rt_runtime) want else want) = diff
      have hset := active_set_runtime d j ((d.rt_rq j).rt_runtime - diff) i
      split
      · exact hset
      · exact (ih _ _).trans hset

theorem active_disable_runtime (span : List Nat) (b : rt_bandwidth) (d : Domain) (cpu i : Nat) :
    ((__disable_runtime span b d cpu).rt_rq i).active = (d.rt_rq i).active := by
  simp only [__disable_runtime]
  split
  · exact active_disable d cpu i
  · exact (active_disable _ cpu i).trans (active_reclaim_loop cpu d _ span i)

/-- The tasks stand where they stood, and are counted as they were. -/
structure Unmoved (S S' : System) : Prop where
  tasks : S'.tasks = S.tasks
  on_rq : S'.on_rq = S.on_rq
  task_cpu : S'.task_cpu = S.task_cpu
  smp : ∀ i, (S'.rqs i).smp = (S.rqs i).smp
  active : ∀ i g, ((S'.rqs i).rt g).active = ((S.rqs i).rt g).active

theorem Unmoved.trans {S'' : System} (h : Unmoved S S') (h' : Unmoved S' S'') : Unmoved S S'' where
  tasks := h'.tasks.trans h.tasks
  on_rq := h'.on_rq.trans h.on_rq
  task_cpu := h'.task_cpu.trans h.task_cpu
  smp i := (h'.smp i).trans (h.smp i)
  active i g := (h'.active i g).trans (h.active i g)

theorem unmoved_store {r : rq} (htasks : r.tasks = S.tasks) (hsmp : r.smp = (S.rqs cpu).smp)
    (hrt : r.rt = (S.rqs cpu).rt) : Unmoved S (S.store cpu r) := by
  refine ⟨htasks, rfl, rfl, fun i => ?_, fun i g => ?_⟩
  · by_cases hi : i = cpu <;> simp [System.store, hi, hsmp]
  · by_cases hi : i = cpu <;> simp [System.store, hi, hrt]

/-- What is done to the runtimes and to `cpupri` when a CPU goes online or offline. -/
theorem unmoved_runtimes {f : rt_bandwidth → Domain → Nat → Domain}
    (hf : ∀ b d i, ((f b d cpu).rt_rq i).active = (d.rt_rq i).active) (S : System) (prio : Nat) :
    Unmoved S ((S.for_each_rt_rq f cpu).store cpu (cpupri_set ((S.for_each_rt_rq f cpu).cpu_rq cpu) prio)) := by
  refine .trans ?_ (unmoved_store rfl rfl rfl)
  rw [System.for_each_rt_rq]
  split
  · exact ⟨rfl, rfl, rfl, fun _ => rfl, fun _ _ => rfl⟩
  · exact ⟨rfl, rfl, rfl, fun _ => rfl, fun i g => hf _ _ i⟩

theorem online_runtimes (f : rt_bandwidth → Domain → Nat → Domain) (S : System) (cpu prio i : Nat) :
    (((S.for_each_rt_rq f cpu).store cpu (cpupri_set ((S.for_each_rt_rq f cpu).cpu_rq cpu) prio)).rqs i).online =
      (S.rqs i).online := by
  rw [System.for_each_rt_rq]
  by_cases hi : i = cpu <;> split <;> simp [System.store, System.cpu_rq, cpupri_set, hi]

theorem rto_runtimes (f : rt_bandwidth → Domain → Nat → Domain) (S : System) (cpu prio : Nat) :
    ((S.for_each_rt_rq f cpu).store cpu (cpupri_set ((S.for_each_rt_rq f cpu).cpu_rq cpu) prio)).rd.rto_mask =
      S.rd.rto_mask ∧
    ((S.for_each_rt_rq f cpu).store cpu (cpupri_set ((S.for_each_rt_rq f cpu).cpu_rq cpu) prio)).rd.rto_count =
      S.rd.rto_count := by
  rw [System.for_each_rt_rq]
  split <;> exact ⟨rfl, rfl⟩

/-- The CPU has gone online or offline. -/
structure Switched (S S' : System) (cpu : Nat) (online : Bool) : Prop extends Unmoved S S' where
  here : (S'.rqs cpu).online = online
  elsewhere : ∀ i, i ≠ cpu → (S'.rqs i).online = (S.rqs i).online
  mask : S'.rd.rto_mask =
    if ((S.rqs cpu).smp []).overloaded then update S.rd.rto_mask cpu online else S.rd.rto_mask
  count : S'.rd.rto_count = S.rd.rto_count +
    if ((S.rqs cpu).smp []).overloaded then if online then 1 else -1 else 0

theorem Switched.sameTasks {online : Bool} (h : Switched S S' cpu online) (i : Nat) :
    SameTasks (S.cpu_rq i) (S'.cpu_rq i) := fun g p => by
  simp only [queued, System.cpu_rq, h.active]

theorem Switched.overload {online : Bool} (h : Switched S S' cpu online) (i : Nat) :
    (S'.cpu_rq i).overload = if i = cpu then online && ((S.rqs cpu).smp []).overloaded else (S.cpu_rq i).overload := by
  simp only [rq.overload, System.cpu_rq, h.smp]
  split
  · rename_i hi
    rw [hi, h.here]
  · rename_i hi
    rw [h.elsewhere i hi]

theorem Switched.balanced {online : Bool} (h : Switched S S' cpu online) (hS : Balanced S)
    (hbefore : (S.rqs cpu).online = !online) : Balanced S' := by
  have hmask₀ : S.rd.rto_mask cpu = (!online && ((S.rqs cpu).smp []).overloaded) := by
    rw [hS.mask, rq.overload, System.cpu_rq, hbefore]
  have hmask : S'.rd.rto_mask = update S.rd.rto_mask cpu (online && ((S.rqs cpu).smp []).overloaded) := by
    rw [h.mask]
    cases hover : ((S.rqs cpu).smp []).overloaded with
    | false =>
      rw [hover, Bool.and_false] at hmask₀
      rw [if_neg Bool.false_ne_true, Bool.and_false, ← hmask₀, update_eq_self]
    | true => simp
  obtain ⟨hfinite, hcard⟩ := ncard_update hS.finite cpu (online && ((S.rqs cpu).smp []).overloaded)
  refine ⟨fun i => ?_, fun i p => ?_, fun i => ?_, ?_, ?_⟩
  · exact (hS.tallied i).of_queued (h.sameTasks i) (congrFun (h.smp i) []) fun q _ => .of_eq (congrFun h.tasks q)
  · rw [(h.sameTasks i).queued_iff, hS.queued, h.on_rq, h.task_cpu]
  · rw [hmask, h.overload]
    split
    · rename_i hi
      rw [hi, update_self]
    · rename_i hi
      rw [update_of_ne hi, hS.mask]
  · rw [hmask]
    exact hfinite
  · rw [hmask]
    rw [hmask₀] at hcard
    have hcount := h.count
    rw [hS.count] at hcount
    rw [hcount]
    cases online <;> cases hover : ((S.rqs cpu).smp []).overloaded <;> simp_all <;> omega

theorem store_store (S : System) (cpu : Nat) (r r' : rq) : (S.store cpu r).store cpu r' = S.store cpu r' := by
  simp [System.store]

theorem switched_online (h : (S.rqs cpu).online = false) : Switched S (S.set_rq_online cpu) cpu true := by
  have hoffline : (S.cpu_rq cpu).online = false := h
  simp only [System.set_rq_online, System.rq_online_rt, hoffline, Bool.not_false, if_true]
  have hself : (S.store cpu { S.cpu_rq cpu with online := true }).cpu_rq cpu = { S.cpu_rq cpu with online := true } :=
    cpu_rq_store_self rfl
  rw [hself]
  set S₁ := if (({ S.cpu_rq cpu with online := true } : rq).smp []).overloaded then
      (S.store cpu { S.cpu_rq cpu with online := true }).store cpu
        (rt_set_overload { S.cpu_rq cpu with online := true })
    else S.store cpu { S.cpu_rq cpu with online := true } with hS₁
  have hfirst : Switched S S₁ cpu true := by
    cases hover : ((S.rqs cpu).smp []).overloaded with
    | false =>
      have hstore : S₁ = S.store cpu { S.cpu_rq cpu with online := true } := if_neg (by simp [System.cpu_rq, hover])
      rw [hstore]
      refine ⟨unmoved_store rfl rfl rfl, ?_, fun i hi => ?_, ?_, ?_⟩ <;>
        simp_all [System.store, System.cpu_rq]
    | true =>
      have hstore : S₁ = S.store cpu (rt_set_overload { S.cpu_rq cpu with online := true }) := by
        rw [hS₁, if_pos (by simpa [System.cpu_rq] using hover), store_store]
      rw [hstore]
      refine ⟨unmoved_store ?_ ?_ ?_, ?_, fun i hi => ?_, ?_, ?_⟩ <;>
        simp_all [System.store, System.cpu_rq, rt_set_overload]
  obtain ⟨hmask, hcount⟩ := rto_runtimes __enable_runtime S₁ cpu
    (((S₁.for_each_rt_rq __enable_runtime cpu).cpu_rq cpu).rt []).highest_prio_curr
  refine ⟨hfirst.toUnmoved.trans (unmoved_runtimes (fun b d i => active_enable_runtime b d cpu i) S₁ _), ?_,
    fun i hi => ?_, hmask.trans hfirst.mask, hcount.trans hfirst.count⟩
  · rw [online_runtimes, hfirst.here]
  · rw [online_runtimes, hfirst.elsewhere i hi]

theorem switched_offline (h : (S.rqs cpu).online = true) : Switched S (S.set_rq_offline cpu) cpu false := by
  have honline : (S.cpu_rq cpu).online = true := h
  simp only [System.set_rq_offline, System.rq_offline_rt, honline, if_true]
  set S₁ := if ((S.cpu_rq cpu).smp []).overloaded then S.store cpu (rt_clear_overload (S.cpu_rq cpu)) else S with hS₁
  have hunmoved : Unmoved S S₁ := by
    rw [hS₁]
    split
    · refine unmoved_store ?_ ?_ ?_ <;> simp [rt_clear_overload, honline] <;> rfl
    · exact ⟨rfl, rfl, rfl, fun _ => rfl, fun _ _ => rfl⟩
  have helsewhere : ∀ i, i ≠ cpu → (S₁.rqs i).online = (S.rqs i).online := by
    intro i hi
    rw [hS₁]
    split <;> simp [System.store, hi]
  have hmask₁ : S₁.rd.rto_mask =
      if ((S.rqs cpu).smp []).overloaded then update S.rd.rto_mask cpu false else S.rd.rto_mask := by
    cases hover : ((S.rqs cpu).smp []).overloaded <;>
      simp [hS₁, System.cpu_rq, hover, System.store, rt_clear_overload, h]
  have hcount₁ : S₁.rd.rto_count = S.rd.rto_count + if ((S.rqs cpu).smp []).overloaded then -1 else 0 := by
    cases hover : ((S.rqs cpu).smp []).overloaded <;>
      simp [hS₁, System.cpu_rq, hover, System.store, rt_clear_overload, h]
    rfl
  have hruntimes := unmoved_runtimes (fun b d i => active_disable_runtime S₁.span b d cpu i) S₁ CPUPRI_INVALID
  have honline₂ := online_runtimes (__disable_runtime S₁.span) S₁ cpu CPUPRI_INVALID
  obtain ⟨hmask₂, hcount₂⟩ := rto_runtimes (__disable_runtime S₁.span) S₁ cpu CPUPRI_INVALID
  set S₂ := (S₁.for_each_rt_rq (__disable_runtime S₁.span) cpu).store cpu
    (cpupri_set ((S₁.for_each_rt_rq (__disable_runtime S₁.span) cpu).cpu_rq cpu) CPUPRI_INVALID)
  refine ⟨(hunmoved.trans hruntimes).trans (unmoved_store rfl rfl rfl), ?_, fun i hi => ?_, ?_, ?_⟩
  · simp [System.store]
  · have hother : ((S₂.store cpu { S₂.cpu_rq cpu with online := false }).rqs i) = S₂.rqs i :=
      update_of_ne hi _ _
    rw [hother, honline₂, helsewhere i hi]
  · exact hmask₂.trans hmask₁
  · exact hcount₂.trans hcount₁

end Online

section Run

variable {e : Event} {es : List Event}

theorem Balanced.called (h : Balanced S) (cpu : Nat) (c : Call) (hv : (Event.call cpu c).Valid S) :
    Called (S.cpu_rq cpu) (step (S.cpu_rq cpu) c) S.on_rq (System.on_rq_after S.on_rq c)
      fun p => S.task_cpu p = cpu := by
  refine (h.tallied cpu).call (h.queued cpu) c ?_ ?_ ?_
  · rintro p head rfl
    exact hv
  · rintro p borrow delta_exec rfl
    exact hv
  · rintro p t rfl
    exact hv

theorem Balanced.call (h : Balanced S) (cpu : Nat) (c : Call) (hv : (Event.call cpu c).Valid S) :
    Balanced { S.store cpu (step (S.cpu_rq cpu) c) with on_rq := System.on_rq_after S.on_rq c } := by
  have hcalled := h.called cpu c hv
  refine h.store hcalled.followed hcalled.tallied hcalled.queued hcalled.elsewhere fun p hon _ => .of_eq ?_
  by_contra hne
  rw [hcalled.tasks p hne] at hon
  exact Bool.noConfusion hon

theorem Balanced.set_cpus_allowed_rt (h : Balanced S) (hprio : (S.tasks p).prio < MAX_RT_PRIO) (new_mask : List Nat) :
    ∃ r, sched_rt.set_cpus_allowed_rt (S.cpu_rq (S.task_cpu p)) (S.on_rq p) p new_mask = .ok r ∧
      Rebound (S.cpu_rq (S.task_cpu p)) r (S.on_rq p) p new_mask ∧ Balanced (S.store (S.task_cpu p) r) := by
  have hon : S.on_rq p = true ↔ Queued (S.cpu_rq (S.task_cpu p)) p := by
    rw [h.queued]
    exact (and_iff_left rfl).symm
  obtain ⟨r, hcall, hr⟩ := (h.tallied (S.task_cpu p)).set_cpus_allowed_rt hon hprio new_mask
  have hqueued : ∀ q, Queued r q ↔ S.on_rq q = true ∧ S.task_cpu q = S.task_cpu p := fun q => by
    rw [← h.queued]
    simp only [Queued, sched_rt.queued, hr.rt]
  refine ⟨r, hcall, hr, h.store hr.followed hr.tallied hqueued (fun _ _ => rfl) fun q _ hne => .of_eq ?_⟩
  rw [hr.tasks]
  refine update_of_ne ?_ _ _
  rintro rfl
  exact hne rfl

theorem Balanced.set_task_cpu (h : Balanced S) (hoff : S.on_rq p = false) (cpu : Nat) :
    Balanced { S with task_cpu := update S.task_cpu p cpu } := by
  refine ⟨h.tallied, fun i q => (h.queued i q).trans (and_congr_right fun hon => ?_), h.mask, h.finite, h.count⟩
  have hne : q ≠ p := by
    rintro rfl
    rw [hoff] at hon
    exact Bool.noConfusion hon
  dsimp only
  rw [update_of_ne hne]

/-- No event runs into a `BUG_ON`, and what holds of the CPUs goes on to hold. -/
theorem Balanced.step_ok (h : Balanced S) (hv : e.Valid S) : ∃ S', S.step e = .ok S' ∧ Balanced S' := by
  cases e with
  | call cpu c => exact ⟨_, rfl, h.call cpu c hv⟩
  | set_cpus_allowed_rt p new_mask =>
    obtain ⟨r, hcall, -, hbalanced⟩ := h.set_cpus_allowed_rt hv new_mask
    refine ⟨_, ?_, hbalanced⟩
    rw [System.step, hcall]
    rfl
  | set_rq_online cpu =>
    refine ⟨_, rfl, ?_⟩
    cases honline : (S.rqs cpu).online with
    | false => exact (switched_online honline).balanced h honline
    | true =>
      have hsame : S.set_rq_online cpu = S := if_neg (by simp [System.cpu_rq, honline])
      rw [hsame]
      exact h
  | set_rq_offline cpu =>
    refine ⟨_, rfl, ?_⟩
    cases honline : (S.rqs cpu).online with
    | true => exact (switched_offline honline).balanced h honline
    | false =>
      have hsame : S.set_rq_offline cpu = S := if_neg (by simp [System.cpu_rq, honline])
      rw [hsame]
      exact h
  | set_task_cpu p cpu => exact ⟨_, rfl, h.set_task_cpu hv cpu⟩

theorem System.Initial.balanced (h : S.Initial) : Balanced S := by
  have hnone : ∀ cpu p, ¬ Queued (S.cpu_rq cpu) p := by
    rintro cpu p ⟨g, hg⟩
    rw [sched_rt.queued, (h.runqueue cpu).rt g] at hg
    simp [Table.entries, init_rt_rq] at hg
  have hempty : ∀ cpu, {p | Queued (S.cpu_rq cpu) p} = ∅ := fun cpu =>
    Set.eq_empty_iff_forall_notMem.mpr fun p hp => hnone cpu p hp
  have hmigratory : ∀ cpu, {p | Migratory (S.cpu_rq cpu) p} = ∅ := fun cpu =>
    Set.eq_empty_iff_forall_notMem.mpr fun p hp => hnone cpu p hp.1
  have hmask : {cpu | S.rd.rto_mask cpu = true} = ∅ := by simp [h.mask]
  refine ⟨fun cpu => ⟨fun g p hp => absurd ⟨g, hp⟩ (hnone cpu p), ?_, ?_, ?_, ?_⟩, fun cpu p => ?_, fun cpu => ?_, ?_, ?_⟩
  · rw [hempty]
    exact Set.finite_empty
  · rw [hempty, Set.ncard_empty]
    exact h.total cpu
  · rw [hmigratory, Set.ncard_empty]
    exact h.migratory cpu
  · have hover : ((S.cpu_rq cpu).smp []).overloaded = false := h.overloaded cpu
    have hzero : ((S.cpu_rq cpu).smp []).rt_nr_migratory = 0 := h.migratory cpu
    simp [hover, hzero]
  · simp [hnone, h.on_rq]
  · rw [h.mask, rq.overload, System.cpu_rq, h.overloaded, Bool.and_false]
  · rw [hmask]
    exact Set.finite_empty
  · rw [hmask, Set.ncard_empty]
    exact h.count

/-- The counters, the flags and the mask are right. The sets counted are finite. -/
structure Accounted (S : System) : Prop where
  queued : ∀ cpu p, Queued (S.cpu_rq cpu) p ↔ S.on_rq p = true ∧ S.task_cpu p = cpu
  finite : ∀ cpu, {p | Queued (S.cpu_rq cpu) p}.Finite
  total : ∀ cpu, ((S.rqs cpu).smp []).rt_nr_total = {p | Queued (S.cpu_rq cpu) p}.ncard
  migratory : ∀ cpu, ((S.rqs cpu).smp []).rt_nr_migratory =
    {p | Queued (S.cpu_rq cpu) p ∧ (S.tasks p).nr_cpus_allowed > 1}.ncard
  overloaded : ∀ cpu, ((S.rqs cpu).smp []).overloaded = true ↔
    0 < ((S.rqs cpu).smp []).rt_nr_migratory ∧ 1 < ((S.rqs cpu).smp []).rt_nr_total
  mask : ∀ cpu, S.rd.rto_mask cpu = true ↔ (S.rqs cpu).online = true ∧ ((S.rqs cpu).smp []).overloaded = true
  finite_mask : {cpu | S.rd.rto_mask cpu = true}.Finite
  count : S.rd.rto_count = {cpu | S.rd.rto_mask cpu = true}.ncard

theorem Balanced.accounted (h : Balanced S) : Accounted S where
  queued := h.queued
  finite cpu := (h.tallied cpu).finite
  total cpu := (h.tallied cpu).total
  migratory cpu := (h.tallied cpu).migratory
  overloaded cpu := by
    have hcount : ((S.rqs cpu).smp []).rt_nr_migratory = _ := (h.tallied cpu).migratory
    refine (h.tallied cpu).overloaded.trans (and_congr_left fun _ => ?_)
    have hroot : ((S.cpu_rq cpu).smp []).rt_nr_migratory = ((S.rqs cpu).smp []).rt_nr_migratory := rfl
    rw [hroot]
    omega
  mask cpu := by
    rw [h.mask, rq.overload, Bool.and_eq_true]
    exact Iff.rfl
  finite_mask := h.finite
  count := h.count

/-- After any events on the CPUs of a root domain that callers may bring about, the counters for
    migration and the overloaded CPUs are accounted for, and no `BUG_ON` has fired. -/
theorem overload_accounted (hinit : S.Initial) (hes : S.ValidRun es) : ∃ S', S.run es = .ok S' ∧ Accounted S' := by
  obtain ⟨S', hrun, hS'⟩ := checked.run_ok (fun S e => Balanced.step_ok) hinit.balanced hes
  exact ⟨S', hrun, hS'.accounted⟩

/-- CPUs without tasks, offline, for tasks of a group that may run on two of them. -/
def bootSystem : System where
  rqs cpu :=
    { cpu
      online := false
      curr := 0
      idle := 0
      skip_clock_update := 0
      tasks := fun _ => default_task
      need_resched := fun _ => false
      rt := fun _ => init_rt_rq 20
      smp := fun _ =>
        { highest_prio_next := MAX_RT_PRIO, rt_nr_migratory := 0, rt_nr_total := 0, overloaded := false,
          pushable_tasks := [] }
      leaf_rt_rq_list := []
      rd := { rto_mask := fun _ => false, rto_count := 0, cpupri := fun _ => MAX_RT_PRIO }
      bandwidth := fun _ => { rt_period := 100, rt_runtime := 20 }
      bandwidth_enabled := true
      warnings := [] }
  tasks _ := default_task
  rd := { rto_mask := fun _ => false, rto_count := 0, cpupri := fun _ => MAX_RT_PRIO }
  span := [0, 1]
  scheduler_running := true
  on_rq _ := false
  task_cpu _ := 0
where
  default_task : task_struct :=
    { prio := 10, normal_prio := 10, nr_cpus_allowed := 2, cpus_allowed := [0, 1], rt_rq := [0], rt_class := true,
      on_cpu := false }

/-- Two tasks come, their CPU goes online, one of them is bound to it, and it goes offline. -/
def overloadAndBind : List Event :=
  [.call 0 (.enqueue_task_rt 1 false), .call 0 (.enqueue_task_rt 2 false), .set_rq_online 0,
    .set_cpus_allowed_rt 1 [0], .set_rq_offline 0, .set_cpus_allowed_rt 2 [0]]

theorem overload_accounted_overloadAndBind : bootSystem.Initial ∧ bootSystem.ValidRun overloadAndBind ∧
    ∃ S', bootSystem.run overloadAndBind = .ok S' ∧ Accounted S' := by
  have hinit : bootSystem.Initial := ⟨fun _ => ⟨fun _ => rfl, rfl, rfl⟩, fun _ => rfl, fun _ => rfl, fun _ => rfl,
    fun _ => rfl, fun _ => rfl, rfl, fun _ => rfl⟩
  have hes : bootSystem.ValidRun overloadAndBind := by decide +kernel
  exact ⟨hinit, hes, overload_accounted hinit hes⟩

end Run

end cs444.sched_rt
