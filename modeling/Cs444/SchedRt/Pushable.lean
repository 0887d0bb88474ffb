import Cs444.SchedRt.Overload
import Cs444.SchedRt.Pick
import Mathlib.Data.List.TakeWhile

open Function priotable

namespace cs444.sched_rt

variable {s s' : rq} {S S' : System} {cpu p : Nat} {g : task_group}

section Plist

/-- A list in order of priority, of tasks that are all eligible, each once. -/
structure Plist (l : List (Nat × Nat)) (eligible : Nat → Prop) (prio : Nat → Nat) : Prop where
  eligible : ∀ x ∈ l, eligible x.2
  prio : ∀ x ∈ l, x.1 = prio x.2
  once : (l.map Prod.snd).Nodup
  order : l.Pairwise fun x y => x.1 ≤ y.1

variable {l : List (Nat × Nat)} {ok ok' : Nat → Prop} {prio prio' : Nat → Nat}

theorem Plist.mono (h : Plist l ok prio) (hok : ∀ q, ok q → ok' q ∧ prio' q = prio q) : Plist l ok' prio' where
  eligible x hx := (hok x.2 (h.eligible x hx)).1
  prio x hx := by rw [h.prio x hx, (hok x.2 (h.eligible x hx)).2]
  once := h.once
  order := h.order

theorem Plist.del (h : Plist l ok prio) (p : Nat) : Plist (plist_del p l) (fun q => ok q ∧ q ≠ p) prio := by
  have hsub : (plist_del p l).Sublist l := List.filter_sublist
  refine ⟨fun x hx => ?_, fun x hx => h.prio x (hsub.subset hx), h.once.sublist (hsub.map _), h.order.sublist hsub⟩
  obtain ⟨hin, hne⟩ := List.mem_filter.mp hx
  exact ⟨h.eligible x hin, by simpa using hne⟩

theorem plist_add_perm (x : Nat × Nat) (l : List (Nat × Nat)) : (plist_add x l).Perm (x :: l) := by
  have happend := List.takeWhile_append_dropWhile (p := fun y : Nat × Nat => decide (y.1 ≤ x.1)) (l := l)
  rw [plist_add]
  exact List.perm_middle.trans (by rw [happend])

/-- What stands behind the new entry has a lower priority. -/
theorem lt_of_mem_dropWhile {x y : Nat × Nat} (horder : l.Pairwise fun x y => x.1 ≤ y.1)
    (hy : y ∈ l.dropWhile fun z => decide (z.1 ≤ x.1)) : x.1 < y.1 := by
  induction l with
  | nil => exact absurd hy List.not_mem_nil
  | cons z l ih =>
    obtain ⟨hz, horder⟩ := List.pairwise_cons.mp horder
    by_cases hle : z.1 ≤ x.1
    · rw [List.dropWhile_cons_of_pos (by simpa using hle)] at hy
      exact ih horder hy
    · rw [List.dropWhile_cons_of_neg (by simpa using hle)] at hy
      obtain rfl | hy := List.mem_cons.mp hy
      · exact Nat.not_le.mp hle
      · exact (Nat.not_le.mp hle).trans_le (hz y hy)

theorem plist_add_order {x : Nat × Nat} (horder : l.Pairwise fun x y => x.1 ≤ y.1) :
    (plist_add x l).Pairwise fun x y => x.1 ≤ y.1 := by
  have hbefore : ∀ y ∈ l.takeWhile (fun z => decide (z.1 ≤ x.1)), y.1 ≤ x.1 := fun y hy => by
    simpa using List.mem_takeWhile_imp hy
  have hafter : ∀ y ∈ l.dropWhile (fun z => decide (z.1 ≤ x.1)), x.1 < y.1 := fun y hy => lt_of_mem_dropWhile horder hy
  rw [plist_add, List.pairwise_append, List.pairwise_cons]
  refine ⟨horder.sublist (List.takeWhile_sublist _), ⟨fun y hy => (hafter y hy).le, ?_⟩, fun y hy z hz => ?_⟩
  · exact horder.sublist (List.dropWhile_sublist _)
  · obtain rfl | hz := List.mem_cons.mp hz
    · exact hbefore y hy
    · exact (hbefore y hy).trans (hafter z hz).le

theorem Plist.add (h : Plist l ok prio) (p : Nat) :
    Plist (plist_add (prio p, p) (plist_del p l)) (fun q => (ok q ∧ q ≠ p) ∨ q = p) prio := by
  have hdel := h.del p
  have hperm := plist_add_perm (prio p, p) (plist_del p l)
  refine ⟨fun x hx => ?_, fun x hx => ?_, ?_, plist_add_order hdel.order⟩
  · obtain rfl | hx := List.mem_cons.mp (hperm.subset hx)
    · exact .inr rfl
    · exact .inl (hdel.eligible x hx)
  · obtain rfl | hx := List.mem_cons.mp (hperm.subset hx)
    · rfl
    · exact hdel.prio x hx
  · refine (hperm.map Prod.snd).nodup_iff.mpr ?_
    rw [List.map_cons, List.nodup_cons]
    refine ⟨fun hin => ?_, hdel.once⟩
    obtain ⟨x, hx, heq⟩ := List.mem_map.mp hin
    exact (hdel.eligible x hx).2 heq

end Plist

section Pushable

/-- A task that can be pushed to another CPU. -/
def Eligible (s : rq) (p : Nat) : Prop :=
  Queued s p ∧ p ≠ s.curr ∧ (s.tasks p).nr_cpus_allowed > 1

/-- The list of pushable tasks is in order, with eligible tasks only. -/
def Pushable (s : rq) : Prop :=
  Plist (s.smp []).pushable_tasks (Eligible s) fun q => (s.tasks q).prio

theorem pushable_enqueue_pushable_task (s : rq) (p : Nat) :
    ((enqueue_pushable_task s p).smp []).pushable_tasks =
      plist_add ((s.tasks p).prio, p) (plist_del p (s.smp []).pushable_tasks) := by
  simp [enqueue_pushable_task, rq.set_smp]

theorem pushable_dequeue_pushable_task (s : rq) (p : Nat) :
    ((dequeue_pushable_task s p).smp []).pushable_tasks = plist_del p (s.smp []).pushable_tasks := by
  simp [dequeue_pushable_task, rq.set_smp]

/-- A list that is the same, of tasks that are still eligible. -/
theorem Pushable.of_same (h : Pushable s) (hlist : (s'.smp []).pushable_tasks = (s.smp []).pushable_tasks)
    (hok : ∀ q, Eligible s q → Eligible s' q ∧ (s'.tasks q).prio = (s.tasks q).prio) : Pushable s' := by
  rw [Pushable, hlist]
  exact Plist.mono h hok

theorem Steady.pushable_ok (h : Steady s s') (hs : Pushable s) : Pushable s' := by
  refine hs.of_same h.pushable fun q hq => ?_
  rw [Eligible, h.queued.queued_iff, h.curr, h.tasks]
  exact ⟨hq, rfl⟩

theorem Turned.pushable_in (h : Turned s s' p True) (hs : Pushable s) : Pushable s' := by
  refine hs.of_same h.pushable fun q hq => ?_
  rw [Eligible, h.curr, h.tasks]
  refine ⟨⟨?_, hq.2⟩, rfl⟩
  obtain rfl | hne := eq_or_ne q p
  · exact h.here.mpr trivial
  · exact (h.others q hne).mpr hq.1

/-- A task that can be pushed is added to the list. -/
theorem Pushable.enqueue_pushable_task (h : Pushable s) (hp : Eligible s p) : Pushable (enqueue_pushable_task s p) := by
  rw [Pushable, pushable_enqueue_pushable_task]
  refine (Plist.add h p).mono fun q hq => ⟨?_, rfl⟩
  obtain hq | rfl := hq
  · exact hq.1
  · exact hp

theorem Pushable.enqueue_task_rt (h : Pushable s) (ht : Tallied s) (hprio : (s.tasks p).prio < MAX_RT_PRIO)
    (head : Bool) : Pushable (enqueue_task_rt s p head) := by
  have hturned := ht.enqueue_rt_entity hprio head
  have hqueued := hturned.pushable_in h
  simp only [sched_rt.enqueue_task_rt]
  split
  · rename_i hcond
    exact hqueued.enqueue_pushable_task ⟨hturned.here.mpr trivial, hcond.1.symm, hcond.2⟩
  · exact hqueued

theorem Pushable.dequeue_task_rt (h : Pushable s) (ht : Tallied s) (borrow : task_group → Nat) (delta_exec p : Nat) :
    Pushable (dequeue_task_rt borrow delta_exec s p) := by
  have haccount := steady_update_curr_rt borrow delta_exec s
  have hturned := (haccount.tallied ht).dequeue_rt_entity p
  rw [sched_rt.dequeue_task_rt, Pushable, pushable_dequeue_pushable_task, hturned.pushable]
  have hdel := Plist.del (haccount.pushable_ok h) p
  refine hdel.mono fun q ⟨hok, hne⟩ => ?_
  simp only [Eligible, dequeue_pushable_task, rq.set_smp, hturned.curr, hturned.tasks]
  exact ⟨⟨(hturned.others q hne).mpr hok.1, hok.2⟩, trivial⟩

/-- Each call keeps the list in order, but one that sets the current task. -/
theorem Pushable.call (h : Pushable s) (ht : Tallied s) {c : Call} (hc : c.Valid s) (hcurr : ∀ p, c ≠ .set_curr p) :
    Pushable (step s c) := by
  cases c with
  | enqueue_task_rt p head => exact h.enqueue_task_rt ht hc head
  | dequeue_task_rt p borrow delta_exec => exact h.dequeue_task_rt ht borrow delta_exec p
  | requeue_task_rt p head => exact (ht.requeue_all _ head).pushable_ok h
  | update_curr_rt borrow delta_exec => exact (steady_update_curr_rt borrow delta_exec s).pushable_ok h
  | sched_rt_runtime_exceeded g borrow => exact (steady_sched_rt_runtime_exceeded borrow s g).pushable_ok h
  | do_sched_rt_period_timer g borrow overrun =>
    exact (steady_do_sched_rt_period_timer borrow overrun s g).pushable_ok h
  | set_curr p => exact absurd rfl (hcurr p)
  | set_task p t =>
    refine h.of_same rfl fun q hq => ?_
    have hne : q ≠ p := by
      rintro rfl
      have hoff : on_rt_rq s (.task q) = false := hc
      rw [ht.on_rt_rq.mpr hq.1] at hoff
      exact Bool.noConfusion hoff
    have htask : (step s (.set_task p t)).tasks q = s.tasks q := update_of_ne hne _ _
    rw [Eligible, htask]
    exact ⟨hq, rfl⟩
  | set_bandwidth g b rt_runtime =>
    have hbandwidth : Steady s { s with bandwidth := update s.bandwidth g b } :=
      .of_rt ⟨rfl, rfl, rfl, rfl, rfl, rfl, rfl, rfl, rfl, rfl⟩ rfl
    have hset : Steady { s with bandwidth := update s.bandwidth g b } (step s (.set_bandwidth g b rt_runtime)) :=
      steady_set _ fun _ => Iff.rfl
    exact (hbandwidth.trans hset).pushable_ok h

/-- The list without the task, where it has it only if the old mask allows more than one CPU. -/
theorem Pushable.without (h : Pushable s) (p : Nat) :
    Plist (if (s.tasks p).nr_cpus_allowed > 1 then plist_del p (s.smp []).pushable_tasks
      else (s.smp []).pushable_tasks) (fun q => Eligible s q ∧ q ≠ p) fun q => (s.tasks q).prio := by
  split
  · exact Plist.del h p
  · rename_i hone
    refine Plist.mono h fun q hq => ⟨⟨hq, ?_⟩, rfl⟩
    rintro rfl
    exact hone hq.2.2

theorem pushable_update_pushable (s : rq) (p weight : Nat) (hcurr : s.curr ≠ p) :
    ((update_pushable s p weight).smp []).pushable_tasks =
      let l := if (s.tasks p).nr_cpus_allowed > 1 then plist_del p (s.smp []).pushable_tasks
        else (s.smp []).pushable_tasks
      if weight > 1 then plist_add ((s.tasks p).prio, p) (plist_del p l) else l := by
  simp only [update_pushable, if_neg hcurr]
  split <;> split <;> simp [enqueue_pushable_task, dequeue_pushable_task, rq.set_smp]

/-- A new mask for a task: the list has it only if the mask allows more than one CPU. -/
theorem Rebound.pushable_ok {on_rq : Bool} {new_mask : List Nat} (h : Rebound s s' on_rq p new_mask) (hs : Pushable s)
    (hon : on_rq = true ↔ Queued s p) : Pushable s' := by
  have hqueued : ∀ q, Queued s' q ↔ Queued s q := fun q => by simp only [Queued, sched_rt.queued, h.rt]
  have hprio : ∀ q, (s'.tasks q).prio = (s.tasks q).prio := fun q => by rw [h.tasks, rebind_prio]
  have hother : ∀ q, Eligible s q → q ≠ p → Eligible s' q ∧ (s'.tasks q).prio = (s.tasks q).prio := by
    intro q hq hne
    refine ⟨⟨(hqueued q).mpr hq.1, h.curr ▸ hq.2.1, ?_⟩, hprio q⟩
    rw [h.tasks, rebind_nr_cpus_allowed, if_neg hne]
    exact hq.2.2
  have hweight : (s'.tasks p).nr_cpus_allowed = cpumask_weight new_mask := by
    rw [h.tasks, rebind_nr_cpus_allowed, if_pos rfl]
  rw [Pushable, h.pushable, pushable_after]
  split
  · rename_i hchange
    by_cases hcurr : s.curr = p
    · rw [update_pushable, if_pos hcurr]
      exact Plist.mono hs fun q hq => hother q hq fun heq => hq.2.1 (heq.trans hcurr.symm)
    · rw [pushable_update_pushable s p _ hcurr]
      have hwithout := hs.without p
      dsimp only
      split
      · rename_i hwide
        refine (Plist.add hwithout p).mono fun q hq => ?_
        obtain ⟨⟨hok, hne⟩, -⟩ | rfl := hq
        · exact hother q hok hne
        · exact ⟨⟨(hqueued q).mpr (hon.mp hchange.1), h.curr ▸ Ne.symm hcurr, hweight ▸ hwide⟩, hprio q⟩
      · exact hwithout.mono fun q hq => hother q hq.1 hq.2
  · rename_i hsame
    refine Plist.mono hs fun q hq => ?_
    obtain rfl | hne := eq_or_ne q p
    · -- The task is queued, so the weight of the new mask is that of the old one.
      have hweights : cpumask_weight new_mask = (s.tasks q).nr_cpus_allowed := by
        by_contra hne
        exact hsame ⟨hon.mpr hq.1, hne⟩
      exact ⟨⟨(hqueued q).mpr hq.1, h.curr ▸ hq.2.1, by rw [hweight, hweights]; exact hq.2.2⟩, hprio q⟩
    · exact hother q hq hne

end Pushable

section Picking

/-- Picking runs into no `BUG_ON`, and the task that is picked is queued. -/
theorem Inv.pick_next_task_rt (h : Inv s) :
    pick_next_task_rt s = .ok (s, none) ∨
      ∃ p, Queued s p ∧ pick_next_task_rt s = .ok (dequeue_pushable_task s p, some p) := by
  by_cases hidle : (s.rt []).rt_nr_running = 0 ∨ rt_rq_throttled (s.rt []) = true
  · have hpick : sched_rt._pick_next_task_rt s = .ok none := by
      rw [sched_rt._pick_next_task_rt]
      obtain hzero | hthrottled := hidle
      · exact if_pos hzero
      · rw [if_pos hthrottled]
        exact ite_self _
    refine .inl ?_
    rw [sched_rt.pick_next_task_rt, hpick]
    rfl
  · rw [not_or, Bool.not_eq_true] at hidle
    obtain ⟨p, hpick, hpicked, -⟩ := h._pick_next_task_rt hidle.1 hidle.2
    obtain ⟨es, -, hp, hes⟩ := hpicked.way
    refine .inr ⟨p, ⟨_, on_rt_rq_iff.mp (hes _ hp).queued⟩, ?_⟩
    rw [sched_rt.pick_next_task_rt, hpick]
    rfl

end Picking

section Switching

/-- A task is described as before, but for where it may run and whether it does. -/
structure SameRole (t t' : task_struct) : Prop extends SameDuties t t' where
  normal_prio : t'.normal_prio = t.normal_prio
  rt_class : t'.rt_class = t.rt_class

theorem SameRole.of_eq {t t' : task_struct} (h : t' = t) : SameRole t t' :=
  ⟨.of_eq h, h ▸ rfl, h ▸ rfl⟩

theorem SameRole.trans {t t' t'' : task_struct} (h : SameRole t t') (h' : SameRole t' t'') : SameRole t t'' :=
  ⟨⟨h'.rt_rq.trans h.rt_rq, h'.prio.trans h.prio, h'.nr_cpus_allowed.trans h.nr_cpus_allowed⟩,
    h'.normal_prio.trans h.normal_prio, h'.rt_class.trans h.rt_class⟩

theorem Inv.retask_same (h : Inv s) (hrt : s'.rt = s.rt) (hleaf : s'.leaf_rt_rq_list = s.leaf_rt_rq_list)
    (hwarnings : s'.warnings = s.warnings) (htasks : ∀ p, Queued s p → SameRole (s.tasks p) (s'.tasks p)) : Inv s' := by
  refine h.retask hrt hleaf hwarnings fun g p hp => ?_
  obtain ⟨⟨hof, hprio, -⟩, hnormal, -⟩ := htasks p ⟨g, hp⟩
  exact ⟨hof, hprio, hnormal⟩

/-- No task comes or goes, and all of them are described as before. -/
structure Carried (s s' : rq) : Prop where
  tallied : Tallied s'
  followed : Followed s s'
  queued : SameTasks s s'
  inv : Inv s'
  tasks : ∀ q, SameRole (s.tasks q) (s'.tasks q)

theorem Steady.carried (h : Steady s s') (hs : Tallied s) (hinv : Inv s') : Carried s s' where
  tallied := h.tallied hs
  followed := h.toKept.followed
  queued := h.queued
  inv := hinv
  tasks q := .of_eq (congrFun h.tasks q)

theorem Carried.set_pushable (h : Carried s s') (l : List (Nat × Nat)) :
    Carried s (s'.set_smp [] { s'.smp [] with pushable_tasks := l }) where
  tallied := (h.tallied.set_pushable l).1
  followed := h.followed.trans (h.tallied.set_pushable l).2
  queued := h.queued
  inv := (sameCore_set_smp _ _ _).inv h.inv
  tasks := h.tasks

/-- A context switch changes only which task is on the CPU. -/
theorem sameRole_switch (tasks : Nat → task_struct) (prev next q : Nat) :
    SameRole (tasks q)
      (update (update tasks prev { tasks prev with on_cpu := false }) next
        { update tasks prev { tasks prev with on_cpu := false } next with on_cpu := true } q) := by
  by_cases hnext : q = next <;> by_cases hprev : q = prev <;> by_cases hboth : next = prev <;> simp_all <;>
    exact ⟨⟨rfl, rfl, rfl⟩, rfl, rfl⟩

/-- The next task runs, which is not on the list. -/
theorem Carried.run_next (h : Carried s s') (prev : Nat) {next : Nat}
    (hlist : Plist (s'.smp []).pushable_tasks (fun q => Migratory s q ∧ q ≠ next) fun q => (s.tasks q).prio) :
    let tasks := update s'.tasks prev { s'.tasks prev with on_cpu := false }
    let s'' := { s' with curr := next, tasks := update tasks next { tasks next with on_cpu := true } }
    Carried s s'' ∧ Pushable s'' := by
  intro tasks s''
  have hon_cpu : ∀ q, SameRole (s'.tasks q) (s''.tasks q) := sameRole_switch s'.tasks prev next
  have htasks : ∀ q, SameRole (s.tasks q) (s''.tasks q) := fun q => (h.tasks q).trans (hon_cpu q)
  refine ⟨⟨h.tallied.of_queued (fun _ _ => Iff.rfl) rfl fun q _ => (hon_cpu q).toSameDuties,
    h.followed.trans (.of_same rfl rfl rfl rfl), h.queued, h.inv.retask_same rfl rfl rfl fun q _ => hon_cpu q, htasks⟩,
    Plist.mono hlist fun q hq => ⟨⟨(h.queued.queued_iff q).mpr hq.1.1, hq.2, ?_⟩, (htasks q).prio⟩⟩
  rw [(htasks q).nr_cpus_allowed]
  exact hq.1.2

/-- The task that has run joins those that may be pushed once another one runs. -/
theorem Pushable.put_prev_task_rt (h : Pushable s) (ht : Tallied s) (hinv : Inv s) (borrow : task_group → Nat)
    (delta_exec p : Nat) : Carried s (put_prev_task_rt borrow delta_exec s p) ∧
      Plist ((put_prev_task_rt borrow delta_exec s p).smp []).pushable_tasks (Migratory s) fun q => (s.tasks q).prio := by
  have haccount := steady_update_curr_rt borrow delta_exec s
  have hcarried := haccount.carried ht (hinv.update_curr_rt borrow delta_exec)
  have hlist : Plist ((update_curr_rt borrow delta_exec s).smp []).pushable_tasks (Migratory s)
      fun q => (s.tasks q).prio := by
    rw [haccount.pushable]
    exact Plist.mono h fun q hq => ⟨⟨hq.1, hq.2.2⟩, rfl⟩
  simp only [sched_rt.put_prev_task_rt]
  split
  · rename_i hcond
    refine ⟨hcarried.set_pushable _, ?_⟩
    rw [pushable_enqueue_pushable_task, haccount.tasks]
    refine (hlist.add p).mono fun q hq => ⟨?_, rfl⟩
    obtain hq | rfl := hq
    · exact hq.1
    · rw [hcarried.tallied.on_rt_rq, haccount.queued.queued_iff, haccount.tasks] at hcond
      exact hcond
  · exact ⟨hcarried, hlist⟩

/-- A context switch runs into no `BUG_ON`, and keeps the list in order for the task that runs then. -/
theorem Pushable.schedule (h : Pushable s) (ht : Tallied s) (hinv : Inv s)
    (hclass : ∀ q, Queued s q → (s.tasks q).rt_class = true) (borrow : task_group → Nat) (delta_exec : Nat)
    {next : Nat} (hnext : (s.tasks next).rt_class = false) :
    ∃ s', schedule borrow delta_exec next s = .ok s' ∧ Carried s s' ∧ Pushable s' := by
  obtain ⟨s₁, hs₁⟩ : ∃ s₁, s₁ = if (s.tasks s.curr).rt_class then
      sched_rt.put_prev_task_rt borrow delta_exec s s.curr else s := ⟨_, rfl⟩
  obtain ⟨hcarried, hlist⟩ : Carried s s₁ ∧
      Plist (s₁.smp []).pushable_tasks (Migratory s) fun q => (s.tasks q).prio := by
    rw [hs₁]
    split
    · exact h.put_prev_task_rt ht hinv borrow delta_exec s.curr
    · exact ⟨(Steady.refl s).carried ht hinv, Plist.mono h fun q hq => ⟨⟨hq.1, hq.2.2⟩, rfl⟩⟩
  simp only [sched_rt.schedule, ← hs₁]
  obtain hpick | ⟨p, hp, hpick⟩ := hcarried.inv.pick_next_task_rt
  · -- What another class has to run is not of this one, so it is not on the list.
    rw [hpick]
    refine ⟨_, rfl, hcarried.run_next s.curr (hlist.mono fun q hq => ⟨⟨hq, ?_⟩, rfl⟩)⟩
    rintro rfl
    have hrt := hclass q hq.1
    exact Bool.noConfusion (hrt.symm.trans hnext)
  · rw [hpick]
    have hpicked : Carried s (dequeue_pushable_task s₁ p) := hcarried.set_pushable _
    have hrest : Plist ((dequeue_pushable_task s₁ p).smp []).pushable_tasks (fun q => Migratory s q ∧ q ≠ p)
        fun q => (s.tasks q).prio := by
      rw [pushable_dequeue_pushable_task]
      exact hlist.del p
    exact ⟨_, rfl, hpicked.run_next s.curr hrest⟩

end Switching

section System

/-- What holds of all CPUs between two callbacks. -/
structure Settled (S : System) : Prop where
  balanced : Balanced S
  inv : ∀ cpu, Inv (S.cpu_rq cpu)
  rt_class : ∀ p, S.on_rq p = true → (S.tasks p).rt_class = true
  pushable : ∀ cpu, Pushable (S.cpu_rq cpu)

/-- A new run queue for one CPU, where the tasks of the others are described as before. -/
theorem Settled.store {r : rq} {on_rq : Nat → Bool} (h : Settled S) (hbalanced : Balanced { S.store cpu r with on_rq })
    (hcpu : r.cpu = cpu) (hinv : Inv r) (hpushable : Pushable r)
    (hclass : ∀ p, on_rq p = true → (r.tasks p).rt_class = true)
    (htasks : ∀ p, S.on_rq p = true → S.task_cpu p ≠ cpu → SameRole (S.tasks p) (r.tasks p)) :
    Settled { S.store cpu r with on_rq } := by
  have hself : ({ S.store cpu r with on_rq } : System).cpu_rq cpu = r := cpu_rq_store_self hcpu
  have hother : ∀ i, i ≠ cpu → ({ S.store cpu r with on_rq } : System).cpu_rq i =
      { S.cpu_rq i with tasks := r.tasks, rd := r.rd } := fun i hi => cpu_rq_store_of_ne hi
  have hroles : ∀ i, i ≠ cpu → ∀ q, Queued (S.cpu_rq i) q → SameRole (S.tasks q) (r.tasks q) := by
    intro i hi q hq
    obtain ⟨hon, hof⟩ := (h.balanced.queued i q).mp hq
    exact htasks q hon fun heq => hi (hof.symm.trans heq)
  refine ⟨hbalanced, fun i => ?_, hclass, fun i => ?_⟩
  · obtain rfl | hi := eq_or_ne i cpu
    · rw [hself]
      exact hinv
    · rw [hother i hi]
      exact (h.inv i).retask_same rfl rfl rfl (hroles i hi)
  · obtain rfl | hi := eq_or_ne i cpu
    · rw [hself]
      exact hpushable
    · rw [hother i hi]
      refine (h.pushable i).of_same rfl fun q hq => ?_
      have hrole := hroles i hi q hq.1
      exact ⟨⟨hq.1, hq.2.1, hrole.nr_cpus_allowed ▸ hq.2.2⟩, hrole.prio⟩

/-- A callback on one CPU that keeps all tasks. -/
theorem Settled.carried {r : rq} (h : Settled S) (hr : Carried (S.cpu_rq cpu) r) (hpushable : Pushable r) :
    Settled (S.store cpu r) := by
  have hqueued : ∀ p, Queued r p ↔ S.on_rq p = true ∧ S.task_cpu p = cpu := fun p =>
    (hr.queued.queued_iff p).trans (h.balanced.queued cpu p)
  have hbalanced : Balanced { S.store cpu r with on_rq := S.on_rq } :=
    h.balanced.store hr.followed hr.tallied hqueued (fun _ _ => rfl) fun p _ _ => (hr.tasks p).toSameDuties
  refine h.store hbalanced hr.followed.cpu hr.inv hpushable (fun p hon => ?_) fun p _ _ => hr.tasks p
  rw [(hr.tasks p).rt_class]
  exact h.rt_class p hon

theorem tasks_enqueue_pushable_task (s : rq) (p : Nat) : (enqueue_pushable_task s p).tasks = s.tasks :=
  rfl

theorem tasks_enqueue_task_rt (ht : Tallied s) (hprio : (s.tasks p).prio < MAX_RT_PRIO) (head : Bool) :
    (enqueue_task_rt s p head).tasks = s.tasks := by
  have htasks := (ht.enqueue_rt_entity hprio head).tasks
  simp only [enqueue_task_rt]
  split
  · rw [tasks_enqueue_pushable_task, htasks]
  · exact htasks

/-- The tasks that are queued after a call are of the class. -/
theorem Settled.rt_class_call (h : Settled S) {c : Call} (hv : (Event.call cpu c).Valid S)
    (ho : (Event.call cpu c).Ordered S) (hcalled : Called (S.cpu_rq cpu) (step (S.cpu_rq cpu) c) S.on_rq
      (System.on_rq_after S.on_rq c) fun p => S.task_cpu p = cpu)
    (hon : System.on_rq_after S.on_rq c p = true) : ((step (S.cpu_rq cpu) c).tasks p).rt_class = true := by
  by_cases hbefore : S.on_rq p = true
  · have hsame : (step (S.cpu_rq cpu) c).tasks p = S.tasks p := by
      by_contra hne
      exact Bool.noConfusion (hbefore.symm.trans (hcalled.tasks p hne))
    rw [hsame]
    exact h.rt_class p hbefore
  · cases c with
    | enqueue_task_rt q head =>
      obtain rfl | hne := eq_or_ne p q
      · have htasks : (step (S.cpu_rq cpu) (.enqueue_task_rt p head)).tasks = S.tasks :=
          tasks_enqueue_task_rt (h.balanced.tallied cpu) hv.2 head
        rw [htasks]
        exact ho
      · exact absurd ((update_of_ne hne _ _).symm.trans hon) hbefore
    | dequeue_task_rt q borrow delta_exec =>
      obtain rfl | hne := eq_or_ne p q
      · exact Bool.noConfusion ((update_self _ _ _).symm.trans hon)
      · exact absurd ((update_of_ne hne _ _).symm.trans hon) hbefore
    | _ => exact absurd hon hbefore

theorem Settled.call (h : Settled S) {c : Call} (hv : (Event.call cpu c).Valid S) (ho : (Event.call cpu c).Ordered S) :
    Settled { S.store cpu (step (S.cpu_rq cpu) c) with on_rq := System.on_rq_after S.on_rq c } := by
  have hcalled := h.balanced.called cpu c hv
  have hvalid : c.Valid (S.cpu_rq cpu) := by
    cases c with
    | enqueue_task_rt p head => exact hv.2
    | set_task p t =>
      have hoff : S.on_rq p = false := hv
      rw [Call.Valid, Bool.eq_false_iff, Ne, (h.balanced.tallied cpu).on_rt_rq, h.balanced.queued]
      simp [hoff]
    | _ => trivial
  have hcurr : ∀ p, c ≠ .set_curr p := by
    rintro p rfl
    exact ho
  refine h.store (h.balanced.call cpu c hv) hcalled.followed.cpu ((h.inv cpu).step_ok hvalid)
    ((h.pushable cpu).call (h.balanced.tallied cpu) hvalid hcurr) (fun p hon => h.rt_class_call hv ho hcalled hon)
    fun p hon _ => .of_eq ?_
  by_contra hne
  exact Bool.noConfusion (hon.symm.trans (hcalled.tasks p hne))

theorem Settled.set_cpus_allowed_rt (h : Settled S) (hprio : (S.tasks p).prio < MAX_RT_PRIO) (new_mask : List Nat) :
    ∃ r, sched_rt.set_cpus_allowed_rt (S.cpu_rq (S.task_cpu p)) (S.on_rq p) p new_mask = .ok r ∧
      Settled (S.store (S.task_cpu p) r) := by
  obtain ⟨r, hcall, hr, hbalanced⟩ := h.balanced.set_cpus_allowed_rt hprio new_mask
  have hon : S.on_rq p = true ↔ Queued (S.cpu_rq (S.task_cpu p)) p := by
    rw [h.balanced.queued]
    exact (and_iff_left rfl).symm
  have hroles : ∀ q, (r.tasks q).rt_rq = (S.tasks q).rt_rq ∧ (r.tasks q).prio = (S.tasks q).prio ∧
      (r.tasks q).normal_prio = (S.tasks q).normal_prio ∧ (r.tasks q).rt_class = (S.tasks q).rt_class := by
    intro q
    rw [hr.tasks]
    by_cases hq : q = p <;> simp [rebind, hq, System.cpu_rq]
  have hinv : Inv r := (h.inv (S.task_cpu p)).retask hr.rt hr.leaf hr.warnings fun g q _ =>
    ⟨(hroles q).1, (hroles q).2.1, (hroles q).2.2.1⟩
  have hstored : Balanced { S.store (S.task_cpu p) r with on_rq := S.on_rq } := hbalanced
  refine ⟨r, hcall, h.store hstored hr.followed.cpu hinv (hr.pushable_ok (h.pushable _) hon) ?_ ?_⟩
  · intro q hq
    rw [(hroles q).2.2.2]
    exact h.rt_class q hq
  · intro q _ hne
    refine .of_eq ?_
    rw [hr.tasks]
    refine update_of_ne ?_ _ _
    rintro rfl
    exact hne rfl

theorem Settled.set_task_cpu (h : Settled S) (hoff : S.on_rq p = false) (cpu : Nat) :
    Settled { S with task_cpu := update S.task_cpu p cpu } :=
  ⟨h.balanced.set_task_cpu hoff cpu, h.inv, h.rt_class, h.pushable⟩

theorem Pushable.set_curr_task_rt (h : Pushable s) : Pushable (set_curr_task_rt s) := by
  rw [Pushable, sched_rt.set_curr_task_rt, pushable_dequeue_pushable_task]
  exact (Plist.del h s.curr).mono fun q hq => ⟨hq.1, rfl⟩

theorem Settled.set_curr_task_rt (h : Settled S) (cpu : Nat) :
    Settled (S.store cpu (sched_rt.set_curr_task_rt (S.cpu_rq cpu))) := by
  have hcarried := (Steady.refl (S.cpu_rq cpu)).carried (h.balanced.tallied cpu) (h.inv cpu)
  exact h.carried (hcarried.set_pushable _) (h.pushable cpu).set_curr_task_rt

/-- A current task that is not queued is not put on the list. -/
theorem Settled.put_prev_task_rt (h : Settled S) (hoff : on_rt_rq (S.cpu_rq cpu) (.task (S.cpu_rq cpu).curr) = false)
    (borrow : task_group → Nat) (delta_exec : Nat) :
    Settled (S.store cpu (sched_rt.put_prev_task_rt borrow delta_exec (S.cpu_rq cpu) (S.cpu_rq cpu).curr)) := by
  have haccount := steady_update_curr_rt borrow delta_exec (S.cpu_rq cpu)
  have hcarried := haccount.carried (h.balanced.tallied cpu) ((h.inv cpu).update_curr_rt borrow delta_exec)
  have hstill : on_rt_rq (update_curr_rt borrow delta_exec (S.cpu_rq cpu)) (.task (S.cpu_rq cpu).curr) = false := by
    rw [Bool.eq_false_iff, Ne, hcarried.tallied.on_rt_rq, hcarried.queued.queued_iff,
      ← (h.balanced.tallied cpu).on_rt_rq, hoff]
    exact Bool.false_ne_true
  have hput : sched_rt.put_prev_task_rt borrow delta_exec (S.cpu_rq cpu) (S.cpu_rq cpu).curr =
      update_curr_rt borrow delta_exec (S.cpu_rq cpu) := if_neg (by simp [hstill])
  rw [hput]
  exact h.carried hcarried (haccount.pushable_ok (h.pushable cpu))

theorem Settled.schedule (h : Settled S) (cpu : Nat) (borrow : task_group → Nat) (delta_exec : Nat) {next : Nat}
    (hnext : (S.tasks next).rt_class = false) :
    ∃ r, sched_rt.schedule borrow delta_exec next (S.cpu_rq cpu) = .ok r ∧ Settled (S.store cpu r) := by
  have hclass : ∀ q, Queued (S.cpu_rq cpu) q → (S.tasks q).rt_class = true := fun q hq =>
    h.rt_class q ((h.balanced.queued cpu q).mp hq).1
  obtain ⟨r, hcall, hcarried, hpushable⟩ :=
    (h.pushable cpu).schedule (h.balanced.tallied cpu) (h.inv cpu) hclass borrow delta_exec hnext
  exact ⟨r, hcall, h.carried hcarried hpushable⟩

/-- No callback runs into a `BUG_ON`, and what holds of the CPUs goes on to hold. -/
theorem Settled.callback_ok {c : Callback} (h : Settled S) (hv : c.Valid S) : ∃ S', S.callback c = .ok S' ∧ Settled S' := by
  cases c with
  | event e =>
    obtain ⟨hv, ho⟩ := hv
    cases e with
    | call cpu c => exact ⟨_, rfl, h.call hv ho⟩
    | set_cpus_allowed_rt p new_mask =>
      obtain ⟨r, hcall, hsettled⟩ := h.set_cpus_allowed_rt hv new_mask
      refine ⟨_, ?_, hsettled⟩
      rw [System.callback, System.step, hcall]
      rfl
    | set_rq_online cpu => exact ho.elim
    | set_rq_offline cpu => exact ho.elim
    | set_task_cpu p cpu => exact ⟨_, rfl, h.set_task_cpu hv cpu⟩
  | set_curr_task_rt cpu => exact ⟨_, rfl, h.set_curr_task_rt cpu⟩
  | put_prev_task_rt cpu borrow delta_exec => exact ⟨_, rfl, h.put_prev_task_rt hv borrow delta_exec⟩
  | schedule cpu borrow delta_exec next =>
    obtain ⟨r, hcall, hsettled⟩ := h.schedule cpu borrow delta_exec hv
    refine ⟨_, ?_, hsettled⟩
    rw [System.callback, hcall]
    rfl

theorem System.Initial.settled (h : S.Initial) : Settled S := by
  refine ⟨h.balanced, fun cpu => (h.runqueue cpu).inv, fun p hon => ?_, fun cpu => ?_⟩
  · exact Bool.noConfusion ((h.on_rq p).symm.trans hon)
  · have hempty : ((S.cpu_rq cpu).smp []).pushable_tasks = [] := h.pushable cpu
    rw [Pushable, hempty]
    exact ⟨fun _ hx => absurd hx List.not_mem_nil, fun _ hx => absurd hx List.not_mem_nil, List.nodup_nil, .nil⟩

/-- The tasks on the list of a CPU can be pushed, and each stands there once and in its place. -/
structure PushableTasks (S : System) (cpu : Nat) : Prop where
  queued : ∀ x ∈ ((S.rqs cpu).smp []).pushable_tasks, on_rt_rq (S.cpu_rq cpu) (.task x.2) = true ∧
    S.on_rq x.2 = true ∧ S.task_cpu x.2 = cpu
  rt_task : ∀ x ∈ ((S.rqs cpu).smp []).pushable_tasks, (S.tasks x.2).rt_class = true ∧ rt_prio (S.tasks x.2).prio = true
  not_curr : ∀ x ∈ ((S.rqs cpu).smp []).pushable_tasks, x.2 ≠ (S.rqs cpu).curr
  nr_cpus_allowed : ∀ x ∈ ((S.rqs cpu).smp []).pushable_tasks, (S.tasks x.2).nr_cpus_allowed > 1
  once : (((S.rqs cpu).smp []).pushable_tasks.map Prod.snd).Nodup
  order : ((S.rqs cpu).smp []).pushable_tasks.Pairwise fun x y => (S.tasks x.2).prio ≤ (S.tasks y.2).prio

theorem Settled.pushableTasks (h : Settled S) (cpu : Nat) : PushableTasks S cpu := by
  have htallied := h.balanced.tallied cpu
  have hpushable := h.pushable cpu
  have hqueued : ∀ x ∈ ((S.rqs cpu).smp []).pushable_tasks, Queued (S.cpu_rq cpu) x.2 := fun x hx =>
    (hpushable.eligible x hx).1
  refine ⟨fun x hx => ⟨htallied.on_rt_rq.mpr (hqueued x hx), (h.balanced.queued cpu x.2).mp (hqueued x hx)⟩,
    fun x hx => ⟨?_, ?_⟩, fun x hx => (hpushable.eligible x hx).2.1, fun x hx => (hpushable.eligible x hx).2.2,
    hpushable.once, ?_⟩
  · exact h.rt_class x.2 ((h.balanced.queued cpu x.2).mp (hqueued x hx)).1
  · obtain ⟨g, hg⟩ := hqueued x hx
    have hprio : (S.tasks x.2).prio < MAX_RT_PRIO := (htallied.home g x.2 hg).2
    simpa [rt_prio] using hprio
  · refine hpushable.order.imp_of_mem fun hx hy hle => ?_
    rw [hpushable.prio _ hx, hpushable.prio _ hy] at hle
    exact hle

/-- The head of such a list is picked, and none of the `BUG_ON`s fires for it. -/
theorem PushableTasks.pick_eq (h : PushableTasks S cpu) :
    pick_next_pushable_task (S.cpu_rq cpu) S.task_cpu S.on_rq =
      .ok (((S.rqs cpu).smp []).pushable_tasks.head?.map Prod.snd) := by
  have hlist : ((S.cpu_rq cpu).smp []).pushable_tasks = ((S.rqs cpu).smp []).pushable_tasks := rfl
  rw [pick_next_pushable_task, hlist]
  cases hcons : ((S.rqs cpu).smp []).pushable_tasks with
  | nil => rfl
  | cons x l =>
    have hx : x ∈ ((S.rqs cpu).smp []).pushable_tasks := hcons ▸ List.mem_cons_self
    obtain ⟨-, hon, hcpu⟩ := h.queued x hx
    have hcurr : (S.cpu_rq cpu).curr ≠ x.2 := (h.not_curr x hx).symm
    have hallowed : ¬ ((S.cpu_rq cpu).tasks x.2).nr_cpus_allowed ≤ 1 := Nat.not_le.mpr (h.nr_cpus_allowed x hx)
    have hrt : rt_prio ((S.cpu_rq cpu).tasks x.2).prio = true := (h.rt_task x hx).2
    have hself : (S.cpu_rq cpu).cpu = S.task_cpu x.2 := hcpu.symm
    simp [hself, hcurr, hallowed, hon, hrt]

/-- After any callbacks in the order in which the core scheduler makes them, the tasks on every list
    of pushable tasks can be pushed, and no `BUG_ON` fires, also not in `pick_next_pushable_task`. -/
theorem pushable_tasks_ok {cs : List Callback} (hinit : S.Initial) (hcs : S.ValidCallbacks cs) :
    ∃ S', S.callbacks cs = .ok S' ∧ ∀ cpu, PushableTasks S' cpu ∧
      ∃ p, pick_next_pushable_task (S'.cpu_rq cpu) S'.task_cpu S'.on_rq = .ok p := by
  obtain ⟨S', hrun, hS'⟩ := checked.run_ok (fun S c => Settled.callback_ok) hinit.settled hcs
  exact ⟨S', hrun, fun cpu => ⟨hS'.pushableTasks cpu, _, (hS'.pushableTasks cpu).pick_eq⟩⟩

/-- Task 0 is the idle task. Two tasks come, one of them runs, is bound to the CPU while it does and
    freed again, and gives way to one of a higher priority. -/
def bindAndPreempt : List Callback :=
  [.event (.call 0 (.set_task 0 { bootSystem.default_task with prio := 120, rt_class := false })),
    .event (.call 0 (.enqueue_task_rt 1 false)), .event (.call 0 (.enqueue_task_rt 2 false)),
    .schedule 0 (fun _ => 0) 1 0, .event (.set_cpus_allowed_rt 1 [0]), .set_curr_task_rt 0,
    .event (.set_cpus_allowed_rt 1 [0, 1]),
    .event (.call 0 (.set_task 3 { bootSystem.default_task with prio := 5, rt_rq := [] })),
    .event (.call 0 (.enqueue_task_rt 3 false)), .schedule 0 (fun _ => 0) 1 0,
    .event (.call 0 (.dequeue_task_rt 3 (fun _ => 0) 1)), .put_prev_task_rt 0 (fun _ => 0) 1]

theorem pushable_tasks_ok_bindAndPreempt : bootSystem.Initial ∧ bootSystem.ValidCallbacks bindAndPreempt ∧
    ∃ S', bootSystem.callbacks bindAndPreempt = .ok S' ∧ ∀ cpu, PushableTasks S' cpu ∧
      ∃ p, pick_next_pushable_task (S'.cpu_rq cpu) S'.task_cpu S'.on_rq = .ok p := by
  have hinit : bootSystem.Initial := ⟨fun _ => ⟨fun _ => rfl, rfl, rfl⟩, fun _ => rfl, fun _ => rfl, fun _ => rfl,
    fun _ => rfl, fun _ => rfl, rfl, fun _ => rfl⟩
  have hcs : bootSystem.ValidCallbacks bindAndPreempt := by decide +kernel
  exact ⟨hinit, hcs, pushable_tasks_ok hinit hcs⟩

end System

end cs444.sched_rt
