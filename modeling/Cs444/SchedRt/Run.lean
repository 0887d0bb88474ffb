import Cs444.SchedRt.Stack

open Function priotable

namespace cs444.sched_rt

variable {s s' : rq} {g : task_group}

section Set

/-- A run queue with the same entities and the same counters, in another order or with
    another account of its time. -/
structure rt_rq.Alike (r r' : rt_rq) : Prop where
  mem : ∀ e, e ∈ r'.active.entries MAX_RT_PRIO ↔ e ∈ r.active.entries MAX_RT_PRIO
  running : r'.rt_nr_running = r.rt_nr_running
  highest : r'.highest_prio_curr = r.highest_prio_curr
  boosted : r'.rt_nr_boosted = r.rt_nr_boosted

/-- The invariant, but for whether the group itself is queued in its parent. -/
structure InvBut (s : rq) (g : task_group) : Prop where
  tidy : Tidy s
  coupled : ∀ i parent, i :: parent ≠ g → Coupled s i parent

theorem InvBut.inv (h : InvBut s g) (hg : ∀ i parent, i :: parent = g → Coupled s i parent) : Inv s := by
  refine ⟨h.tidy, fun i parent => ?_⟩
  obtain heq | hne := eq_or_ne (i :: parent) g
  · exact hg i parent heq
  · exact h.coupled i parent hne

theorem InvBut.open (h : InvBut s g) : Open s g [] := by
  refine .of_coupled h.tidy fun i parent hp => h.coupled i parent ?_
  rintro rfl
  exact hp (List.suffix_refl _)

theorem rt_rq.Alike.on_rt_rq {r : rt_rq} (h : (s.rt g).Alike r) (e : sched_rt_entity) :
    on_rt_rq (s.set g r) e = on_rt_rq s e := by
  rw [Bool.eq_iff_iff, on_rt_rq_iff, on_rt_rq_iff, same_rt_rq_of_se (s := s) (by simp [rq.set]) e]
  obtain heq | hne := eq_or_ne (rt_rq_of_se s e) g
  · rw [heq, queued, set_rt_self]
    exact h.mem e
  · rw [queued, set_rt_of_ne r hne]

theorem Tidy.set (h : Tidy s) {r : rt_rq} (halike : (s.rt g).Alike r) (hsound : r.Sound (rt_se_boosted s))
    (hhome : ∀ i, ∀ e ∈ r.active.queue i, i < MAX_RT_PRIO ∧ rt_rq_of_se s e = g ∧ rt_se_prio s e = i) :
    Tidy (s.set g r) := by
  have hrt : ∀ x, x ≠ g → (s.set g r).rt x = s.rt x := fun x hx => set_rt_of_ne r hx
  refine ⟨fun g' => ?_, h.leaf_nodup, h.warnings⟩
  obtain rfl | hne := eq_or_ne g' g
  · refine Local.self (s := s) rfl hrt ?_ ?_ ?_
    · rwa [set_rt_self]
    · rwa [set_rt_self]
    · rw [set_rt_self, halike.running]
      exact (h.all g').leaf
  · refine (h.all g').other hne rfl hrt (fun e he _ => ?_) Iff.rfl
    cases e with
    | task p => simp [group_rt_rq] at he
    | group i parent =>
      cases he
      simp only [rt_se_prio, rt_se_boosted, set_rt_self, halike.highest, halike.boosted, and_self]

theorem Inv.set (h : Inv s) {r : rt_rq} (halike : (s.rt g).Alike r) (hsound : r.Sound (rt_se_boosted s))
    (hhome : ∀ i, ∀ e ∈ r.active.queue i, i < MAX_RT_PRIO ∧ rt_rq_of_se s e = g ∧ rt_se_prio s e = i) :
    InvBut (s.set g r) g := by
  refine ⟨h.tidy.set halike hsound hhome, fun i parent hne => ?_⟩
  exact (h.coupled i parent).congr (set_rt_of_ne r hne) (by rw [halike.on_rt_rq])

theorem Inv.set_same (h : Inv s) {r : rt_rq} (halike : (s.rt g).Alike r) (hsound : r.Sound (rt_se_boosted s))
    (hhome : ∀ i, ∀ e ∈ r.active.queue i, i < MAX_RT_PRIO ∧ rt_rq_of_se s e = g ∧ rt_se_prio s e = i)
    (hthrottled : rt_rq_throttled r = rt_rq_throttled (s.rt g)) : Inv (s.set g r) := by
  refine (h.set halike hsound hhome).inv fun i parent heq => ?_
  subst heq
  rw [Coupled, halike.on_rt_rq, set_rt_self, halike.running, hthrottled]
  exact h.coupled i parent

/-- Changing what a run queue accounts of its time. -/
theorem Inv.set_time (h : Inv s) (g : task_group) (rt_time rt_runtime : Nat) :
    Inv (s.set g { s.rt g with rt_time, rt_runtime }) := by
  obtain ⟨hsound, hhome, -⟩ := h.tidy.all g
  exact h.set_same ⟨fun _ => Iff.rfl, rfl, rfl, rfl⟩
    ⟨hsound.marked, hsound.nodup, hsound.running, hsound.boosted, hsound.least⟩ hhome rfl

theorem alike_throttled (r : rt_rq) (rt_throttled : Bool) : r.Alike { r with rt_throttled } :=
  ⟨fun _ => Iff.rfl, rfl, rfl, rfl⟩

theorem Inv.set_throttled (h : Inv s) (g : task_group) (rt_throttled : Bool) :
    InvBut (s.set g { s.rt g with rt_throttled }) g := by
  obtain ⟨hsound, hhome, -⟩ := h.tidy.all g
  exact h.set (alike_throttled _ _)
    ⟨hsound.marked, hsound.nodup, hsound.running, hsound.boosted, hsound.least⟩ hhome

theorem SameCore.inv (h : SameCore s s') (hs : Inv s) : Inv s' := by
  refine ⟨h.tidy hs.tidy, fun i parent => ?_⟩
  rw [Coupled, h.on_rt_rq, h.rt]
  exact hs.coupled i parent

theorem SameCore.invBut (h : SameCore s s') (hs : InvBut s g) : InvBut s' g := by
  refine ⟨h.tidy hs.tidy, fun i parent hne => ?_⟩
  rw [Coupled, h.on_rt_rq, h.rt]
  exact hs.coupled i parent hne

theorem sameCore_resched_task (s : rq) (p : Nat) : SameCore s (resched_task s p) :=
  ⟨rfl, rfl, rfl, rfl⟩

end Set

section Throttle

variable (borrow : task_group → Nat)

theorem InvBut.sched_rt_rq_dequeue (h : InvBut s g) (hthrottled : rt_rq_throttled (s.rt g) = true) :
    Inv (sched_rt_rq_dequeue s g) := by
  cases g with
  | nil => exact h.inv fun i parent heq => absurd heq (List.cons_ne_nil i parent)
  | cons i parent =>
    simp only [sched_rt.sched_rt_rq_dequeue, rt_se_of]
    split
    · exact h.open.dequeue_rt_entity_group
    · rename_i hon
      refine h.inv fun j p heq => ?_
      cases heq
      rw [Coupled, hthrottled]
      exact iff_of_false hon (by simp)

theorem InvBut.sched_rt_rq_enqueue (h : InvBut s g) (hthrottled : rt_rq_throttled (s.rt g) = false)
    (hempty : (s.rt g).rt_nr_running = 0 → Off s g) : Inv (sched_rt_rq_enqueue s g) := by
  have hresched : ∀ {s : rq}, Inv s →
      Inv (if (s.rt g).highest_prio_curr < (s.tasks s.curr).prio then resched_task s s.curr else s) := by
    intro s hs
    split
    · exact (sameCore_resched_task _ _).inv hs
    · exact hs
  rw [sched_rt.sched_rt_rq_enqueue]
  split
  · rename_i hrunning
    apply hresched
    cases g with
    | nil => exact h.inv fun i parent heq => absurd heq (List.cons_ne_nil i parent)
    | cons i parent =>
      simp only [rt_se_of]
      split
      · exact h.open.enqueue_rt_entity_group false
      · rename_i hon
        refine h.inv fun j p heq => ?_
        cases heq
        exact iff_of_true (by simpa using hon) ⟨hrunning, hthrottled⟩
  · rename_i hrunning
    refine h.inv fun i parent heq => ?_
    subst heq
    rw [Coupled, hempty (not_not.mp hrunning) _ rfl]
    exact iff_of_false (by simp) fun hand => hrunning hand.1

theorem Inv.balance_runtime (h : Inv s) (g : task_group) : Inv (balance_runtime borrow s g) := by
  rw [sched_rt.balance_runtime]
  split
  · exact h.set_time g _ _
  · exact h

theorem Inv.sched_rt_runtime_exceeded (h : Inv s) (g : task_group) :
    Inv (sched_rt_runtime_exceeded borrow s g).1 := by
  simp only [sched_rt.sched_rt_runtime_exceeded]
  split
  · exact h
  split
  · exact h
  rename_i hthrottled _
  have hbalanced := h.balance_runtime borrow g
  have hthrottled₁ : ((sched_rt.balance_runtime borrow s g).rt g).rt_throttled = false := by
    rw [sched_rt.balance_runtime]
    split
    · rw [set_rt_self]
      simpa using hthrottled
    · simpa using hthrottled
  set s₁ := sched_rt.balance_runtime borrow s g
  split
  · exact hbalanced
  split
  · split
    · rename_i hnow
      exact (hbalanced.set_throttled g true).sched_rt_rq_dequeue hnow
    · rename_i hnow
      refine (hbalanced.set_throttled g true).inv fun i parent heq => ?_
      subst heq
      rw [Coupled, (alike_throttled _ _).on_rt_rq, set_rt_self]
      rw [set_rt_self] at hnow
      have hbefore : rt_rq_throttled (s₁.rt (i :: parent)) = false := by
        rw [rt_rq_throttled, hthrottled₁, Bool.false_and]
      rw [Bool.not_eq_true] at hnow
      rw [hnow]
      have hcoupled := hbalanced.coupled i parent
      rw [Coupled, hbefore] at hcoupled
      exact hcoupled
  · exact hbalanced

theorem Inv.account (h : Inv s) (delta_exec : Nat) (g : task_group) : Inv (account borrow delta_exec s g) := by
  simp only [sched_rt.account]
  split
  · have hexceeded := (h.set_time g (u64 ((s.rt g).rt_time + delta_exec))
      (s.rt g).rt_runtime).sched_rt_runtime_exceeded borrow g
    split
    · exact (sameCore_resched_task _ _).inv hexceeded
    · exact hexceeded
  · exact h

theorem Inv.account_all (h : Inv s) (delta_exec : Nat) (groups : List task_group) :
    Inv (groups.foldl (sched_rt.account borrow delta_exec) s) := by
  induction groups generalizing s with
  | nil => exact h
  | cons g gs ih => exact ih (h.account borrow delta_exec g)

theorem Inv.update_curr_rt (h : Inv s) (delta_exec : Nat) : Inv (update_curr_rt borrow delta_exec s) := by
  rw [sched_rt.update_curr_rt]
  split
  · exact h
  split
  · exact h
  exact h.account_all borrow delta_exec _

theorem Inv.off_of_empty (h : Inv s) (hempty : (s.rt g).rt_nr_running = 0) : Off s g := by
  intro e he
  cases e with
  | task p => simp [group_rt_rq] at he
  | group i parent =>
    cases he
    rw [Bool.eq_false_iff]
    exact fun hon => ((h.coupled i parent).mp hon).1 hempty

theorem Inv.do_sched_rt_period_timer (h : Inv s) (overrun : Nat) (g : task_group) :
    Inv (do_sched_rt_period_timer borrow overrun s g).1 := by
  simp only [sched_rt.do_sched_rt_period_timer]
  split
  · exact h
  split
  · have hbalanced : Inv (if (s.rt g).rt_throttled then sched_rt.balance_runtime borrow s g else s) := by
      split
      · exact h.balance_runtime borrow g
      · exact h
    set s₁ := if (s.rt g).rt_throttled then sched_rt.balance_runtime borrow s g else s
    have htime := hbalanced.set_time g
      ((s₁.rt g).rt_time - min (s₁.rt g).rt_time (u64 (overrun * (s₁.rt g).rt_runtime))) (s₁.rt g).rt_runtime
    split
    · have hunthrottled := htime.set_throttled g false
      set s₂ := s₁.set g { s₁.rt g with
        rt_time := (s₁.rt g).rt_time - min (s₁.rt g).rt_time (u64 (overrun * (s₁.rt g).rt_runtime)) }
      set s₃ := s₂.set g { s₂.rt g with rt_throttled := false } with hs₃
      have hrt₃ : s₃.rt g = { s₂.rt g with rt_throttled := false } := set_rt_self _ _ _
      have hcore : SameCore s₃
          (if (s₃.rt g).rt_nr_running ≠ 0 ∧ s₃.curr = s₃.idle then { s₃ with skip_clock_update := -1 } else s₃) := by
        split <;> exact ⟨rfl, rfl, rfl, rfl⟩
      refine (hcore.invBut hunthrottled).sched_rt_rq_enqueue ?_ ?_
      · rw [hcore.rt, hrt₃, rt_rq_throttled, Bool.false_and]
      · intro hempty e he
        rw [hcore.rt, hrt₃] at hempty
        rw [hcore.on_rt_rq, hs₃, (alike_throttled _ _).on_rt_rq]
        exact htime.off_of_empty hempty e he
    · exact htime
  split
  · split
    · rename_i hthrottled
      exact InvBut.sched_rt_rq_enqueue ⟨h.tidy, fun i parent _ => h.coupled i parent⟩ (by simpa using hthrottled)
        h.off_of_empty
    · exact h
  · exact h

end Throttle

section Tasks

theorem Inv.requeue_rt_entity (h : Inv s) (e : sched_rt_entity) (head : Bool) : Inv (requeue_rt_entity s e head) := by
  simp only [sched_rt.requeue_rt_entity]
  split
  · rename_i hon
    have hlocal := h.tidy.all (rt_rq_of_se s e)
    obtain ⟨-, hprio, honly⟩ := hlocal.home_of_mem (on_rt_rq_iff.mp hon)
    have hperm := Table.entries_move head hlocal.sound.nodup hprio honly.mem
    refine h.set_same ⟨fun e' => hperm.mem_iff, rfl, rfl, rfl⟩ (hlocal.sound.move hprio honly) ?_ rfl
    intro i e' he'
    obtain he' | ⟨rfl, rfl⟩ := (Table.mem_queue_move head).mp he'
    · exact hlocal.home i e' (Table.mem_unlink.mp he').1
    · exact ⟨hprio, rfl, rfl⟩
  · exact h

theorem Inv.requeue_all (h : Inv s) (es : List sched_rt_entity) (head : Bool) :
    Inv (es.foldl (fun s e => sched_rt.requeue_rt_entity s e head) s) := by
  induction es generalizing s with
  | nil => exact h
  | cons e es ih => exact ih (h.requeue_rt_entity e head)

theorem Inv.enqueue_task_rt {p : Nat} (h : Inv s) (hprio : (s.tasks p).prio < MAX_RT_PRIO) (head : Bool) :
    Inv (enqueue_task_rt s p head) := by
  have hqueued := h.enqueue_rt_entity_task hprio head
  simp only [sched_rt.enqueue_task_rt]
  split
  · exact (sameCore_set_smp _ _ _).inv hqueued
  · exact hqueued

theorem Inv.dequeue_task_rt (h : Inv s) (borrow : task_group → Nat) (delta_exec p : Nat) :
    Inv (dequeue_task_rt borrow delta_exec s p) :=
  (sameCore_set_smp _ _ _).inv ((h.update_curr_rt borrow delta_exec).dequeue_rt_entity_task p)

/-- Describing tasks anew, where those that are queued keep their group and priorities. -/
theorem Inv.retask (h : Inv s) (hrt : s'.rt = s.rt) (hleaf : s'.leaf_rt_rq_list = s.leaf_rt_rq_list)
    (hwarnings : s'.warnings = s.warnings)
    (htasks : ∀ g p, .task p ∈ queued s g → (s'.tasks p).rt_rq = (s.tasks p).rt_rq ∧
      (s'.tasks p).prio = (s.tasks p).prio ∧ (s'.tasks p).normal_prio = (s.tasks p).normal_prio) : Inv s' := by
  have hsame : ∀ g, ∀ e ∈ queued s g, rt_rq_of_se s' e = rt_rq_of_se s e ∧ rt_se_prio s' e = rt_se_prio s e ∧
      rt_se_boosted s' e = rt_se_boosted s e := by
    intro g e he
    cases e with
    | group i parent => simp [rt_rq_of_se, rt_se_prio, rt_se_boosted, hrt]
    | task p =>
      obtain ⟨hof, hprio, hnormal⟩ := htasks g p he
      simp [rt_rq_of_se, rt_se_prio, rt_se_boosted, hof, hprio, hnormal]
  refine ⟨⟨fun g => ⟨?_, fun i e he => ?_, ?_⟩, hleaf ▸ h.tidy.leaf_nodup, hwarnings.trans h.tidy.warnings⟩,
    fun i parent => ?_⟩
  · rw [hrt]
    exact (h.tidy.all g).sound.congr fun e he => (hsame g e he).2.2
  · rw [hrt] at he
    have hhome := (h.tidy.all g).home i e he
    obtain ⟨hof, hprio, -⟩ := hsame g e (Table.mem_entries.mpr ⟨i, hhome.1, he⟩)
    rw [hof, hprio]
    exact hhome
  · rw [hleaf, hrt]
    exact (h.tidy.all g).leaf
  · refine (h.coupled i parent).congr (congrFun hrt _) ?_
    rw [on_rt_rq_iff, on_rt_rq_iff, queued, hrt]
    rfl

/-- Describing a task anew that is not queued. -/
theorem Inv.set_task {p : Nat} (h : Inv s) (hoff : on_rt_rq s (.task p) = false) (t : task_struct) :
    Inv { s with tasks := update s.tasks p t } := by
  refine h.retask rfl rfl rfl fun g q hq => ?_
  have hne : q ≠ p := by
    rintro rfl
    rw [(h.tidy.all g).on_of_mem hq] at hoff
    cases hoff
  simp [update_of_ne hne]

end Tasks

section Run

theorem Inv.step_ok (h : Inv s) {c : Call} (hc : c.Valid s) : Inv (step s c) := by
  cases c with
  | enqueue_task_rt p head => exact h.enqueue_task_rt hc head
  | dequeue_task_rt p borrow delta_exec => exact h.dequeue_task_rt borrow delta_exec p
  | requeue_task_rt p head => exact h.requeue_all _ head
  | update_curr_rt borrow delta_exec => exact h.update_curr_rt borrow delta_exec
  | sched_rt_runtime_exceeded g borrow => exact h.sched_rt_runtime_exceeded borrow g
  | do_sched_rt_period_timer g borrow overrun => exact h.do_sched_rt_period_timer borrow overrun g
  | set_curr p => exact SameCore.inv (s := s) ⟨rfl, rfl, rfl, rfl⟩ h
  | set_task p t => exact h.set_task hc t
  | set_bandwidth g b rt_runtime =>
    have hb : Inv { s with bandwidth := update s.bandwidth g b } :=
      SameCore.inv (s := s) ⟨rfl, rfl, rfl, rfl⟩ h
    exact hb.set_time g (s.rt g).rt_time rt_runtime

theorem Inv.run_ok (h : Inv s) {cs : List Call} (hcs : ValidRun s cs) : Inv (run s cs) := by
  induction cs generalizing s with
  | nil => exact h
  | cons c cs ih => exact ih (h.step_ok hcs.1) hcs.2

theorem Initial.inv (h : Initial s) : Inv s := by
  have hentries : ∀ g, (s.rt g).active.entries MAX_RT_PRIO = [] := by
    intro g
    rw [h.rt g]
    simp [Table.entries, init_rt_rq]
  refine ⟨⟨fun g => ⟨⟨?_, ?_, ?_, ?_, ?_⟩, ?_, ?_⟩, ?_, h.warnings⟩, fun i parent => ?_⟩
  · rw [h.rt g]
    intro i hi
    simp [init_rt_rq, hi.ne]
  · rw [hentries]
    exact List.nodup_nil
  · rw [hentries, h.rt g]
    rfl
  · rw [hentries, h.rt g]
    rfl
  · have hleast := Table.Least.of_entries_nil (hentries g)
    rw [h.rt g] at hleast ⊢
    exact hleast
  · rw [h.rt g]
    simp [init_rt_rq]
  · rw [h.leaf, h.rt g]
    simp [init_rt_rq]
  · rw [h.leaf]
    exact List.nodup_nil
  · rw [Coupled, on_rt_rq_iff, queued, hentries, h.rt (i :: parent)]
    simp [init_rt_rq]

/-- What the run queue of a group looks like between two calls. -/
structure Consistent (s : rq) (g : task_group) : Prop where
  bitmap : ∀ i < MAX_RT_PRIO, (s.rt g).active.bitmap i = true ↔ (s.rt g).active.queue i ≠ []
  once : (queued s g).Nodup
  running : (s.rt g).rt_nr_running = (queued s g).length
  boosted : (s.rt g).rt_nr_boosted = (queued s g).countP (rt_se_boosted s)
  highest : (s.rt g).active.Least MAX_RT_PRIO (s.rt g).highest_prio_curr
  leaf : g ∈ s.leaf_rt_rq_list ↔ 0 < (s.rt g).rt_nr_running
  entity : ∀ i parent, g = i :: parent →
    ((∃ j, .group i parent ∈ (s.rt parent).active.queue j) ↔
      0 < (s.rt g).rt_nr_running ∧ rt_rq_throttled (s.rt g) = false) ∧
    ∀ j, .group i parent ∈ (s.rt parent).active.queue j → j = (s.rt g).highest_prio_curr

theorem Inv.consistent (h : Inv s) (g : task_group) : Consistent s g := by
  obtain ⟨hsound, -, hleaf⟩ := h.tidy.all g
  have hpos : 0 < (s.rt g).rt_nr_running ↔ (s.rt g).rt_nr_running ≠ 0 := by
    have hrunning := hsound.running
    omega
  refine ⟨hsound.marked, hsound.nodup, hsound.running, hsound.boosted, hsound.least, ?_, ?_⟩
  · rw [hleaf, hpos]
  · rintro i parent rfl
    have hhome := (h.tidy.all parent).home
    have hcoupled : on_rt_rq s (.group i parent) = true ↔ _ := h.coupled i parent
    refine ⟨?_, fun j hj => (hhome j _ hj).2.2.symm⟩
    rw [hpos, ← hcoupled, on_rt_rq_iff, Table.mem_entries]
    exact ⟨fun ⟨j, hj⟩ => ⟨j, (hhome j _ hj).1, hj⟩, fun ⟨j, _, hj⟩ => ⟨j, hj⟩⟩

/-- After any calls, in any order, the run queues of all groups are consistent, and no
    `WARN_ON` has fired. Nothing is assumed of the groups, of when a task is enqueued or
    dequeued, of the times that are accounted, or of the runtime borrowed; only that an
    enqueued task has a real-time priority and that a queued one is not described anew. -/
theorem run_consistent {s : rq} (hinit : Initial s) {cs : List Call} (hcs : ValidRun s cs) :
    (∀ g, Consistent (run s cs) g) ∧ (run s cs).leaf_rt_rq_list.Nodup ∧ (run s cs).warnings = [] := by
  have hinv := hinit.inv.run_ok hcs
  exact ⟨hinv.consistent, hinv.tidy.leaf_nodup, hinv.tidy.warnings⟩

/-- A CPU with two tasks in the group `[0]`, the second of which is boosted. -/
def idleCpu : rq where
  cpu := 0
  online := true
  curr := 1
  idle := 0
  skip_clock_update := 0
  tasks := fun p =>
    { prio := if p = 2 then 5 else 10, normal_prio := 10, nr_cpus_allowed := 1, cpus_allowed := [0],
      rt_rq := [0], rt_class := true, on_cpu := false }
  need_resched := fun _ => false
  rt := fun _ => init_rt_rq 20
  smp := fun _ =>
    { highest_prio_next := MAX_RT_PRIO, rt_nr_migratory := 0, rt_nr_total := 0, overloaded := false,
      pushable_tasks := [] }
  leaf_rt_rq_list := []
  rd := { rto_mask := fun _ => false, rto_count := 0, cpupri := fun _ => MAX_RT_PRIO }
  bandwidth := fun _ => { rt_period := 100, rt_runtime := 20 }
  bandwidth_enabled := true
  warnings := []

/-- Both tasks are enqueued, the group is throttled while it is boosted, loses the boosted
    task, and is unthrottled by the timer. -/
def boostAndThrottle : List Call :=
  [.enqueue_task_rt 1 false, .enqueue_task_rt 2 false, .update_curr_rt (fun _ => 20) 30,
    .dequeue_task_rt 2 (fun _ => 20) 0, .do_sched_rt_period_timer [0] (fun _ => 20) 1]

theorem run_consistent_boostAndThrottle : Initial idleCpu ∧ ValidRun idleCpu boostAndThrottle ∧
    (∀ g, Consistent (run idleCpu boostAndThrottle) g) ∧
    (run idleCpu boostAndThrottle).leaf_rt_rq_list.Nodup ∧ (run idleCpu boostAndThrottle).warnings = [] := by
  have hinit : Initial idleCpu := ⟨fun _ => rfl, rfl, rfl⟩
  have hcs : ValidRun idleCpu boostAndThrottle := by decide +kernel
  exact ⟨hinit, hcs, run_consistent hinit hcs⟩

end Run

end cs444.sched_rt
