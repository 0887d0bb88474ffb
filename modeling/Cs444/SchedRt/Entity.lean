import Cs444.SchedRt.Model

open Function priotable

namespace cs444.sched_rt

variable {s s' s'' : rq} {e : sched_rt_entity} {g : task_group}

section SameCore

/-- The parts the queues of the groups are about are the same. -/
structure SameCore (s s' : rq) : Prop where
  tasks : s'.tasks = s.tasks
  rt : s'.rt = s.rt
  leaf : s'.leaf_rt_rq_list = s.leaf_rt_rq_list
  warnings : s'.warnings = s.warnings

theorem SameCore.refl (s : rq) : SameCore s s :=
  ⟨rfl, rfl, rfl, rfl⟩

theorem SameCore.trans (h : SameCore s s') (h' : SameCore s' s'') : SameCore s s'' :=
  ⟨h'.tasks.trans h.tasks, h'.rt.trans h.rt, h'.leaf.trans h.leaf, h'.warnings.trans h.warnings⟩

theorem sameCore_set_smp (s : rq) (g : task_group) (smp : rt_rq_smp) : SameCore s (s.set_smp g smp) :=
  ⟨rfl, rfl, rfl, rfl⟩

theorem sameCore_update_rt_migration (s : rq) : SameCore s (update_rt_migration s) := by
  have hset : SameCore s (rt_set_overload s) := by
    rw [rt_set_overload]
    split <;> exact ⟨rfl, rfl, rfl, rfl⟩
  have hclear : SameCore s (rt_clear_overload s) := by
    rw [rt_clear_overload]
    split <;> exact ⟨rfl, rfl, rfl, rfl⟩
  simp only [update_rt_migration]
  split
  · split
    · exact hset.trans (sameCore_set_smp _ _ _)
    · exact .refl s
  · split
    · exact hclear.trans (sameCore_set_smp _ _ _)
    · exact .refl s

theorem sameCore_add_rt_migration (s : rq) (e : sched_rt_entity) (n : Int) :
    SameCore s (add_rt_migration s e n) := by
  cases e with
  | group i parent => exact .refl s
  | task p => exact (sameCore_set_smp _ _ _).trans (sameCore_update_rt_migration _)

theorem sameCore_inc_rt_prio_smp (s : rq) (g : task_group) (prio prev_prio : Nat) :
    SameCore s (inc_rt_prio_smp s g prio prev_prio) := by
  simp only [inc_rt_prio_smp]
  split
  · split <;> exact ⟨rfl, rfl, rfl, rfl⟩
  · split
    · exact sameCore_set_smp _ _ _
    · split
      · exact sameCore_set_smp _ _ _
      · exact .refl s

theorem sameCore_dec_rt_prio_smp (s : rq) (g : task_group) (prio prev_prio : Nat) :
    SameCore s (dec_rt_prio_smp s g prio prev_prio) := by
  simp only [dec_rt_prio_smp]
  split <;> split <;> exact ⟨rfl, rfl, rfl, rfl⟩

end SameCore

section Set

@[simp] theorem set_rt_self (s : rq) (g : task_group) (r : rt_rq) : (s.set g r).rt g = r :=
  update_self _ _ _

theorem set_rt_of_ne {g' : task_group} (r : rt_rq) (h : g' ≠ g) : (s.set g r).rt g' = s.rt g' :=
  update_of_ne h _ _

@[simp] theorem set_set (s : rq) (g : task_group) (r r' : rt_rq) : (s.set g r).set g r' = s.set g r' := by
  simp [rq.set]

theorem SameCore.set (h : SameCore s s') (g : task_group) (r : rt_rq) : SameCore (s.set g r) (s'.set g r) :=
  ⟨h.tasks, by rw [rq.set, rq.set, h.rt], h.leaf, h.warnings⟩

theorem rt_se_boosted_set (r : rt_rq) (h : group_rt_rq e ≠ some g) :
    rt_se_boosted (s.set g r) e = rt_se_boosted s e := by
  cases e with
  | task p => rfl
  | group i parent =>
    have hne : i :: parent ≠ g := fun heq => h (congrArg some heq)
    simp [rt_se_boosted, rq.set, update_of_ne hne]

theorem rt_se_prio_set (r : rt_rq) (h : group_rt_rq e ≠ some g) : rt_se_prio (s.set g r) e = rt_se_prio s e := by
  cases e with
  | task p => rfl
  | group i parent =>
    have hne : i :: parent ≠ g := fun heq => h (congrArg some heq)
    simp [rt_se_prio, rq.set, update_of_ne hne]

theorem SameCore.rt_se_boosted (h : SameCore s s') (e : sched_rt_entity) :
    rt_se_boosted s' e = rt_se_boosted s e := by
  cases e <;> simp [sched_rt.rt_se_boosted, h.tasks, h.rt]

theorem SameCore.rt_se_prio (h : SameCore s s') (e : sched_rt_entity) : rt_se_prio s' e = rt_se_prio s e := by
  cases e <;> simp [sched_rt.rt_se_prio, h.tasks, h.rt]

theorem SameCore.rt_rq_of_se (h : SameCore s s') (e : sched_rt_entity) : rt_rq_of_se s' e = rt_rq_of_se s e := by
  cases e <;> simp [sched_rt.rt_rq_of_se, h.tasks]

theorem SameCore.on_rt_rq (h : SameCore s s') (e : sched_rt_entity) : on_rt_rq s' e = on_rt_rq s e := by
  rw [sched_rt.on_rt_rq, sched_rt.on_rt_rq, h.rt_rq_of_se, h.rt]

/-- An entity stands for another group than the one it is queued in. -/
theorem group_rt_rq_ne (s : rq) (e : sched_rt_entity) : group_rt_rq e ≠ some (rt_rq_of_se s e) := by
  cases e with
  | task p => simp [group_rt_rq]
  | group i parent => simp [group_rt_rq, rt_rq_of_se]

end Set

section Counters

theorem WARN_ON_false {c : Bool} (h : c = false) (w : Warning) : WARN_ON s c w = s := by
  simp [WARN_ON, h]

theorem SameCore.warn_on (h : SameCore s s') (c : Bool) (w : Warning) :
    SameCore (WARN_ON s c w) (WARN_ON s' c w) := by
  rw [WARN_ON, WARN_ON]
  split
  · exact ⟨h.tasks, h.rt, h.leaf, congrArg (· ++ [w]) h.warnings⟩
  · exact h

theorem sameCore_inc_rt_prio (s : rq) (g : task_group) (prio : Nat) :
    SameCore (s.set g { s.rt g with highest_prio_curr := min prio (s.rt g).highest_prio_curr })
      (inc_rt_prio s g prio) := by
  simp only [inc_rt_prio]
  refine .trans ?_ (sameCore_inc_rt_prio_smp _ _ _ _)
  split
  · rename_i hlt
    rw [min_eq_left hlt.le]
    exact .refl _
  · rename_i hge
    rw [min_eq_right (Nat.not_lt.mp hge)]
    exact ⟨rfl, (update_eq_self g s.rt).symm, rfl, rfl⟩

theorem sameCore_inc_rt_group (s : rq) (e : sched_rt_entity) (g : task_group) :
    SameCore
      (s.set g { s.rt g with
        rt_nr_boosted := (s.rt g).rt_nr_boosted + if rt_se_boosted s e then 1 else 0 })
      (inc_rt_group s e g) := by
  rw [inc_rt_group]
  split
  · exact .refl _
  · simp only [Int.add_zero]
    exact ⟨rfl, (update_eq_self g s.rt).symm, rfl, rfl⟩

theorem SameCore.inc_rt_group (h : SameCore s s') (e : sched_rt_entity) (g : task_group) :
    SameCore (inc_rt_group s e g) (inc_rt_group s' e g) := by
  rw [sched_rt.inc_rt_group, sched_rt.inc_rt_group, h.rt_se_boosted, h.rt]
  split
  · exact h.set g _
  · exact h

/-- The run queue of a group with an entity of the given priority more in the counters. -/
def rt_rq.counted (r : rt_rq) (prio : Nat) (boosted : Bool) : rt_rq :=
  { r with
    rt_nr_running := r.rt_nr_running + 1
    highest_prio_curr := min prio r.highest_prio_curr
    rt_nr_boosted := r.rt_nr_boosted + if boosted then 1 else 0 }

theorem sameCore_inc_rt_tasks (hprio : rt_se_prio s e < MAX_RT_PRIO) (hg : group_rt_rq e ≠ some g) :
    SameCore (s.set g ((s.rt g).counted (rt_se_prio s e) (rt_se_boosted s e))) (inc_rt_tasks s e g) := by
  simp only [inc_rt_tasks]
  rw [WARN_ON_false (by simpa [rt_prio] using hprio)]
  have hprio := sameCore_inc_rt_prio (s.set g { s.rt g with rt_nr_running := (s.rt g).rt_nr_running + 1 })
    g (rt_se_prio s e)
  have hmigration := hprio.trans (sameCore_add_rt_migration _ e 1)
  refine .trans ?_ (hmigration.inc_rt_group e g)
  refine .trans ?_ (sameCore_inc_rt_group _ e g)
  rw [rt_se_boosted_set _ hg, rt_se_boosted_set _ hg]
  simp only [set_set, set_rt_self]
  exact .refl _

/-- What `dec_rt_prio` makes of the highest priority when an entity has left. -/
def rt_rq.highest_without (r : rt_rq) (prio : Nat) : Nat :=
  if r.rt_nr_running ≠ 0 then
    if prio = r.highest_prio_curr then sched_find_first_bit r.active else r.highest_prio_curr
  else MAX_RT_PRIO

theorem sameCore_dec_rt_prio {prio : Nat} (horder : (s.rt g).rt_nr_running ≠ 0 → (s.rt g).highest_prio_curr ≤ prio) :
    SameCore (s.set g { s.rt g with highest_prio_curr := (s.rt g).highest_without prio })
      (dec_rt_prio s g prio) := by
  simp only [dec_rt_prio]
  refine .trans ?_ (sameCore_dec_rt_prio_smp _ _ _ _)
  rw [rt_rq.highest_without]
  split
  · rename_i hrunning
    rw [WARN_ON_false (by simpa using horder hrunning)]
    split
    · exact .refl _
    · exact ⟨rfl, (update_eq_self g s.rt).symm, rfl, rfl⟩
  · exact .refl _

theorem sameCore_dec_rt_group
    (hboosted : (s.rt g).rt_nr_running = 0 →
      (s.rt g).rt_nr_boosted - (if rt_se_boosted s e then 1 else 0) = 0) :
    SameCore
      (s.set g { s.rt g with
        rt_nr_boosted := (s.rt g).rt_nr_boosted - if rt_se_boosted s e then 1 else 0 })
      (dec_rt_group s e g) := by
  simp only [dec_rt_group]
  split
  · rename_i hb
    rw [WARN_ON_false]
    · exact .refl _
    · simp only [hb, if_true] at hboosted
      simpa using hboosted
  · rename_i hb
    rw [if_neg hb, Int.sub_zero] at hboosted
    rw [WARN_ON_false (by simpa using hboosted), Int.sub_zero]
    exact ⟨rfl, (update_eq_self g s.rt).symm, rfl, rfl⟩

theorem SameCore.dec_rt_group (h : SameCore s s') (e : sched_rt_entity) (g : task_group) :
    SameCore (dec_rt_group s e g) (dec_rt_group s' e g) := by
  simp only [sched_rt.dec_rt_group]
  have hset : SameCore
      (if sched_rt.rt_se_boosted s e then s.set g { s.rt g with rt_nr_boosted := (s.rt g).rt_nr_boosted - 1 } else s)
      (if sched_rt.rt_se_boosted s' e then
          s'.set g { s'.rt g with rt_nr_boosted := (s'.rt g).rt_nr_boosted - 1 }
        else s') := by
    rw [h.rt_se_boosted, h.rt]
    split
    · exact h.set g _
    · exact h
  rw [hset.rt]
  exact hset.warn_on _ _

/-- The run queue of a group with an entity of the given priority less in the counters. -/
def rt_rq.discounted (r : rt_rq) (prio : Nat) (boosted : Bool) : rt_rq :=
  let r := { r with rt_nr_running := r.rt_nr_running - 1 }
  { r with
    highest_prio_curr := r.highest_without prio
    rt_nr_boosted := r.rt_nr_boosted - if boosted then 1 else 0 }

/-- An entity of the given priority can be taken out of the counters without a warning. -/
structure rt_rq.Counts (r : rt_rq) (prio : Nat) (boosted : Bool) : Prop where
  running : r.rt_nr_running ≠ 0
  order : r.highest_prio_curr ≤ prio
  boosted : r.rt_nr_running = 1 → r.rt_nr_boosted = if boosted then 1 else 0

theorem sameCore_dec_rt_tasks (hprio : rt_se_prio s e < MAX_RT_PRIO) (hg : group_rt_rq e ≠ some g)
    (hcounts : (s.rt g).Counts (rt_se_prio s e) (rt_se_boosted s e)) :
    SameCore (s.set g ((s.rt g).discounted (rt_se_prio s e) (rt_se_boosted s e))) (dec_rt_tasks s e g) := by
  have hwarn : WARN_ON s (!rt_prio (rt_se_prio s e)) .dec_rt_tasks_prio = s :=
    WARN_ON_false (by simpa [rt_prio] using hprio) _
  simp only [dec_rt_tasks, hwarn]
  rw [WARN_ON_false (by simpa using hcounts.running), rt_se_prio_set _ hg]
  set s₁ := s.set g { s.rt g with rt_nr_running := (s.rt g).rt_nr_running - 1 } with hs₁
  have hrt₁ : s₁.rt g = { s.rt g with rt_nr_running := (s.rt g).rt_nr_running - 1 } := set_rt_self _ _ _
  have hcurr : SameCore (s₁.set g { s₁.rt g with highest_prio_curr := (s₁.rt g).highest_without (rt_se_prio s e) })
      (dec_rt_prio s₁ g (rt_se_prio s e)) := by
    apply sameCore_dec_rt_prio
    intro _
    rw [hrt₁]
    exact hcounts.order
  have hmigration := hcurr.trans (sameCore_add_rt_migration _ e (-1))
  refine .trans ?_ (hmigration.dec_rt_group e g)
  have hb : rt_se_boosted
      (s₁.set g { s₁.rt g with highest_prio_curr := (s₁.rt g).highest_without (rt_se_prio s e) }) e =
        rt_se_boosted s e := by
    rw [rt_se_boosted_set _ hg, hs₁, rt_se_boosted_set _ hg]
  refine .trans ?_ (sameCore_dec_rt_group ?_)
  · rw [hb]
    simp only [set_rt_self, set_set, hrt₁]
    rw [hs₁, set_set]
    exact .refl _
  · rw [hb]
    simp only [set_rt_self, hrt₁]
    intro hzero
    rw [hcounts.boosted (by omega)]
    simp

end Counters

section Entity

/-- `__enqueue_rt_entity` where it does not return early and nothing warns. -/
def enqueued (s : rq) (e : sched_rt_entity) (head : Bool) : rq :=
  let g := rt_rq_of_se s e
  let r := { s.rt g with active := (s.rt g).active.put head (rt_se_prio s e) e }
  { s with
    rt := update s.rt g (r.counted (rt_se_prio s e) (rt_se_boosted s e))
    leaf_rt_rq_list := if (s.rt g).rt_nr_running = 0 then g :: s.leaf_rt_rq_list else s.leaf_rt_rq_list }

theorem sameCore_enqueue (hskipped : skipped s e = false) (hprio : rt_se_prio s e < MAX_RT_PRIO) (head : Bool) :
    SameCore (enqueued s e head) (__enqueue_rt_entity s e head) := by
  have hg := group_rt_rq_ne s e
  simp only [__enqueue_rt_entity, hskipped, Bool.false_eq_true, if_false]
  set g := rt_rq_of_se s e
  set s₁ := if (s.rt g).rt_nr_running = 0 then list_add_leaf_rt_rq s g else s with hs₁
  have htasks : s₁.tasks = s.tasks := by rw [hs₁]; split <;> rfl
  have hrt : s₁.rt = s.rt := by rw [hs₁]; split <;> rfl
  have hwarnings : s₁.warnings = s.warnings := by rw [hs₁]; split <;> rfl
  have hleaf : s₁.leaf_rt_rq_list =
      if (s.rt g).rt_nr_running = 0 then g :: s.leaf_rt_rq_list else s.leaf_rt_rq_list := by
    rw [hs₁]; split <;> rfl
  set s₂ := s₁.set g { s₁.rt g with active := (s₁.rt g).active.put head (rt_se_prio s e) e } with hs₂
  have hprio₂ : rt_se_prio s₂ e = rt_se_prio s e := by
    rw [hs₂, rt_se_prio_set _ hg]
    cases e <;> simp [rt_se_prio, htasks, hrt]
  have hboosted₂ : rt_se_boosted s₂ e = rt_se_boosted s e := by
    rw [hs₂, rt_se_boosted_set _ hg]
    cases e <;> simp [rt_se_boosted, htasks, hrt]
  have hcore := sameCore_inc_rt_tasks (hprio₂.trans_lt hprio) hg
  have hrt₂ : s₂.rt g = { s.rt g with active := (s.rt g).active.put head (rt_se_prio s e) e } := by
    rw [hs₂, set_rt_self, hrt]
  have hset : ∀ r, s₂.set g r = s₁.set g r := fun r => set_set _ _ _ _
  rw [hprio₂, hboosted₂, hset, hrt₂] at hcore
  refine .trans ?_ hcore
  exact ⟨htasks, by rw [enqueued, rq.set, hrt], hleaf, hwarnings⟩

/-- `__dequeue_rt_entity` where nothing warns. -/
def dequeued (s : rq) (e : sched_rt_entity) : rq :=
  let g := rt_rq_of_se s e
  let r := { s.rt g with active := (s.rt g).active.take (rt_se_prio s e) e }
  { s with
    rt := update s.rt g (r.discounted (rt_se_prio s e) (rt_se_boosted s e))
    leaf_rt_rq_list :=
      if (s.rt g).rt_nr_running = 1 then s.leaf_rt_rq_list.filter (· ≠ g) else s.leaf_rt_rq_list }

theorem sameCore_dequeue (hprio : rt_se_prio s e < MAX_RT_PRIO)
    (hcounts : (s.rt (rt_rq_of_se s e)).Counts (rt_se_prio s e) (rt_se_boosted s e)) :
    SameCore (dequeued s e) (__dequeue_rt_entity s e) := by
  have hg := group_rt_rq_ne s e
  simp only [__dequeue_rt_entity]
  set g := rt_rq_of_se s e
  set s₁ := s.set g { s.rt g with active := (s.rt g).active.take (rt_se_prio s e) e } with hs₁
  have hprio₁ : rt_se_prio s₁ e = rt_se_prio s e := rt_se_prio_set _ hg
  have hboosted₁ : rt_se_boosted s₁ e = rt_se_boosted s e := rt_se_boosted_set _ hg
  have hcounts₁ : (s₁.rt g).Counts (rt_se_prio s₁ e) (rt_se_boosted s₁ e) := by
    rw [hprio₁, hboosted₁, hs₁, set_rt_self]
    exact ⟨hcounts.running, hcounts.order, hcounts.boosted⟩
  have hcore := sameCore_dec_rt_tasks (hprio₁.trans_lt hprio) hg hcounts₁
  have hrt₁ : s₁.rt g = { s.rt g with active := (s.rt g).active.take (rt_se_prio s e) e } := set_rt_self _ _ _
  have hset : ∀ r, s₁.set g r = s.set g r := fun r => set_set _ _ _ _
  rw [hprio₁, hboosted₁, hset, hrt₁] at hcore
  have hrunning : (((dec_rt_tasks s₁ e g).rt g).rt_nr_running = 0) = ((s.rt g).rt_nr_running = 1) := by
    rw [hcore.rt, set_rt_self]
    simp only [rt_rq.discounted, eq_iff_iff]
    omega
  simp only [hrunning, dequeued]
  split
  · exact ⟨hcore.tasks, hcore.rt, congrArg (List.filter (· ≠ g)) hcore.leaf, hcore.warnings⟩
  · exact hcore

end Entity

end cs444.sched_rt
