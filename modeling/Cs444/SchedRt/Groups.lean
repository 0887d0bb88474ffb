import Cs444.SchedRt.Entity

open Function priotable

namespace cs444.sched_rt

section Sound

/-- A run queue is consistent in itself: the bitmap marks the queues in use, no entity stands
    twice, and the counters and the highest priority agree with what is queued. -/
structure rt_rq.Sound (r : rt_rq) (isBoosted : sched_rt_entity → Bool) : Prop where
  marked : r.active.Marked MAX_RT_PRIO
  nodup : (r.active.entries MAX_RT_PRIO).Nodup
  running : r.rt_nr_running = (r.active.entries MAX_RT_PRIO).length
  boosted : r.rt_nr_boosted = (r.active.entries MAX_RT_PRIO).countP isBoosted
  least : r.active.Least MAX_RT_PRIO r.highest_prio_curr

variable {r : rt_rq} {b b' : sched_rt_entity → Bool} {e : sched_rt_entity} {prio : Nat} {head : Bool}

theorem rt_rq.Sound.congr (h : r.Sound b) (hb : ∀ e ∈ r.active.entries MAX_RT_PRIO, b' e = b e) : r.Sound b' := by
  refine ⟨h.marked, h.nodup, h.running, ?_, h.least⟩
  rw [h.boosted]
  congr 1
  exact List.countP_congr fun e he => by rw [hb e he]

theorem rt_rq.Sound.running_ne_zero (h : r.Sound b) :
    r.rt_nr_running ≠ 0 ↔ r.active.entries MAX_RT_PRIO ≠ [] := by
  rw [h.running, Ne, Int.natCast_eq_zero, List.length_eq_zero_iff]

/-- Nothing warns when a queued entity is taken out. -/
theorem rt_rq.Sound.counts (h : r.Sound b) (hprio : prio < MAX_RT_PRIO) (he : e ∈ r.active.queue prio) :
    r.Counts prio (b e) := by
  have hmem : e ∈ r.active.entries MAX_RT_PRIO := Table.mem_entries.mpr ⟨prio, hprio, he⟩
  refine ⟨h.running_ne_zero.mpr (List.ne_nil_of_mem hmem), h.least.le_of_mem he, fun hone => ?_⟩
  have hlength : (r.active.entries MAX_RT_PRIO).length = 1 := by
    have hrunning := h.running
    omega
  obtain ⟨x, hx⟩ := List.length_eq_one_iff.mp hlength
  rw [hx, List.mem_singleton] at hmem
  rw [h.boosted, hx, ← hmem]
  cases hb : b e <;> simp [hb]

theorem rt_rq.Sound.counted (h : r.Sound b) (he : e ∉ r.active.entries MAX_RT_PRIO) (hprio : prio < MAX_RT_PRIO) :
    ({ r with active := r.active.put head prio e }.counted prio (b e)).Sound b := by
  have hperm := Table.entries_put (t := r.active) (x := e) head hprio
  refine ⟨h.marked.put head, ?_, ?_, ?_, h.least.put head hprio⟩
  · exact hperm.symm.nodup (List.nodup_cons.mpr ⟨he, h.nodup⟩)
  · simp only [rt_rq.counted, h.running, hperm.length_eq, List.length_cons]
    omega
  · simp only [rt_rq.counted, h.boosted, hperm.countP_eq, List.countP_cons]
    cases b e <;> simp

theorem rt_rq.Sound.discounted (h : r.Sound b) (hprio : prio < MAX_RT_PRIO) (he : r.active.Only prio e) :
    ({ r with active := r.active.take prio e }.discounted prio (b e)).Sound b := by
  have hmem : e ∈ r.active.entries MAX_RT_PRIO := Table.mem_entries.mpr ⟨prio, hprio, he.mem⟩
  have hperm := Table.entries_take_perm (i := prio) h.nodup hmem
  have hrunning : r.rt_nr_running - 1 = ((r.active.take prio e).entries MAX_RT_PRIO).length := by
    rw [h.running, hperm.length_eq, List.length_cons]
    omega
  have hmarked := h.marked.take he
  refine ⟨hmarked, (List.nodup_cons.mp (hperm.nodup h.nodup)).2, hrunning, ?_, ?_⟩
  · simp only [rt_rq.discounted, h.boosted, hperm.countP_eq, List.countP_cons]
    cases b e <;> simp
  · simp only [rt_rq.discounted, rt_rq.highest_without]
    split
    · split
      · exact hmarked.least
      · rename_i hne
        exact h.least.take he hne
    · rename_i hzero
      apply Table.Least.of_entries_nil
      rw [← List.length_eq_zero_iff]
      omega

theorem rt_rq.Sound.move (h : r.Sound b) (hprio : prio < MAX_RT_PRIO) (he : r.active.Only prio e) :
    { r with active := r.active.move head prio e }.Sound b := by
  have hperm := Table.entries_move head h.nodup hprio he.mem
  refine ⟨h.marked.move he head, hperm.symm.nodup h.nodup, ?_, ?_, h.least.move he head⟩
  · simp only [h.running, hperm.length_eq]
  · simp only [h.boosted, hperm.countP_eq]

end Sound

section Local

variable {s s' : rq} {e e' : sched_rt_entity} {g g' : task_group} {head : Bool}

/-- The entities queued in the run queue of a group. -/
abbrev queued (s : rq) (g : task_group) : List sched_rt_entity :=
  (s.rt g).active.entries MAX_RT_PRIO

/-- The run queue of a group is consistent with its entities and the list of leaves. Every
    entity is on the queue of its priority. -/
structure Local (s : rq) (g : task_group) : Prop where
  sound : (s.rt g).Sound (rt_se_boosted s)
  home : ∀ i, ∀ e ∈ (s.rt g).active.queue i, i < MAX_RT_PRIO ∧ rt_rq_of_se s e = g ∧ rt_se_prio s e = i
  leaf : g ∈ s.leaf_rt_rq_list ↔ (s.rt g).rt_nr_running ≠ 0

/-- All run queues are consistent, and nothing has warned. -/
structure Tidy (s : rq) : Prop where
  all : ∀ g, Local s g
  leaf_nodup : s.leaf_rt_rq_list.Nodup
  warnings : s.warnings = []

/-- The entity of the group, if it has one, is not queued. -/
def Off (s : rq) (g : task_group) : Prop :=
  ∀ e, group_rt_rq e = some g → on_rt_rq s e = false

theorem on_rt_rq_iff : on_rt_rq s e = true ↔ e ∈ queued s (rt_rq_of_se s e) := by
  simp [on_rt_rq]

theorem on_rt_rq_eq_false : on_rt_rq s e = false ↔ e ∉ queued s (rt_rq_of_se s e) := by
  simp [on_rt_rq]

theorem Local.home_of_mem (h : Local s g) (he : e ∈ queued s g) :
    rt_rq_of_se s e = g ∧ rt_se_prio s e < MAX_RT_PRIO ∧ (s.rt g).active.Only (rt_se_prio s e) e := by
  obtain ⟨i, -, hi⟩ := Table.mem_entries.mp he
  obtain ⟨hlt, hg, rfl⟩ := h.home i e hi
  exact ⟨hg, hlt, hi, fun j hj => (h.home j e hj).2.2.symm⟩

theorem Local.on_of_mem (h : Local s g) (he : e ∈ queued s g) : on_rt_rq s e = true := by
  rw [on_rt_rq_iff, (h.home_of_mem he).1]
  exact he

/-- What an entity is depends on the run queue of the group it stands for only. -/
theorem same_entity (htasks : s'.tasks = s.tasks) (hrt : ∀ x, x ≠ g → s'.rt x = s.rt x)
    (h : group_rt_rq e ≠ some g) : rt_se_prio s' e = rt_se_prio s e ∧ rt_se_boosted s' e = rt_se_boosted s e := by
  cases e with
  | task p => simp [rt_se_prio, rt_se_boosted, htasks]
  | group i parent =>
    have hne : i :: parent ≠ g := fun heq => h (congrArg some heq)
    simp [rt_se_prio, rt_se_boosted, hrt _ hne]

theorem same_rt_rq_of_se (htasks : s'.tasks = s.tasks) (e : sched_rt_entity) :
    rt_rq_of_se s' e = rt_rq_of_se s e := by
  cases e <;> simp [rt_rq_of_se, htasks]

/-- Changing the run queue of a group keeps another one consistent if the entity of the
    group is not queued, or looks the same as before. -/
theorem Local.other (h : Local s g') (hne : g' ≠ g) (htasks : s'.tasks = s.tasks)
    (hrt : ∀ x, x ≠ g → s'.rt x = s.rt x)
    (hentity : ∀ e, group_rt_rq e = some g → on_rt_rq s e = true →
      rt_se_prio s' e = rt_se_prio s e ∧ rt_se_boosted s' e = rt_se_boosted s e)
    (hleaf : g' ∈ s'.leaf_rt_rq_list ↔ g' ∈ s.leaf_rt_rq_list) : Local s' g' := by
  have hsame : ∀ e ∈ queued s g', rt_se_prio s' e = rt_se_prio s e ∧ rt_se_boosted s' e = rt_se_boosted s e := by
    intro e he
    by_cases heq : group_rt_rq e = some g
    · exact hentity e heq (h.on_of_mem he)
    · exact same_entity htasks hrt heq
  have hrt' := hrt g' hne
  refine ⟨?_, ?_, ?_⟩
  · rw [hrt']
    exact h.sound.congr fun e he => (hsame e he).2
  · rw [hrt']
    intro i e he
    obtain ⟨hi, hg, hprio⟩ := h.home i e he
    refine ⟨hi, (same_rt_rq_of_se htasks e).trans hg, ?_⟩
    rw [(hsame e (Table.mem_entries.mpr ⟨i, hi, he⟩)).1, hprio]
  · rw [hleaf, hrt']
    exact h.leaf

/-- The same for the group itself: a consistent new run queue for the entities that are
    queued in it. -/
theorem Local.self (htasks : s'.tasks = s.tasks) (hrt : ∀ x, x ≠ g → s'.rt x = s.rt x)
    (hsound : (s'.rt g).Sound (rt_se_boosted s))
    (hhome : ∀ i, ∀ e ∈ (s'.rt g).active.queue i, i < MAX_RT_PRIO ∧ rt_rq_of_se s e = g ∧ rt_se_prio s e = i)
    (hleaf : g ∈ s'.leaf_rt_rq_list ↔ (s'.rt g).rt_nr_running ≠ 0) : Local s' g := by
  have hsame : ∀ e, rt_rq_of_se s e = g →
      rt_se_prio s' e = rt_se_prio s e ∧ rt_se_boosted s' e = rt_se_boosted s e := by
    intro e he
    refine same_entity htasks hrt ?_
    rw [← he]
    exact group_rt_rq_ne s e
  refine ⟨hsound.congr fun e he => ?_, fun i e he => ?_, hleaf⟩
  · obtain ⟨i, -, hi⟩ := Table.mem_entries.mp he
    exact (hsame e (hhome i e hi).2.1).2
  · obtain ⟨hi, hg, hprio⟩ := hhome i e he
    exact ⟨hi, (same_rt_rq_of_se htasks e).trans hg, by rw [(hsame e hg).1, hprio]⟩

end Local

section Entity

variable {s s' : rq} {e e' : sched_rt_entity} {g g' : task_group} {head : Bool}

theorem SameCore.tidy (h : SameCore s s') (hs : Tidy s) : Tidy s' := by
  refine ⟨fun g => ?_, by rw [h.leaf]; exact hs.leaf_nodup, h.warnings.trans hs.warnings⟩
  obtain ⟨hsound, hhome, hleaf⟩ := hs.all g
  refine ⟨?_, ?_, ?_⟩
  · rw [h.rt]
    exact hsound.congr fun e _ => h.rt_se_boosted e
  · rw [h.rt]
    intro i e he
    rw [h.rt_rq_of_se, h.rt_se_prio]
    exact hhome i e he
  · rw [h.leaf, h.rt]
    exact hleaf

theorem enqueued_rt_of_ne (hne : g ≠ rt_rq_of_se s e) : (enqueued s e head).rt g = s.rt g :=
  update_of_ne hne _ _

theorem enqueued_rt_self : (enqueued s e head).rt (rt_rq_of_se s e) =
    { s.rt (rt_rq_of_se s e) with
      active := (s.rt (rt_rq_of_se s e)).active.put head (rt_se_prio s e) e }.counted
        (rt_se_prio s e) (rt_se_boosted s e) :=
  update_self _ _ _

theorem Tidy.enqueued (h : Tidy s) (hnew : on_rt_rq s e = false) (hprio : rt_se_prio s e < MAX_RT_PRIO)
    (hoff : Off s (rt_rq_of_se s e)) (head : Bool) : Tidy (enqueued s e head) := by
  set g := rt_rq_of_se s e with hg
  have hlocal := h.all g
  refine ⟨fun g' => ?_, ?_, h.warnings⟩
  · obtain rfl | hne := eq_or_ne g' g
    · refine Local.self (s := s) rfl (fun x hx => enqueued_rt_of_ne hx) ?_ ?_ ?_
      · rw [enqueued_rt_self]
        exact hlocal.sound.counted (on_rt_rq_eq_false.mp hnew) hprio
      · rw [enqueued_rt_self]
        intro i e' he'
        obtain he' | ⟨rfl, rfl⟩ := (Table.mem_queue_put head).mp he'
        · exact hlocal.home i e' he'
        · exact ⟨hprio, rfl, rfl⟩
      · have hrunning := hlocal.sound.running
        rw [enqueued_rt_self]
        simp only [sched_rt.enqueued, rt_rq.counted]
        refine iff_of_true ?_ (by rw [← hg]; omega)
        split
        · exact List.mem_cons_self
        · rename_i hne
          exact hlocal.leaf.mpr hne
    · refine (h.all g').other hne rfl (fun x hx => enqueued_rt_of_ne hx) ?_ ?_
      · intro e' he' hon
        rw [hoff e' he'] at hon
        cases hon
      · simp only [sched_rt.enqueued]
        split
        · simp [hne, g]
        · rfl
  · simp only [sched_rt.enqueued]
    split
    · rename_i hzero
      refine List.nodup_cons.mpr ⟨fun hmem => hlocal.leaf.mp hmem hzero, h.leaf_nodup⟩
    · exact h.leaf_nodup

theorem dequeued_rt_of_ne (hne : g ≠ rt_rq_of_se s e) : (dequeued s e).rt g = s.rt g :=
  update_of_ne hne _ _

theorem dequeued_rt_self : (dequeued s e).rt (rt_rq_of_se s e) =
    { s.rt (rt_rq_of_se s e) with
      active := (s.rt (rt_rq_of_se s e)).active.take (rt_se_prio s e) e }.discounted
        (rt_se_prio s e) (rt_se_boosted s e) :=
  update_self _ _ _

theorem Tidy.dequeued (h : Tidy s) (hon : on_rt_rq s e = true) (hoff : Off s (rt_rq_of_se s e)) :
    Tidy (dequeued s e) := by
  set g := rt_rq_of_se s e with hg
  have hlocal := h.all g
  obtain ⟨-, hprio, honly⟩ := hlocal.home_of_mem (on_rt_rq_iff.mp hon)
  refine ⟨fun g' => ?_, ?_, h.warnings⟩
  · obtain rfl | hne := eq_or_ne g' g
    · refine Local.self (s := s) rfl (fun x hx => dequeued_rt_of_ne hx) ?_ ?_ ?_
      · rw [dequeued_rt_self]
        exact hlocal.sound.discounted hprio honly
      · rw [dequeued_rt_self]
        intro i e' he'
        exact hlocal.home i e' (Table.mem_unlink.mp he').1
      · rw [dequeued_rt_self]
        simp only [sched_rt.dequeued, rt_rq.discounted]
        have hcounts := hlocal.sound.counts hprio honly.mem
        split
        · rename_i hone
          refine iff_of_false (by simp [g]) (by omega)
        · rename_i hne
          exact iff_of_true (hlocal.leaf.mpr hcounts.running) (by omega)
    · refine (h.all g').other hne rfl (fun x hx => dequeued_rt_of_ne hx) ?_ ?_
      · intro e' he' hon'
        rw [hoff e' he'] at hon'
        cases hon'
      · simp only [sched_rt.dequeued]
        split
        · simp [hne, g]
        · rfl
  · simp only [sched_rt.dequeued]
    split
    · exact h.leaf_nodup.filter _
    · exact h.leaf_nodup

end Entity

end cs444.sched_rt
