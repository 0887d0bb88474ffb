import Cs444.SchedRt.Stack
import Mathlib.Data.List.Infix

open priotable

namespace cs444.sched_rt

variable {s s' a b : rq} {e : sched_rt_entity} {g : task_group} {head : Bool}

section Wrote

/-- The priority last recorded for the CPU. -/
def rq.recorded (s : rq) : Nat := s.rd.cpupri s.cpu

/-- Of the run queues only that of a group has changed, where one entity may have come or gone, and
    it is throttled as before. -/
structure Framed (s s' : rq) (g : task_group) (e : sched_rt_entity) : Prop where
  cpu : s'.cpu = s.cpu
  online : s'.online = s.online
  tasks : s'.tasks = s.tasks
  rt : ∀ x, x ≠ g → s'.rt x = s.rt x
  throttled : (s'.rt g).rt_throttled = (s.rt g).rt_throttled
  others : ∀ e', e' ≠ e → ∀ x, e' ∈ queued s' x ↔ e' ∈ queued s x

/-- Nor has its highest priority changed. -/
structure Still (s s' : rq) (g : task_group) (e : sched_rt_entity) : Prop extends Framed s s' g e where
  highest : (s'.rt g).highest_prio_curr = (s.rt g).highest_prio_curr
  recorded : s'.recorded = s.recorded

/-- What an entity that comes or goes does: the highest priority of its group is recorded if it has
    changed. -/
structure Wrote (s s' : rq) (g : task_group) (e : sched_rt_entity) : Prop extends Framed s s' g e where
  recorded : s'.recorded =
    if s.online ∧ (s'.rt g).highest_prio_curr ≠ (s.rt g).highest_prio_curr then (s'.rt g).highest_prio_curr
    else s.recorded

theorem Framed.trans (h : Framed s a g e) (h' : Framed a s' g e) : Framed s s' g e where
  cpu := h'.cpu.trans h.cpu
  online := h'.online.trans h.online
  tasks := h'.tasks.trans h.tasks
  rt x hx := (h'.rt x hx).trans (h.rt x hx)
  throttled := h'.throttled.trans h.throttled
  others e' he' x := (h'.others e' he' x).trans (h.others e' he' x)

theorem Still.refl (s : rq) (g : task_group) (e : sched_rt_entity) : Still s s g e :=
  ⟨⟨rfl, rfl, rfl, fun _ _ => rfl, rfl, fun _ _ _ => Iff.rfl⟩, rfl, rfl⟩

theorem Still.of_rt (hcpu : s'.cpu = s.cpu) (honline : s'.online = s.online) (htasks : s'.tasks = s.tasks)
    (hrt : s'.rt = s.rt) (hcpupri : s'.rd.cpupri = s.rd.cpupri) : Still s s' g e := by
  refine ⟨⟨hcpu, honline, htasks, fun x _ => congrFun hrt x, by rw [hrt], fun e' _ x => ?_⟩, by rw [hrt], ?_⟩
  · rw [queued, hrt]
  · rw [rq.recorded, rq.recorded, hcpu, hcpupri]

theorem Still.trans (h : Still s a g e) (h' : Still a s' g e) : Still s s' g e :=
  ⟨h.toFramed.trans h'.toFramed, h'.highest.trans h.highest, h'.recorded.trans h.recorded⟩

theorem Still.wrote (h : Still s s' g e) : Wrote s s' g e :=
  ⟨h.toFramed, by rw [if_neg (fun hand => hand.2 h.highest), h.recorded]⟩

theorem Wrote.after_still (h : Still s a g e) (h' : Wrote a s' g e) : Wrote s s' g e :=
  ⟨h.toFramed.trans h'.toFramed, by rw [h'.recorded, h.highest, h.online, h.recorded]⟩

theorem Wrote.still_trans (h : Wrote s a g e) (h' : Still a s' g e) : Wrote s s' g e :=
  ⟨h.toFramed.trans h'.toFramed, by rw [h'.recorded, h.recorded, h'.highest]⟩

/-- The record is made after the change. -/
theorem wrote_cpupri_set (h : Framed s a g e) (hrecorded : a.recorded = s.recorded) :
    Wrote s (if a.online ∧ (a.rt g).highest_prio_curr ≠ (s.rt g).highest_prio_curr
      then cpupri_set a (a.rt g).highest_prio_curr else a) g e := by
  split
  · rename_i hwrite
    refine ⟨⟨h.cpu, h.online, h.tasks, h.rt, h.throttled, h.others⟩, ?_⟩
    have hrt : (cpupri_set a (a.rt g).highest_prio_curr).rt = a.rt := rfl
    rw [hrt, ← h.online, if_pos hwrite]
    simp [rq.recorded, cpupri_set]
  · rename_i hwrite
    exact ⟨h, by rw [← h.online, if_neg hwrite, hrecorded]⟩

theorem framed_set {r : rt_rq} (hthrottled : r.rt_throttled = (s.rt g).rt_throttled)
    (hothers : ∀ e', e' ≠ e → (e' ∈ r.active.entries MAX_RT_PRIO ↔ e' ∈ queued s g)) : Framed s (s.set g r) g e := by
  refine ⟨rfl, rfl, rfl, fun _ hx => set_rt_of_ne r hx, by rw [set_rt_self, hthrottled], fun e' he' x => ?_⟩
  obtain rfl | hx := eq_or_ne x g
  · rw [queued, set_rt_self]
    exact hothers e' he'
  · rw [queued, set_rt_of_ne r hx]

theorem still_set {r : rt_rq} (hthrottled : r.rt_throttled = (s.rt g).rt_throttled)
    (hothers : ∀ e', e' ≠ e → (e' ∈ r.active.entries MAX_RT_PRIO ↔ e' ∈ queued s g))
    (hhighest : r.highest_prio_curr = (s.rt g).highest_prio_curr) : Still s (s.set g r) g e :=
  ⟨framed_set hthrottled hothers, by rw [set_rt_self, hhighest], rfl⟩

theorem still_ite {c : Prop} [Decidable c] (ha : Still s a g e) (hb : Still s b g e) :
    Still s (if c then a else b) g e := by
  split
  · exact ha
  · exact hb

theorem still_warn_on (s : rq) (c : Bool) (w : Warning) (g : task_group) (e : sched_rt_entity) :
    Still s (WARN_ON s c w) g e :=
  still_ite (.of_rt rfl rfl rfl rfl rfl) (.refl s g e)

theorem still_set_smp (s : rq) (x : task_group) (smp : rt_rq_smp) : Still s (s.set_smp x smp) g e :=
  .of_rt rfl rfl rfl rfl rfl

theorem still_update_rt_migration (s : rq) (g : task_group) (e : sched_rt_entity) :
    Still s (update_rt_migration s) g e := by
  have hset : Still s (rt_set_overload s) g e := still_ite (.refl s g e) (.of_rt rfl rfl rfl rfl rfl)
  have hclear : Still s (rt_clear_overload s) g e := still_ite (.refl s g e) (.of_rt rfl rfl rfl rfl rfl)
  exact still_ite (still_ite (hset.trans (still_set_smp _ _ _)) (.refl s g e))
    (still_ite (hclear.trans (still_set_smp _ _ _)) (.refl s g e))

theorem still_add_rt_migration (s : rq) (e : sched_rt_entity) (n : Int) (g : task_group) :
    Still s (add_rt_migration s e n) g e := by
  cases e with
  | group i parent => exact .refl s g _
  | task p => exact (still_set_smp _ _ _).trans (still_update_rt_migration _ g _)

theorem still_inc_rt_group (s : rq) (e : sched_rt_entity) (g : task_group) : Still s (inc_rt_group s e g) g e :=
  still_ite (still_set rfl (fun _ _ => Iff.rfl) rfl) (.refl s g e)

theorem still_dec_rt_group (s : rq) (e : sched_rt_entity) (g : task_group) : Still s (dec_rt_group s e g) g e := by
  refine .trans ?_ (still_warn_on _ _ _ g e)
  exact still_ite (still_set rfl (fun _ _ => Iff.rfl) rfl) (.refl s g e)

end Wrote

section Entities

theorem wrote_inc_rt_prio (s : rq) (g : task_group) (prio : Nat) (e : sched_rt_entity) :
    Wrote s (inc_rt_prio s g prio) g e := by
  simp only [inc_rt_prio, inc_rt_prio_smp]
  by_cases hlt : prio < (s.rt g).highest_prio_curr
  · simp only [if_pos hlt]
    set s₁ := s.set g { s.rt g with highest_prio_curr := prio } with hs₁
    set s₂ := s₁.set_smp g { s₁.smp g with highest_prio_next := (s.rt g).highest_prio_curr } with hs₂
    have hset : Framed s s₁ g e := framed_set rfl fun _ _ => Iff.rfl
    have hframed : Framed s s₂ g e := hset.trans (still_set_smp _ _ _).toFramed
    have hhighest : (s₂.rt g).highest_prio_curr = prio := by simp [hs₂, hs₁, rq.set_smp]
    have hwrote := wrote_cpupri_set hframed rfl
    simp only [hhighest, hlt.ne, ne_eq, not_false_eq_true, and_true] at hwrote
    exact hwrote
  · simp only [if_neg hlt]
    exact (still_ite (still_set_smp _ _ _) (still_ite (still_set_smp _ _ _) (.refl s g e))).wrote

theorem wrote_dec_rt_prio (s : rq) (g : task_group) (prio : Nat) (e : sched_rt_entity) :
    Wrote s (dec_rt_prio s g prio) g e := by
  simp only [dec_rt_prio, dec_rt_prio_smp]
  generalize hs₁ : (if (s.rt g).rt_nr_running ≠ 0 then _ else _ : rq) = s₁
  have hframed : Framed s s₁ g e ∧ s₁.recorded = s.recorded := by
    rw [← hs₁]
    have hwarn := still_warn_on s (prio < (s.rt g).highest_prio_curr) .dec_rt_prio_order g e
    split
    · split
      · exact ⟨hwarn.toFramed.trans (framed_set rfl fun _ _ => Iff.rfl), hwarn.recorded⟩
      · exact ⟨hwarn.toFramed, hwarn.recorded⟩
    · exact ⟨framed_set rfl fun _ _ => Iff.rfl, rfl⟩
  set s₂ := if (s₁.rt g).rt_nr_running ≠ 0 ∧ prio ≤ (s₁.smp g).highest_prio_next then
    s₁.set_smp g { s₁.smp g with highest_prio_next := next_prio s₁ } else s₁
  have hnext : Still s₁ s₂ g e := still_ite (still_set_smp _ _ _) (.refl s₁ g e)
  exact wrote_cpupri_set (hframed.1.trans hnext.toFramed) (hnext.recorded.trans hframed.2)

theorem wrote_inc_rt_tasks (s : rq) (e : sched_rt_entity) (g : task_group) : Wrote s (inc_rt_tasks s e g) g e := by
  refine .still_trans (.still_trans (.after_still ?_ (wrote_inc_rt_prio _ g _ e)) (still_add_rt_migration _ e 1 g))
    (still_inc_rt_group _ e g)
  exact (still_warn_on _ _ _ g e).trans (still_set rfl (fun _ _ => Iff.rfl) rfl)

theorem wrote_dec_rt_tasks (s : rq) (e : sched_rt_entity) (g : task_group) : Wrote s (dec_rt_tasks s e g) g e := by
  refine .still_trans (.still_trans (.after_still ?_ (wrote_dec_rt_prio _ g _ e)) (still_add_rt_migration _ e (-1) g))
    (still_dec_rt_group _ e g)
  exact ((still_warn_on _ _ _ g e).trans (still_warn_on _ _ _ g e)).trans (still_set rfl (fun _ _ => Iff.rfl) rfl)

theorem wrote_enqueue (s : rq) (e : sched_rt_entity) (head : Bool) :
    Wrote s (__enqueue_rt_entity s e head) (rt_rq_of_se s e) e := by
  simp only [__enqueue_rt_entity]
  set g := rt_rq_of_se s e
  split
  · exact (Still.refl s g e).wrote
  · have hleaf : Still s (if (s.rt g).rt_nr_running = 0 then list_add_leaf_rt_rq s g else s) g e :=
      still_ite (.of_rt rfl rfl rfl rfl rfl) (.refl s g e)
    set s₁ := if (s.rt g).rt_nr_running = 0 then list_add_leaf_rt_rq s g else s
    have hput : Still s₁ (s₁.set g { s₁.rt g with active := (s₁.rt g).active.put head (rt_se_prio s e) e }) g e := by
      refine still_set rfl (fun e' he' => ?_) rfl
      rw [Table.mem_entries, queued, Table.mem_entries]
      simp [Table.mem_queue_put, he']
    exact .after_still (hleaf.trans hput) (wrote_inc_rt_tasks _ e g)

theorem wrote_dequeue_if_on (s : rq) (e : sched_rt_entity) : Wrote s (dequeue_if_on s e) (rt_rq_of_se s e) e := by
  simp only [dequeue_if_on, __dequeue_rt_entity]
  set g := rt_rq_of_se s e
  split
  · have htake : Still s (s.set g { s.rt g with active := (s.rt g).active.take (rt_se_prio s e) e }) g e := by
      refine still_set rfl (fun e' he' => ?_) rfl
      rw [Table.entries_take]
      simp [he']
    refine .still_trans (.after_still htake (wrote_dec_rt_tasks _ e g)) ?_
    exact still_ite (.of_rt rfl rfl rfl rfl rfl) (.refl _ g e)
  · exact (Still.refl s g e).wrote

end Entities

section Walk

/-- What is recorded after a change of the highest priority of a group. -/
def change (s s' : rq) (r : Nat) (g : task_group) : Nat :=
  if (s'.rt g).highest_prio_curr ≠ (s.rt g).highest_prio_curr then (s'.rt g).highest_prio_curr else r

/-- Entities of different groups come or go one after another. -/
structure Walked (s s' : rq) (es : List sched_rt_entity) : Prop where
  online : s'.online = s.online
  tasks : s'.tasks = s.tasks
  rt : ∀ x, x ∉ es.map (rt_rq_of_se s) → s'.rt x = s.rt x
  throttled : ∀ x, (s'.rt x).rt_throttled = (s.rt x).rt_throttled
  others : ∀ e, e ∉ es → ∀ x, e ∈ queued s' x ↔ e ∈ queued s x
  recorded : s.online = true → s'.recorded = (es.map (rt_rq_of_se s)).foldl (change s s') s.recorded

variable {es : List sched_rt_entity}

/-- One more entity, of a group that has not changed so far. -/
theorem Walked.snoc (h : Walked s a es) (h' : Wrote a s' (rt_rq_of_se s e) e)
    (hnew : rt_rq_of_se s e ∉ es.map (rt_rq_of_se s)) : Walked s s' (es ++ [e]) := by
  set g := rt_rq_of_se s e with hg
  have hlevels : (es ++ [e]).map (rt_rq_of_se s) = es.map (rt_rq_of_se s) ++ [g] := by
    rw [List.map_append, List.map_singleton]
  refine ⟨h'.online.trans h.online, h'.tasks.trans h.tasks, fun x hx => ?_, fun x => ?_, fun e' he' x => ?_,
    fun honline => ?_⟩
  · rw [hlevels, List.mem_append, List.mem_singleton, not_or] at hx
    exact (h'.rt x hx.2).trans (h.rt x hx.1)
  · obtain rfl | hx := eq_or_ne x g
    · exact h'.throttled.trans (h.throttled g)
    · rw [h'.rt x hx]
      exact h.throttled x
  · rw [List.mem_append, List.mem_singleton, not_or] at he'
    exact (h'.others e' he'.2 x).trans (h.others e' he'.1 x)
  · -- The groups before have not changed since, and this one has not changed before.
    have hbefore : (es.map (rt_rq_of_se s)).foldl (change s s') s.recorded = a.recorded := by
      rw [h.recorded honline]
      refine List.foldl_ext _ _ _ fun r x hx => ?_
      have hne : x ≠ g := fun heq => hnew (heq ▸ hx)
      rw [change, change, h'.rt x hne]
    rw [hlevels, List.foldl_append, hbefore, List.foldl_cons, List.foldl_nil, change, h'.recorded, h.online, honline,
      h.rt g hnew]
    simp only [true_and]

theorem walked_foldl {f : rq → sched_rt_entity → rq} (hf : ∀ s e, Wrote s (f s e) (rt_rq_of_se s e) e)
    (hnodup : (es.map (rt_rq_of_se s)).Nodup) : Walked s (es.foldl f s) es := by
  induction es using List.reverseRecOn with
  | nil => exact ⟨rfl, rfl, fun _ _ => rfl, fun _ => rfl, fun _ _ _ => Iff.rfl, fun _ => rfl⟩
  | append_singleton es e ih =>
    rw [List.map_append, List.map_singleton, List.nodup_append] at hnodup
    have hes := ih hnodup.1
    have hnew : rt_rq_of_se s e ∉ es.map (rt_rq_of_se s) := fun hin => hnodup.2.2 _ hin _ List.mem_cons_self rfl
    rw [List.foldl_append, List.foldl_cons, List.foldl_nil]
    have hstep := hf (es.foldl f s) e
    rw [same_rt_rq_of_se hes.tasks e] at hstep
    exact hes.snoc hstep hnew

/-- The groups on the way from a task up to the root. -/
theorem map_ancestors (s : rq) (g : task_group) : g :: (ancestors g).map (rt_rq_of_se s) = g.tails := by
  induction g with
  | nil => rfl
  | cons i parent ih =>
    rw [List.tails_cons, ← ih]
    rfl

theorem map_for_each (s : rq) (p : Nat) :
    (for_each_sched_rt_entity s (.task p)).map (rt_rq_of_se s) = (s.tasks p).rt_rq.tails :=
  map_ancestors s _

theorem nodup_tails (g : task_group) : g.tails.Nodup := by
  induction g with
  | nil => simp
  | cons i parent ih =>
    rw [List.tails_cons, List.nodup_cons]
    refine ⟨fun hin => ?_, ih⟩
    have hlength := ((List.mem_tails _ _).mp hin).length_le
    rw [List.length_cons] at hlength
    omega

theorem mem_ancestors {i : Nat} {parent : task_group} : .group i parent ∈ ancestors g ↔ i :: parent ∈ g.tails := by
  induction g with
  | nil => simp [ancestors]
  | cons j x ih =>
    rw [ancestors, List.mem_cons, ih, List.tails_cons, List.mem_cons]
    simp

theorem walked_dequeue_rt_stack (s : rq) (p : Nat) :
    Walked s (dequeue_rt_stack s (.task p)) (for_each_sched_rt_entity s (.task p)).reverse := by
  refine walked_foldl wrote_dequeue_if_on ?_
  rw [List.map_reverse, map_for_each, List.nodup_reverse]
  exact nodup_tails _

theorem walked_enqueue_all (s : rq) (p : Nat) (head : Bool) :
    Walked s ((for_each_sched_rt_entity s (.task p)).foldl (fun s e => __enqueue_rt_entity s e head) s)
      (for_each_sched_rt_entity s (.task p)) := by
  refine walked_foldl (fun s e => wrote_enqueue s e head) ?_
  rw [map_for_each]
  exact nodup_tails _

theorem walked_enqueue_if_group (s : rq) (p : Nat) :
    Walked s ((for_each_sched_rt_entity s (.task p)).foldl enqueue_if_group s) (for_each_sched_rt_entity s (.task p)) := by
  refine walked_foldl (fun s e => ?_) ?_
  · cases e with
    | task q => exact (Still.refl s _ _).wrote
    | group i parent =>
      simp only [enqueue_if_group, group_rt_rq]
      split
      · exact wrote_enqueue s _ false
      · exact (Still.refl s _ _).wrote
  · rw [map_for_each]
    exact nodup_tails _

end Walk

end cs444.sched_rt
