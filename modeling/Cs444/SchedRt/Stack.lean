import Cs444.SchedRt.Groups

open priotable

namespace cs444.sched_rt

variable {s s' : rq} {e e' : sched_rt_entity} {g q : task_group} {head : Bool}

section Steps

/-- An entity has been taken out of the run queue it was in, if it was in one. -/
structure Removed (s s' : rq) (e : sched_rt_entity) : Prop where
  tidy : Tidy s'
  tasks : s'.tasks = s.tasks
  rt : ∀ x, x ≠ rt_rq_of_se s e → s'.rt x = s.rt x
  on : ∀ e', on_rt_rq s' e' = true ↔ on_rt_rq s e' = true ∧ e' ≠ e

/-- An entity has been put into the run queue it belongs to. -/
structure Added (s s' : rq) (e : sched_rt_entity) : Prop where
  tidy : Tidy s'
  tasks : s'.tasks = s.tasks
  rt : ∀ x, x ≠ rt_rq_of_se s e → s'.rt x = s.rt x
  on : ∀ e', on_rt_rq s' e' = true ↔ on_rt_rq s e' = true ∨ e' = e

theorem on_dequeued : on_rt_rq (dequeued s e) e' = true ↔ on_rt_rq s e' = true ∧ e' ≠ e := by
  have hof : rt_rq_of_se (dequeued s e) e' = rt_rq_of_se s e' := same_rt_rq_of_se (by simp [dequeued]) e'
  rw [on_rt_rq_iff, on_rt_rq_iff, hof]
  by_cases heq : rt_rq_of_se s e' = rt_rq_of_se s e
  · rw [heq, queued, dequeued_rt_self]
    simp only [rt_rq.discounted, Table.entries_take, List.mem_filter, decide_eq_true_eq]
  · rw [queued, dequeued_rt_of_ne heq]
    refine (and_iff_left ?_).symm
    rintro rfl
    exact heq rfl

theorem on_enqueued (hprio : rt_se_prio s e < MAX_RT_PRIO) :
    on_rt_rq (enqueued s e head) e' = true ↔ on_rt_rq s e' = true ∨ e' = e := by
  have hof : rt_rq_of_se (enqueued s e head) e' = rt_rq_of_se s e' := same_rt_rq_of_se (by simp [enqueued]) e'
  rw [on_rt_rq_iff, on_rt_rq_iff, hof]
  by_cases heq : rt_rq_of_se s e' = rt_rq_of_se s e
  · rw [heq, queued, enqueued_rt_self]
    simp only [rt_rq.counted]
    rw [(Table.entries_put head hprio).mem_iff, List.mem_cons, or_comm]
  · rw [queued, enqueued_rt_of_ne heq]
    refine (or_iff_left ?_).symm
    rintro rfl
    exact heq rfl

theorem Tidy.dequeue_if_on (h : Tidy s) (hoff : Off s (rt_rq_of_se s e)) : Removed s (dequeue_if_on s e) e := by
  rw [sched_rt.dequeue_if_on]
  split
  · rename_i hon
    obtain ⟨-, hprio, honly⟩ := (h.all _).home_of_mem (on_rt_rq_iff.mp hon)
    have hcore := sameCore_dequeue hprio ((h.all _).sound.counts hprio honly.mem)
    refine ⟨hcore.tidy (h.dequeued hon hoff), hcore.tasks, fun x hx => ?_, fun e' => ?_⟩
    · rw [hcore.rt, dequeued_rt_of_ne hx]
    · rw [hcore.on_rt_rq, on_dequeued]
  · rename_i hon
    refine ⟨h, rfl, fun _ _ => rfl, fun e' => (and_iff_left_of_imp ?_).symm⟩
    rintro hon' rfl
    exact hon hon'

theorem Tidy.enqueue (h : Tidy s) (hskipped : skipped s e = false) (hprio : rt_se_prio s e < MAX_RT_PRIO)
    (hnew : on_rt_rq s e = false) (hoff : Off s (rt_rq_of_se s e)) (head : Bool) :
    Added s (__enqueue_rt_entity s e head) e := by
  have hcore := sameCore_enqueue hskipped hprio head
  refine ⟨hcore.tidy (h.enqueued hnew hprio hoff head), hcore.tasks, fun x hx => ?_, fun e' => ?_⟩
  · rw [hcore.rt, enqueued_rt_of_ne hx]
  · rw [hcore.on_rt_rq, on_enqueued hprio]

end Steps

section Stack

/-- A group is queued in its parent exactly if it has something to run and is not
    throttled. -/
def Coupled (s : rq) (i : Nat) (parent : task_group) : Prop :=
  on_rt_rq s (.group i parent) = true ↔
    (s.rt (i :: parent)).rt_nr_running ≠ 0 ∧ rt_rq_throttled (s.rt (i :: parent)) = false

/-- What holds between two calls. -/
structure Inv (s : rq) : Prop where
  tidy : Tidy s
  coupled : ∀ i parent, Coupled s i parent

/-- What holds while the groups above `g` are taken off and put back: those from `q` up to
    the root are off, and all but the ones above `g` are queued as they should be. -/
structure Open (s : rq) (g q : task_group) : Prop where
  tidy : Tidy s
  off : ∀ x, x <:+ q → Off s x
  coupled : ∀ i parent, ¬ (i :: parent) <:+ g → Coupled s i parent

theorem off_nil (s : rq) : Off s [] := by
  intro e he
  cases e <;> simp [group_rt_rq] at he

theorem Open.of_coupled (htidy : Tidy s) (hcoupled : ∀ i parent, ¬ (i :: parent) <:+ g → Coupled s i parent) :
    Open s g [] := by
  refine ⟨htidy, fun x hx => ?_, hcoupled⟩
  rw [List.suffix_nil.mp hx]
  exact off_nil s

theorem Open.inv (h : Open s [] q) : Inv s :=
  ⟨h.tidy, fun i parent => h.coupled i parent (by simp)⟩

theorem Coupled.congr {i : Nat} {parent : task_group} (h : Coupled s i parent)
    (hrt : s'.rt (i :: parent) = s.rt (i :: parent))
    (hon : on_rt_rq s' (.group i parent) = true ↔ on_rt_rq s (.group i parent) = true) : Coupled s' i parent := by
  rw [Coupled, hrt, hon]
  exact h

theorem eq_group_of_group_rt_rq {i : Nat} {parent : task_group} (h : group_rt_rq e = some (i :: parent)) :
    e = .group i parent := by
  cases e <;> simp_all [group_rt_rq]

/-- Taking off the groups from the root down to `q`. -/
theorem Open.dequeue_ancestors (h : Open s g []) (hq : q <:+ g) :
    Open ((ancestors q).reverse.foldl dequeue_if_on s) g q ∧
      ((ancestors q).reverse.foldl dequeue_if_on s).tasks = s.tasks := by
  induction q with
  | nil => exact ⟨h, rfl⟩
  | cons i parent ih =>
    have hparent : parent <:+ g := (List.suffix_cons i parent).trans hq
    obtain ⟨hopen, htasks⟩ := ih hparent
    rw [ancestors, List.reverse_cons, List.foldl_append, List.foldl_cons, List.foldl_nil]
    set s₁ := (ancestors parent).reverse.foldl dequeue_if_on s
    have hremoved := hopen.tidy.dequeue_if_on (e := .group i parent) (hopen.off parent (List.suffix_refl parent))
    refine ⟨⟨hremoved.tidy, ?_, ?_⟩, hremoved.tasks.trans htasks⟩
    · intro x hx e he
      rw [Bool.eq_false_iff, Ne, hremoved.on]
      obtain rfl | hx := List.suffix_cons_iff.mp hx
      · exact fun hon => hon.2 (eq_group_of_group_rt_rq he)
      · simp [hopen.off x hx e he]
    · intro j p hp
      refine (hopen.coupled j p hp).congr (hremoved.rt _ ?_) ((hremoved.on _).trans (and_iff_left ?_))
      · rintro rfl
        exact hp hparent
      · intro heq
        cases heq
        exact hp hq

/-- Putting back the lowest group that is off. -/
theorem Open.enqueue_group {i : Nat} {parent : task_group} (h : Open s (i :: parent) (i :: parent)) (head : Bool) :
    Open (__enqueue_rt_entity s (.group i parent) head) parent parent := by
  have hsuffix : ∀ {x}, x <:+ parent → x <:+ i :: parent := fun hx => hx.trans (List.suffix_cons i parent)
  have hself : ¬ (i :: parent) <:+ parent := fun hx => by
    have hlength := hx.length_le
    rw [List.length_cons] at hlength
    omega
  have hoff : on_rt_rq s (.group i parent) = false := h.off _ (List.suffix_refl _) _ rfl
  cases hskipped : skipped s (.group i parent) with
  | true =>
    have hs : __enqueue_rt_entity s (.group i parent) head = s := by
      simp [__enqueue_rt_entity, hskipped]
    rw [hs]
    refine ⟨h.tidy, fun x hx => h.off x (hsuffix hx), fun j p hp => ?_⟩
    by_cases heq : j :: p = i :: parent
    · obtain ⟨rfl, rfl⟩ := List.cons.inj heq
      rw [Coupled, hoff]
      simp only [skipped, group_rt_rq, Bool.or_eq_true, beq_iff_eq] at hskipped
      simp only [Bool.false_eq_true, false_iff, not_and_or, not_not, Bool.not_eq_false]
      exact hskipped.symm
    · apply h.coupled
      rw [List.suffix_cons_iff, not_or]
      exact ⟨heq, hp⟩
  | false =>
    have hrunning : (s.rt (i :: parent)).rt_nr_running ≠ 0 ∧ rt_rq_throttled (s.rt (i :: parent)) = false := by
      simp only [skipped, group_rt_rq, Bool.or_eq_false_iff, beq_eq_false_iff_ne] at hskipped
      exact hskipped.symm
    have hsound := (h.tidy.all (i :: parent)).sound
    have hprio : rt_se_prio s (.group i parent) < MAX_RT_PRIO :=
      hsound.least.lt_iff.mpr (hsound.running_ne_zero.mp hrunning.1)
    have hadded := h.tidy.enqueue hskipped hprio hoff (h.off parent (List.suffix_cons i parent)) head
    refine ⟨hadded.tidy, fun x hx e he => ?_, fun j p hp => ?_⟩
    · rw [Bool.eq_false_iff, Ne, hadded.on, h.off x (hsuffix hx) e he]
      rintro (hon | rfl)
      · cases hon
      · cases he
        exact hself hx
    · by_cases heq : j :: p = i :: parent
      · obtain ⟨rfl, rfl⟩ := List.cons.inj heq
        rw [Coupled, hadded.rt _ (List.cons_ne_self j p)]
        exact iff_of_true ((hadded.on _).mpr (.inr rfl)) hrunning
      · refine (h.coupled j p ?_).congr (hadded.rt _ ?_) ((hadded.on _).trans (or_iff_left ?_))
        · rw [List.suffix_cons_iff, not_or]
          exact ⟨heq, hp⟩
        · rintro rfl
          exact hp (List.suffix_refl _)
        · intro h
          cases h
          exact heq rfl

theorem Open.enqueue_ancestors (h : Open s g g) (head : Bool) :
    Inv ((ancestors g).foldl (fun s e => __enqueue_rt_entity s e head) s) := by
  induction g generalizing s with
  | nil => exact h.inv
  | cons i parent ih => exact ih (h.enqueue_group head)

/-- The loop of `dequeue_rt_entity` puts back the same groups. -/
theorem foldl_enqueue_if_group (s : rq) (g : task_group) :
    (ancestors g).foldl enqueue_if_group s =
      (ancestors g).foldl (fun s e => __enqueue_rt_entity s e false) s := by
  induction g generalizing s with
  | nil => rfl
  | cons i parent ih =>
    have hstep : enqueue_if_group s (.group i parent) = __enqueue_rt_entity s (.group i parent) false := by
      simp only [enqueue_if_group, group_rt_rq]
      split
      · rfl
      · rename_i hzero
        have hskipped : skipped s (.group i parent) = true := by
          simp only [skipped, group_rt_rq]
          simp_all
        simp [__enqueue_rt_entity, hskipped]
    rw [ancestors, List.foldl_cons, List.foldl_cons, hstep, ih]

end Stack

section Entities

variable {i p : Nat} {parent : task_group}

theorem Open.enqueue_rt_entity_group (h : Open s (i :: parent) []) (head : Bool) :
    Inv (enqueue_rt_entity s (.group i parent) head) :=
  (h.dequeue_ancestors (List.suffix_refl _)).1.enqueue_ancestors head

theorem Open.dequeue_rt_entity_group (h : Open s (i :: parent) []) : Inv (dequeue_rt_entity s (.group i parent)) := by
  rw [dequeue_rt_entity]
  have hinv := (h.dequeue_ancestors (List.suffix_refl _)).1.enqueue_ancestors false
  rw [← foldl_enqueue_if_group] at hinv
  exact hinv

/-- The state after `dequeue_rt_stack` on a task. -/
theorem Inv.dequeue_rt_stack_task (h : Inv s) (p : Nat) :
    Open (dequeue_rt_stack s (.task p)) (s.tasks p).rt_rq (s.tasks p).rt_rq ∧
      (dequeue_rt_stack s (.task p)).tasks = s.tasks ∧
      on_rt_rq (dequeue_rt_stack s (.task p)) (.task p) = false := by
  have hbase : Open s (s.tasks p).rt_rq [] := .of_coupled h.tidy fun i parent _ => h.coupled i parent
  obtain ⟨hopen, htasks⟩ := hbase.dequeue_ancestors (List.suffix_refl _)
  rw [dequeue_rt_stack, for_each_sched_rt_entity, List.reverse_cons, List.foldl_append, List.foldl_cons,
    List.foldl_nil]
  set s₁ := (ancestors (s.tasks p).rt_rq).reverse.foldl dequeue_if_on s
  have hof : rt_rq_of_se s₁ (.task p) = (s.tasks p).rt_rq := by rw [rt_rq_of_se, htasks]
  have hremoved := hopen.tidy.dequeue_if_on (e := .task p) (by
    rw [hof]
    exact hopen.off _ (List.suffix_refl _))
  refine ⟨⟨hremoved.tidy, fun x hx e he => ?_, fun i parent hp => ?_⟩, hremoved.tasks.trans htasks, ?_⟩
  · rw [Bool.eq_false_iff, Ne, hremoved.on, hopen.off x hx e he]
    simp
  · refine (hopen.coupled i parent hp).congr (hremoved.rt _ ?_) ((hremoved.on _).trans (and_iff_left (by simp)))
    rw [hof]
    rintro heq
    rw [heq] at hp
    exact hp (List.suffix_refl _)
  · rw [Bool.eq_false_iff, Ne, hremoved.on]
    simp

theorem Inv.dequeue_rt_entity_task (h : Inv s) (p : Nat) : Inv (dequeue_rt_entity s (.task p)) := by
  obtain ⟨hopen, -, -⟩ := h.dequeue_rt_stack_task p
  rw [dequeue_rt_entity, for_each_sched_rt_entity, List.foldl_cons]
  have hinv := hopen.enqueue_ancestors false
  rw [← foldl_enqueue_if_group] at hinv
  exact hinv

theorem Inv.enqueue_rt_entity_task (h : Inv s) (hprio : (s.tasks p).prio < MAX_RT_PRIO) (head : Bool) :
    Inv (enqueue_rt_entity s (.task p) head) := by
  obtain ⟨hopen, htasks, hoff⟩ := h.dequeue_rt_stack_task p
  rw [enqueue_rt_entity, for_each_sched_rt_entity, List.foldl_cons]
  set s₁ := dequeue_rt_stack s (.task p)
  have hof : rt_rq_of_se s₁ (.task p) = (s.tasks p).rt_rq := by rw [rt_rq_of_se, htasks]
  have hprio₁ : rt_se_prio s₁ (.task p) < MAX_RT_PRIO := by
    rw [rt_se_prio, htasks]
    exact hprio
  have hadded := hopen.tidy.enqueue (e := .task p) rfl hprio₁ hoff (by
    rw [hof]
    exact hopen.off _ (List.suffix_refl _)) head
  refine Open.enqueue_ancestors ⟨hadded.tidy, fun x hx e he => ?_, fun i parent hp => ?_⟩ head
  · rw [Bool.eq_false_iff, Ne, hadded.on, hopen.off x hx e he]
    rintro (hon | rfl)
    · cases hon
    · cases he
  · refine (hopen.coupled i parent hp).congr (hadded.rt _ ?_) ((hadded.on _).trans (or_iff_left (by simp)))
    rw [hof]
    rintro heq
    rw [heq] at hp
    exact hp (List.suffix_refl _)

end Entities

end cs444.sched_rt
