import Cs444.SchedRt.Standing
import Cs444.SchedRt.Steady

open priotable

namespace cs444.sched_rt

variable {s s' s₁ s₂ : rq} {e : sched_rt_entity} {g x : task_group} {p : Nat}

section Way

/-- The highest priority of a group before the entities on the way of a task are taken out, without
    them, and with what is put back. -/
structure Level where
  before : Nat
  rest : Nat
  after : Nat
deriving DecidableEq

/-- A group with the entity on the way and what this amounts to afterwards. -/
def level (s : rq) (g : task_group) (e : sched_rt_entity) (a : Standing) : Level where
  before := (s.rt g).highest_prio_curr
  rest := (others s g e).highest
  after := ((others s g e).join a).highest

/-- The groups from that of an entity up to the root. -/
def way (s : rq) (e : sched_rt_entity) (a : Standing) : task_group → List Level
  | [] => [level s [] e a]
  | i :: parent =>
    level s (i :: parent) e a ::
      way s (.group i parent) (((others s (i :: parent) e).join a).shown (s.rt (i :: parent)).rt_throttled) parent

/-- What is recorded on the way down from the root and up again. -/
def writes (ls : List Level) : List Nat :=
  (ls.reverse.filter fun l => l.rest ≠ l.before).map Level.rest ++ (ls.filter fun l => l.after ≠ l.rest).map Level.after

/-- The group that changes last, if any does, is left with the highest priority of the root. -/
def agrees (ls : List Level) : Bool :=
  (writes ls).getLast?.all fun prio => ls.getLast?.all fun root => decide (prio = root.after)

/-- A fold that keeps the value of the last element it applies to. -/
theorem foldl_ite {α : Type} (P : α → Bool) (v : α → Nat) (l : List α) (r : Nat) :
    l.foldl (fun r a => if P a then v a else r) r = ((l.filter P).map v).getLast?.getD r := by
  induction l using List.reverseRecOn with
  | nil => rfl
  | append_singleton l a ih =>
    rw [List.foldl_append, List.foldl_cons, List.foldl_nil, ih, List.filter_append, List.map_append]
    cases hP : P a <;> simp [hP]

theorem recorded_iff {ls : List Level} {root : Level} (hroot : ls.getLast? = some root) :
    ls.foldl (fun r l => if l.after ≠ l.rest then l.after else r)
        (ls.reverse.foldl (fun r l => if l.rest ≠ l.before then l.rest else r) root.before) = root.after ↔
      agrees ls = true := by
  have hfold : ls.foldl (fun r l => if l.after ≠ l.rest then l.after else r)
      (ls.reverse.foldl (fun r l => if l.rest ≠ l.before then l.rest else r) root.before) =
        (writes ls).getLast?.getD root.before := by
    have hdown := foldl_ite (fun l : Level => decide (l.rest ≠ l.before)) Level.rest ls.reverse root.before
    have hup := foldl_ite (fun l : Level => decide (l.after ≠ l.rest)) Level.after ls
    simp only [decide_eq_true_eq] at hdown hup
    rw [hdown, hup, writes, List.getLast?_append]
    cases ((ls.filter fun l => decide (l.after ≠ l.rest)).map Level.after).getLast? <;> rfl
  rw [hfold, agrees, hroot]
  cases hlast : (writes ls).getLast? with
  | some prio => simp
  | none =>
    -- No group changes, and neither does the root.
    have hmem : root ∈ ls := List.mem_of_getLast? hroot
    rw [List.getLast?_eq_none_iff, writes, List.append_eq_nil_iff, List.map_eq_nil_iff, List.map_eq_nil_iff,
      List.filter_eq_nil_iff, List.filter_eq_nil_iff] at hlast
    have hdown := hlast.1 root (List.mem_reverse.mpr hmem)
    have hup := hlast.2 root hmem
    simp only [decide_eq_true_eq, not_not] at hdown hup
    simp [hup, hdown]

end Way

section Stack

/-- The priority recorded for the CPU is that of its root. -/
def rq.Recorded (s : rq) : Prop :=
  s.recorded = (s.rt []).highest_prio_curr

instance (s : rq) : Decidable s.Recorded :=
  inferInstanceAs (Decidable (_ = _))

/-- The three states of a group on the way of a task. -/
def states (s s₁ s₂ : rq) (x : task_group) : Level :=
  ⟨(s.rt x).highest_prio_curr, (s₁.rt x).highest_prio_curr, (s₂.rt x).highest_prio_curr⟩

/-- What is taken out and put back on the way of a task, where `s₁` is the state between. -/
structure Restacked (s s₁ s₂ : rq) (p : Nat) : Prop where
  inv : Inv s
  down : Walked s s₁ (for_each_sched_rt_entity s (.task p)).reverse
  tidy : Tidy s₁
  off : ∀ e ∈ for_each_sched_rt_entity s (.task p), on_rt_rq s₁ e = false
  up : Walked s₁ s₂ (for_each_sched_rt_entity s (.task p))
  inv' : Inv s₂

theorem Restacked.beside_down (h : Restacked s s₁ s₂ p) : Beside s s₁ p :=
  h.down.beside fun _ => List.mem_reverse

theorem Restacked.beside (h : Restacked s s₁ s₂ p) : Beside s s₂ p := by
  refine h.beside_down.trans (h.up.beside fun e => ?_)
  rw [for_each_eq h.down.tasks]

/-- Without the entity on the way a group is left with the others. -/
theorem Restacked.rest (h : Restacked s s₁ s₂ p) (he : e ∈ for_each_sched_rt_entity s (.task p)) :
    (s₁.rt (rt_rq_of_se s e)).highest_prio_curr = (others s (rt_rq_of_se s e) e).highest := by
  have hlevel := h.beside_down.level h.inv.tidy h.tidy he
  have hout : e ∉ queued s₁ (rt_rq_of_se s e) := by
    rw [← same_rt_rq_of_se h.down.tasks e, ← on_rt_rq_eq_false]
    exact h.off e he
  rw [if_neg hout] at hlevel
  have hmax : (others s (rt_rq_of_se s e) e).highest ≤ MAX_RT_PRIO := (le_highest_iff.mp le_rfl).1
  exact (congrArg Standing.highest hlevel).trans (min_eq_left hmax)

/-- The levels computed from the state before are those the code goes through. -/
theorem Restacked.way_eq (h : Restacked s s₁ s₂ p) {a : Standing} (he : e ∈ for_each_sched_rt_entity s (.task p))
    (hx : rt_rq_of_se s e = x) (hup : ancestors x ⊆ for_each_sched_rt_entity s (.task p))
    (ha : (if e ∈ queued s₂ x then entity_standing s₂ e else .none) = a) :
    way s e a x = x.tails.map (states s s₁ s₂) := by
  induction x generalizing e a with
  | nil =>
    have hrest := h.rest he
    have hafter := h.beside.level h.inv.tidy h.inv'.tidy he
    rw [hx] at hrest hafter
    rw [ha] at hafter
    have hhighest : (s₂.rt []).highest_prio_curr = ((others s [] e).join a).highest := congrArg Standing.highest hafter
    simp [way, level, states, hrest, hhighest]
  | cons i parent ih =>
    have hrest := h.rest he
    have hafter := h.beside.level h.inv.tidy h.inv'.tidy he
    rw [hx] at hrest hafter
    rw [ha] at hafter
    have hhighest : (s₂.rt (i :: parent)).highest_prio_curr = ((others s (i :: parent) e).join a).highest :=
      congrArg Standing.highest hafter
    have hshown := h.inv'.shown i parent
    rw [hafter, h.beside.throttled] at hshown
    have hnext := ih (hup List.mem_cons_self) rfl (fun e' he' => hup (List.mem_cons_of_mem _ he')) hshown
    rw [way, hnext, List.tails_cons, List.map_cons, level, states, hrest, hhighest]

theorem getLast?_tails (g : task_group) : g.tails.getLast? = some [] := by
  induction g with
  | nil => rfl
  | cons i parent ih =>
    rw [List.tails_cons, List.getLast?_cons, ih]
    rfl

/-- The record is right afterwards exactly if the group that changes last agrees with the root. -/
theorem Restacked.recorded_iff (h : Restacked s s₁ s₂ p) (honline : s.online = true) (hs : s.Recorded) {a : Standing}
    (ha : (if .task p ∈ queued s₂ (s.tasks p).rt_rq then entity_standing s₂ (.task p) else .none) = a) :
    s₂.Recorded ↔ agrees (way s (.task p) a (s.tasks p).rt_rq) = true := by
  have hway : way s (.task p) a (s.tasks p).rt_rq = (s.tasks p).rt_rq.tails.map (states s s₁ s₂) :=
    h.way_eq List.mem_cons_self rfl (fun _ he => List.mem_cons_of_mem _ he) ha
  have hroot : (way s (.task p) a (s.tasks p).rt_rq).getLast? = some (states s s₁ s₂ []) := by
    rw [hway, List.getLast?_map, getLast?_tails]
    rfl
  have hlevels : (for_each_sched_rt_entity s (.task p)).map (rt_rq_of_se s₁) = (s.tasks p).rt_rq.tails := by
    rw [← for_each_eq h.down.tasks, map_for_each, h.down.tasks]
  have hdown := h.down.recorded honline
  have hup := h.up.recorded (h.down.online.trans honline)
  rw [List.map_reverse, map_for_each] at hdown
  rw [hlevels, hdown, hs] at hup
  rw [← sched_rt.recorded_iff hroot, hway, ← List.map_reverse, List.foldl_map, List.foldl_map, rq.Recorded, hup]
  exact Iff.rfl

theorem Inv.off_of_dequeue_rt_stack (h : Inv s) (p : Nat) :
    ∀ e ∈ for_each_sched_rt_entity s (.task p), on_rt_rq (dequeue_rt_stack s (.task p)) e = false := by
  obtain ⟨hopen, -, hoff⟩ := h.dequeue_rt_stack_task p
  intro e he
  obtain rfl | he := List.mem_cons.mp he
  · exact hoff
  · obtain ⟨i, parent, rfl⟩ := eq_group_of_mem_ancestors he
    exact hopen.off _ ((List.mem_tails _ _).mp (mem_ancestors.mp he)) _ rfl

theorem Inv.restacked_enqueue (h : Inv s) (hprio : (s.tasks p).prio < MAX_RT_PRIO) (head : Bool) :
    Restacked s (dequeue_rt_stack s (.task p)) (enqueue_rt_entity s (.task p) head) p := by
  have hdown := walked_dequeue_rt_stack s p
  have hup := walked_enqueue_all (dequeue_rt_stack s (.task p)) p head
  rw [for_each_eq hdown.tasks] at hup
  exact ⟨h, hdown, (h.dequeue_rt_stack_task p).1.tidy, h.off_of_dequeue_rt_stack p, hup,
    h.enqueue_rt_entity_task hprio head⟩

theorem Inv.restacked_dequeue (h : Inv s) (p : Nat) :
    Restacked s (dequeue_rt_stack s (.task p)) (dequeue_rt_entity s (.task p)) p := by
  have hdown := walked_dequeue_rt_stack s p
  have hup := walked_enqueue_if_group (dequeue_rt_stack s (.task p)) p
  rw [for_each_eq hdown.tasks] at hup
  exact ⟨h, hdown, (h.dequeue_rt_stack_task p).1.tidy, h.off_of_dequeue_rt_stack p, hup, h.dequeue_rt_entity_task p⟩

/-- The task that is enqueued is in its group afterwards. -/
theorem mem_enqueue_rt_entity (hprio : (s.tasks p).prio < MAX_RT_PRIO) (head : Bool) :
    .task p ∈ queued (enqueue_rt_entity s (.task p) head) (s.tasks p).rt_rq := by
  have htasks := (walked_dequeue_rt_stack s p).tasks
  rw [enqueue_rt_entity, for_each_sched_rt_entity, List.foldl_cons, (steady_enqueue_ancestors _ _ head).queued]
  refine (mem_enqueue ?_ head _ p).mpr (.inr ⟨?_, rfl⟩)
  · rw [htasks]
    exact hprio
  · rw [htasks]

theorem Inv.notMem_dequeue_rt_entity (h : Inv s) (p : Nat) :
    .task p ∉ queued (dequeue_rt_entity s (.task p)) (s.tasks p).rt_rq := by
  have htasks := (walked_dequeue_rt_stack s p).tasks
  have hoff := h.off_of_dequeue_rt_stack p (.task p) List.mem_cons_self
  rw [on_rt_rq_eq_false, rt_rq_of_se, htasks] at hoff
  rw [dequeue_rt_entity, for_each_sched_rt_entity, List.foldl_cons]
  have hsteady := steady_enqueue_if_ancestors (dequeue_rt_stack s (.task p)) (s.tasks p).rt_rq
  exact fun hin => hoff ((hsteady.queued _ p).mp hin)

theorem recorded_enqueue_pushable_task (s : rq) (p : Nat) : (enqueue_pushable_task s p).Recorded ↔ s.Recorded :=
  Iff.rfl

theorem online_enqueue_pushable_task (s : rq) (p : Nat) : (enqueue_pushable_task s p).online = s.online :=
  rfl

theorem Inv.recorded_enqueue_task_rt (h : Inv s) (honline : s.online = true) (hs : s.Recorded)
    (hprio : (s.tasks p).prio < MAX_RT_PRIO) (head : Bool) :
    (sched_rt.enqueue_task_rt s p head).Recorded ↔
      agrees (way s (.task p) (entity_standing s (.task p)) (s.tasks p).rt_rq) = true := by
  have hrestacked := h.restacked_enqueue hprio head
  have hself : entity_standing (enqueue_rt_entity s (.task p) head) (.task p) = entity_standing s (.task p) := by
    simp [entity_standing, rt_se_prio, rt_se_boosted, hrestacked.beside.tasks]
  rw [← hrestacked.recorded_iff honline hs ((if_pos (mem_enqueue_rt_entity hprio head)).trans hself)]
  simp only [sched_rt.enqueue_task_rt]
  split
  · exact recorded_enqueue_pushable_task _ p
  · exact Iff.rfl

theorem Inv.recorded_dequeue_rt_entity (h : Inv s) (honline : s.online = true) (hs : s.Recorded) (p : Nat) :
    (dequeue_rt_entity s (.task p)).Recorded ↔ agrees (way s (.task p) .none (s.tasks p).rt_rq) = true :=
  (h.restacked_dequeue p).recorded_iff honline hs (if_neg (h.notMem_dequeue_rt_entity p))

end Stack

section Accounting

/-- The time that is accounted takes a group over its runtime, also with what it can borrow. -/
def overruns (borrow : task_group → Nat) (delta_exec : Nat) (s : rq) (g : task_group) : Bool :=
  let rt_time := u64 ((s.rt g).rt_time + delta_exec)
  let runtime := if rt_time > (s.rt g).rt_runtime then borrow g else (s.rt g).rt_runtime
  !(s.rt g).rt_throttled && decide ((s.rt g).rt_runtime < (s.bandwidth g).rt_period) &&
    decide ((s.rt g).rt_runtime ≠ RUNTIME_INF) && decide (runtime ≠ RUNTIME_INF) && decide (rt_time > runtime)

/-- Accounting the time of the current task throttles no group it is in. What becomes of the root
    does not matter. -/
def within (borrow : task_group → Nat) (delta_exec : Nat) (s : rq) : Prop :=
  (s.tasks s.curr).rt_class = true → s.bandwidth_enabled = true →
    ∀ g ∈ (s.tasks s.curr).rt_rq.tails, g ≠ [] → overruns borrow delta_exec s g = false

instance (borrow : task_group → Nat) (delta_exec : Nat) (s : rq) : Decidable (within borrow delta_exec s) :=
  inferInstanceAs (Decidable (_ → _ → ∀ g ∈ _, g ≠ [] → _))

/-- Only the account of time of a group has changed, or that the root is throttled. -/
structure Paced (s s' : rq) : Prop where
  online : s'.online = s.online
  tasks : s'.tasks = s.tasks
  recorded : s'.recorded = s.recorded
  active : ∀ g, (s'.rt g).active = (s.rt g).active
  highest : ∀ g, (s'.rt g).highest_prio_curr = (s.rt g).highest_prio_curr
  boosted : ∀ g, (s'.rt g).rt_nr_boosted = (s.rt g).rt_nr_boosted
  throttled : ∀ g, g ≠ [] → (s'.rt g).rt_throttled = (s.rt g).rt_throttled

theorem Paced.refl (s : rq) : Paced s s :=
  ⟨rfl, rfl, rfl, fun _ => rfl, fun _ => rfl, fun _ => rfl, fun _ _ => rfl⟩

theorem Paced.trans (h : Paced s s₁) (h' : Paced s₁ s₂) : Paced s s₂ where
  online := h'.online.trans h.online
  tasks := h'.tasks.trans h.tasks
  recorded := h'.recorded.trans h.recorded
  active g := (h'.active g).trans (h.active g)
  highest g := (h'.highest g).trans (h.highest g)
  boosted g := (h'.boosted g).trans (h.boosted g)
  throttled g hg := (h'.throttled g hg).trans (h.throttled g hg)

theorem Paced.Recorded (h : Paced s s') (hs : s.Recorded) : s'.Recorded := by
  rw [rq.Recorded, h.recorded, h.highest]
  exact hs

theorem Paced.others (h : Paced s s') (g : task_group) (e : sched_rt_entity) : others s' g e = others s g e := by
  have hprio : rt_se_prio s' = rt_se_prio s := by
    funext e
    cases e <;> simp [rt_se_prio, h.tasks, h.highest]
  have hboosted : rt_se_boosted s' = rt_se_boosted s := by
    funext e
    cases e <;> simp [rt_se_boosted, h.tasks, h.boosted]
  rw [sched_rt.others, sched_rt.others, queued, queued, h.active, standing, standing, hprio, hboosted]

theorem Paced.way (h : Paced s s') (e : sched_rt_entity) (a : Standing) (g : task_group) : way s' e a g = way s e a g := by
  induction g generalizing e a with
  | nil => rw [sched_rt.way, sched_rt.way, level, level, h.highest, h.others]
  | cons i parent ih =>
    rw [sched_rt.way, sched_rt.way, ih, level, level, h.highest, h.others, h.throttled _ (List.cons_ne_nil i parent)]

/-- One group has been accounted for. -/
structure Metered (s s' : rq) (g : task_group) : Prop extends Paced s s' where
  bandwidth : s'.bandwidth = s.bandwidth
  rt : ∀ x, x ≠ g → s'.rt x = s.rt x

theorem Metered.refl (s : rq) (g : task_group) : Metered s s g :=
  ⟨.refl s, rfl, fun _ _ => rfl⟩

theorem Metered.trans (h : Metered s s₁ g) (h' : Metered s₁ s₂ g) : Metered s s₂ g :=
  ⟨h.toPaced.trans h'.toPaced, h'.bandwidth.trans h.bandwidth, fun x hx => (h'.rt x hx).trans (h.rt x hx)⟩

theorem metered_set {r : rt_rq} (hactive : r.active = (s.rt g).active)
    (hhighest : r.highest_prio_curr = (s.rt g).highest_prio_curr) (hboosted : r.rt_nr_boosted = (s.rt g).rt_nr_boosted)
    (hthrottled : g ≠ [] → r.rt_throttled = (s.rt g).rt_throttled) : Metered s (s.set g r) g := by
  have hrt : ∀ x, x ≠ g → (s.set g r).rt x = s.rt x := fun x hx => set_rt_of_ne r hx
  refine ⟨⟨rfl, rfl, rfl, fun x => ?_, fun x => ?_, fun x => ?_, fun x hx => ?_⟩, rfl, hrt⟩ <;>
    obtain rfl | hne := eq_or_ne x g
  · rw [set_rt_self, hactive]
  · rw [hrt x hne]
  · rw [set_rt_self, hhighest]
  · rw [hrt x hne]
  · rw [set_rt_self, hboosted]
  · rw [hrt x hne]
  · rw [set_rt_self, hthrottled hx]
  · rw [hrt x hne]

theorem metered_resched_task (s : rq) (p : Nat) (g : task_group) : Metered s (resched_task s p) g :=
  ⟨⟨rfl, rfl, rfl, fun _ => rfl, fun _ => rfl, fun _ => rfl, fun _ _ => rfl⟩, rfl, fun _ _ => rfl⟩

theorem balance_runtime_eq (borrow : task_group → Nat) (s : rq) (g : task_group) :
    balance_runtime borrow s g = s.set g { s.rt g with
      rt_runtime := if (s.rt g).rt_time > (s.rt g).rt_runtime then borrow g else (s.rt g).rt_runtime } := by
  rw [balance_runtime]
  split
  · rfl
  · simp [rq.set]

/-- The run queue of a group is accounted for when its time does not exceed its runtime. -/
theorem metered_sched_rt_runtime_exceeded {borrow : task_group → Nat}
    (h : g ≠ [] → (s.rt g).rt_throttled = false → (s.rt g).rt_runtime < (s.bandwidth g).rt_period →
      (if (s.rt g).rt_time > (s.rt g).rt_runtime then borrow g else (s.rt g).rt_runtime) ≠ RUNTIME_INF →
      (s.rt g).rt_time ≤ if (s.rt g).rt_time > (s.rt g).rt_runtime then borrow g else (s.rt g).rt_runtime) :
    Metered s (sched_rt_runtime_exceeded borrow s g).1 g := by
  simp only [sched_rt_runtime_exceeded]
  split
  · exact .refl s g
  rename_i hthrottled
  split
  · exact .refl s g
  rename_i hperiod
  rw [balance_runtime_eq]
  simp only [set_rt_self]
  generalize (if (s.rt g).rt_time > (s.rt g).rt_runtime then borrow g else (s.rt g).rt_runtime) = rt_runtime at h
  have hbalanced : Metered s (s.set g { s.rt g with rt_runtime }) g := metered_set rfl rfl rfl fun _ => rfl
  split
  · exact hbalanced
  rename_i hinf
  split
  · -- Only the root can have exceeded its runtime, which has no entity to take out.
    rename_i hexceeded
    have hroot : g = [] := by
      by_contra hne
      have hle := h hne (by simpa using hthrottled) (Nat.not_le.mp hperiod) hinf
      omega
    subst hroot
    have hset : Metered (s.set [] { s.rt [] with rt_runtime })
        ((s.set [] { s.rt [] with rt_runtime }).set [] { s.rt [] with rt_runtime, rt_throttled := true }) [] :=
      metered_set (by rw [set_rt_self]) (by rw [set_rt_self]) (by rw [set_rt_self]) fun hne => absurd rfl hne
    split
    · exact hbalanced.trans hset
    · exact hbalanced.trans hset
  · exact hbalanced

theorem metered_account {borrow : task_group → Nat} {delta_exec : Nat}
    (h : g ≠ [] → overruns borrow delta_exec s g = false) : Metered s (account borrow delta_exec s g) g := by
  simp only [account]
  split
  · rename_i hinf
    have htime : Metered s (s.set g { s.rt g with rt_time := u64 ((s.rt g).rt_time + delta_exec) }) g :=
      metered_set rfl rfl rfl fun _ => rfl
    have hexceeded : Metered (s.set g { s.rt g with rt_time := u64 ((s.rt g).rt_time + delta_exec) })
        (sched_rt_runtime_exceeded borrow (s.set g { s.rt g with rt_time := u64 ((s.rt g).rt_time + delta_exec) }) g).1 g := by
      refine metered_sched_rt_runtime_exceeded fun hne hthrottled hperiod hruntime => ?_
      rw [set_rt_self] at hthrottled hperiod hruntime ⊢
      have hover := h hne
      by_contra hlt
      have hbandwidth : (s.rt g).rt_runtime < (s.bandwidth g).rt_period := hperiod
      simp only [overruns, Bool.and_eq_false_iff, decide_eq_false_iff_not] at hover
      simp_all
    split
    · exact (htime.trans hexceeded).trans (metered_resched_task _ _ g)
    · exact htime.trans hexceeded
  · exact .refl s g

theorem paced_account_all {borrow : task_group → Nat} {delta_exec : Nat} {gs : List task_group} (hnodup : gs.Nodup)
    (h : ∀ g ∈ gs, g ≠ [] → overruns borrow delta_exec s g = false) : Paced s (gs.foldl (account borrow delta_exec) s) := by
  induction gs generalizing s with
  | nil => exact .refl s
  | cons g gs ih =>
    obtain ⟨hnew, hnodup⟩ := List.nodup_cons.mp hnodup
    have hfirst := metered_account (h g List.mem_cons_self)
    refine hfirst.toPaced.trans (ih hnodup fun x hx hne => ?_)
    have hother : x ≠ g := fun heq => hnew (heq ▸ hx)
    rw [overruns, hfirst.rt x hother, hfirst.bandwidth]
    exact h x (List.mem_cons_of_mem _ hx) hne

theorem paced_update_curr_rt {borrow : task_group → Nat} {delta_exec : Nat} (h : within borrow delta_exec s) :
    Paced s (update_curr_rt borrow delta_exec s) := by
  rw [update_curr_rt]
  split
  · exact .refl s
  rename_i hclass
  split
  · exact .refl s
  rename_i henabled
  rw [map_for_each]
  exact paced_account_all (nodup_tails _) (h (by simpa using hclass) (by simpa using henabled))

theorem Inv.recorded_dequeue_task_rt (h : Inv s) (honline : s.online = true) (hs : s.Recorded)
    {borrow : task_group → Nat} {delta_exec : Nat} (hwithin : within borrow delta_exec s) (p : Nat) :
    (sched_rt.dequeue_task_rt borrow delta_exec s p).Recorded ↔
      agrees (way s (.task p) .none (s.tasks p).rt_rq) = true := by
  have hpaced := paced_update_curr_rt hwithin
  have hinv := h.update_curr_rt borrow delta_exec
  have hiff := hinv.recorded_dequeue_rt_entity (hpaced.online.trans honline) (hpaced.Recorded hs) p
  rw [hpaced.way, hpaced.tasks] at hiff
  exact hiff

end Accounting

section Run

/-- A condition on each call in the state it is made in. -/
def Always (P : rq → Call → Prop) : rq → List Call → Prop
  | _, [] => True
  | s, c :: cs => P s c ∧ Always P (step s c) cs

instance decidableAlways (P : rq → Call → Prop) [∀ s c, Decidable (P s c)] :
    (s : rq) → (cs : List Call) → Decidable (Always P s cs)
  | _, [] => inferInstanceAs (Decidable True)
  | s, c :: cs =>
    have := decidableAlways P (step s c) cs
    inferInstanceAs (Decidable (P s c ∧ Always P (step s c) cs))

/-- A call that throttles no group, and unthrottles none. -/
def Call.Within (s : rq) : Call → Prop
  | .dequeue_task_rt _ borrow delta_exec => within borrow delta_exec s
  | .update_curr_rt borrow delta_exec => within borrow delta_exec s
  | .sched_rt_runtime_exceeded _ _ => False
  | .do_sched_rt_period_timer _ _ _ => False
  | _ => True

instance (s : rq) : (c : Call) → Decidable (c.Within s)
  | .dequeue_task_rt _ borrow delta_exec | .update_curr_rt borrow delta_exec =>
    inferInstanceAs (Decidable (within borrow delta_exec s))
  | .sched_rt_runtime_exceeded .. | .do_sched_rt_period_timer .. => inferInstanceAs (Decidable False)
  | .enqueue_task_rt .. | .requeue_task_rt .. | .set_curr .. | .set_task .. | .set_bandwidth .. =>
    inferInstanceAs (Decidable True)

/-- The group on the way of the task that changes last is left with the highest priority of the root. -/
def Call.Agrees (s : rq) : Call → Prop
  | .enqueue_task_rt p _ => agrees (way s (.task p) (entity_standing s (.task p)) (s.tasks p).rt_rq) = true
  | .dequeue_task_rt p _ _ => agrees (way s (.task p) .none (s.tasks p).rt_rq) = true
  | _ => True

instance (s : rq) : (c : Call) → Decidable (c.Agrees s)
  | .enqueue_task_rt p _ =>
    inferInstanceAs (Decidable (agrees (way s (.task p) (entity_standing s (.task p)) (s.tasks p).rt_rq) = true))
  | .dequeue_task_rt p _ _ => inferInstanceAs (Decidable (agrees (way s (.task p) .none (s.tasks p).rt_rq) = true))
  | .requeue_task_rt .. | .update_curr_rt .. | .sched_rt_runtime_exceeded .. | .do_sched_rt_period_timer ..
  | .set_curr .. | .set_task .. | .set_bandwidth .. => inferInstanceAs (Decidable True)

theorem still_requeue_all (es : List sched_rt_entity) (head : Bool) :
    (es.foldl (fun s e => requeue_rt_entity s e head) s).online = s.online ∧
      (s.Recorded → (es.foldl (fun s e => requeue_rt_entity s e head) s).Recorded) := by
  induction es generalizing s with
  | nil => exact ⟨rfl, id⟩
  | cons e es ih =>
    have hstep : (requeue_rt_entity s e head).online = s.online ∧ (s.Recorded → (requeue_rt_entity s e head).Recorded) := by
      simp only [requeue_rt_entity]
      split
      · refine ⟨rfl, fun hs => hs.trans ?_⟩
        by_cases hroot : [] = rt_rq_of_se s e <;> simp [rq.set, hroot]
      · exact ⟨rfl, id⟩
    obtain ⟨honline, hrecorded⟩ := ih (s := requeue_rt_entity s e head)
    exact ⟨honline.trans hstep.1, fun hs => hrecorded (hstep.2 hs)⟩

/-- After each call the record is right exactly if the call agrees with the root. -/
theorem Inv.recorded_step (h : Inv s) (honline : s.online = true) (hs : s.Recorded) {c : Call} (hv : c.Valid s)
    (hw : c.Within s) : (step s c).online = true ∧ ((step s c).Recorded ↔ c.Agrees s) := by
  cases c with
  | enqueue_task_rt p head =>
    have hrestacked := h.restacked_enqueue hv head
    refine ⟨?_, h.recorded_enqueue_task_rt honline hs hv head⟩
    have hsame : (step s (.enqueue_task_rt p head)).online = (enqueue_rt_entity s (.task p) head).online := by
      simp only [step, sched_rt.enqueue_task_rt]
      split
      · rw [online_enqueue_pushable_task]
      · rfl
    rw [hsame, hrestacked.up.online, hrestacked.down.online, honline]
  | dequeue_task_rt p borrow delta_exec =>
    have hrestacked := (h.update_curr_rt borrow delta_exec).restacked_dequeue p
    refine ⟨?_, h.recorded_dequeue_task_rt honline hs hw p⟩
    have hsame : (step s (.dequeue_task_rt p borrow delta_exec)).online =
        (dequeue_rt_entity (sched_rt.update_curr_rt borrow delta_exec s) (.task p)).online := rfl
    rw [hsame, hrestacked.up.online, hrestacked.down.online, (paced_update_curr_rt hw).online, honline]
  | requeue_task_rt p head =>
    obtain ⟨hsame, hkept⟩ := still_requeue_all (s := s) (for_each_sched_rt_entity s (.task p)) head
    exact ⟨hsame.trans honline, iff_of_true (hkept hs) trivial⟩
  | update_curr_rt borrow delta_exec =>
    have hpaced := paced_update_curr_rt hw
    exact ⟨hpaced.online.trans honline, iff_of_true (hpaced.Recorded hs) trivial⟩
  | sched_rt_runtime_exceeded g borrow => exact hw.elim
  | do_sched_rt_period_timer g borrow overrun => exact hw.elim
  | set_curr p => exact ⟨honline, iff_of_true hs trivial⟩
  | set_task p t => exact ⟨honline, iff_of_true hs trivial⟩
  | set_bandwidth g b rt_runtime =>
    refine ⟨honline, iff_of_true (hs.trans ?_) trivial⟩
    by_cases hroot : [] = g <;> simp [step, rq.set, hroot]

theorem Inv.recorded_run (h : Inv s) (honline : s.online = true) (hs : s.Recorded) {ops : List Call}
    (hops : ValidRun s ops) (hwithin : Always Call.Within s ops) :
    (∀ n, (run s (ops.take n)).Recorded) ↔ Always Call.Agrees s ops := by
  induction ops generalizing s with
  | nil => simp [Always, run, hs]
  | cons c ops ih =>
    obtain ⟨honline', hiff⟩ := h.recorded_step honline hs hops.1 hwithin.1
    have hrest : (step s c).Recorded →
        ((∀ n, (run (step s c) (ops.take n)).Recorded) ↔ Always Call.Agrees (step s c) ops) := fun hs' =>
      ih (h.step_ok hops.1) honline' hs' hops.2 hwithin.2
    constructor
    · intro hall
      have hs' : (step s c).Recorded := hall 1
      exact ⟨hiff.mp hs', (hrest hs').mp fun n => hall (n + 1)⟩
    · rintro ⟨hc, hops'⟩ n
      cases n with
      | zero => exact hs
      | succ n => exact (hrest (hiff.mpr hc)).mpr hops' n

/-- From any state the CPU can come to in which the record is right, with whatever groups throttled,
    it stays right through calls that throttle no group exactly if each of them agrees with the
    root. -/
theorem recorded_iff_agrees (hinit : Initial s) {cs ops : List Call} (hcs : ValidRun s cs)
    (honline : (run s cs).online = true) (hstart : (run s cs).Recorded) (hops : ValidRun (run s cs) ops)
    (hwithin : Always Call.Within (run s cs) ops) :
    (∀ n, (run (run s cs) (ops.take n)).Recorded) ↔ Always Call.Agrees (run s cs) ops :=
  (hinit.inv.run_ok hcs).recorded_run honline hstart hops hwithin

/-- A task of the root, of the given priority. -/
def rootTask (prio : Nat) : task_struct where
  prio := prio
  normal_prio := prio
  nr_cpus_allowed := 1
  cpus_allowed := [0]
  rt_rq := []
  rt_class := true
  on_cpu := false

/-- The group `[0]` is throttled with a task in it. -/
def throttleGroup : List Call :=
  [.enqueue_task_rt 1 false, .update_curr_rt (fun _ => 20) 30]

/-- A task of the root comes, one of the throttled group comes and goes, and the first one goes. -/
def besideThrottled : List Call :=
  [.set_task 3 (rootTask 7), .enqueue_task_rt 3 false, .enqueue_task_rt 4 false, .dequeue_task_rt 4 (fun _ => 20) 5,
    .set_curr 3, .dequeue_task_rt 3 (fun _ => 20) 5]

theorem recorded_iff_agrees_besideThrottled :
    (run idleCpu throttleGroup).Recorded ∧
    ((∀ n, (run (run idleCpu throttleGroup) (besideThrottled.take n)).Recorded) ↔
      Always Call.Agrees (run idleCpu throttleGroup) besideThrottled) ∧
    Always Call.Agrees (run idleCpu throttleGroup) besideThrottled := by
  have hinit : Initial idleCpu := ⟨fun _ => rfl, rfl, rfl⟩
  have hcs : ValidRun idleCpu throttleGroup := by decide +kernel
  have honline : (run idleCpu throttleGroup).online = true := by decide +kernel
  have hstart : (run idleCpu throttleGroup).Recorded := by decide +kernel
  have hops : ValidRun (run idleCpu throttleGroup) besideThrottled := by decide +kernel
  have hwithin : Always Call.Within (run idleCpu throttleGroup) besideThrottled := by decide +kernel
  exact ⟨hstart, recorded_iff_agrees hinit hcs honline hstart hops hwithin, by decide +kernel⟩

/-- With a task of priority 5 in the root, one of priority 10 comes to a group. And with the group
    throttled, one of priority 3 comes to it. -/
def behindRoot : List Call :=
  [.set_task 3 (rootTask 5), .enqueue_task_rt 3 false, .enqueue_task_rt 1 false]

def intoThrottled : List Call :=
  [.set_task 5 { rootTask 3 with rt_rq := [0] }, .enqueue_task_rt 5 false]

/-- The priority recorded is that of the group, and not that of the root. -/
theorem recorded_of_group : Initial idleCpu ∧ idleCpu.online = true ∧ idleCpu.Recorded ∧
    ValidRun idleCpu behindRoot ∧ (run idleCpu (behindRoot.take 2)).Recorded ∧
    (run idleCpu behindRoot).recorded = 10 ∧ ((run idleCpu behindRoot).rt []).highest_prio_curr = 5 ∧
    ValidRun idleCpu (throttleGroup ++ intoThrottled) ∧ (run idleCpu throttleGroup).Recorded ∧
    (run idleCpu (throttleGroup ++ intoThrottled)).recorded = 3 ∧
    ((run idleCpu (throttleGroup ++ intoThrottled)).rt []).highest_prio_curr = MAX_RT_PRIO := by
  refine ⟨⟨fun _ => rfl, rfl, rfl⟩, ?_⟩
  decide +kernel

end Run

end cs444.sched_rt
