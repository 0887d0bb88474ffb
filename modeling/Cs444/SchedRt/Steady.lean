import Cs444.SchedRt.Groups
import Mathlib.Data.Set.Card

open Function priotable

namespace cs444.sched_rt

variable {s s' s'' : rq} {e : sched_rt_entity} {g : task_group} {p : Nat} {head : Bool}

section Kept

/-- All that the class keeps for the tasks of the CPU together is the same, but for which of them
    are queued. -/
structure Kept (s s' : rq) : Prop where
  cpu : s'.cpu = s.cpu
  online : s'.online = s.online
  curr : s'.curr = s.curr
  tasks : s'.tasks = s.tasks
  total : (s'.smp []).rt_nr_total = (s.smp []).rt_nr_total
  migratory : (s'.smp []).rt_nr_migratory = (s.smp []).rt_nr_migratory
  overloaded : (s'.smp []).overloaded = (s.smp []).overloaded
  pushable : (s'.smp []).pushable_tasks = (s.smp []).pushable_tasks
  mask : s'.rd.rto_mask = s.rd.rto_mask
  count : s'.rd.rto_count = s.rd.rto_count

theorem Kept.refl (s : rq) : Kept s s :=
  ⟨rfl, rfl, rfl, rfl, rfl, rfl, rfl, rfl, rfl, rfl⟩

theorem Kept.trans (h : Kept s s') (h' : Kept s' s'') : Kept s s'' where
  cpu := h'.cpu.trans h.cpu
  online := h'.online.trans h.online
  curr := h'.curr.trans h.curr
  tasks := h'.tasks.trans h.tasks
  total := h'.total.trans h.total
  migratory := h'.migratory.trans h.migratory
  overloaded := h'.overloaded.trans h.overloaded
  pushable := h'.pushable.trans h.pushable
  mask := h'.mask.trans h.mask
  count := h'.count.trans h.count

/-- The same tasks are queued in the same groups. -/
def SameTasks (s s' : rq) : Prop :=
  ∀ g p, .task p ∈ queued s' g ↔ .task p ∈ queued s g

/-- Nothing has changed for the tasks. Groups may have been taken off their queues or put on. -/
structure Steady (s s' : rq) : Prop extends Kept s s' where
  queued : SameTasks s s'

theorem Steady.refl (s : rq) : Steady s s :=
  ⟨.refl s, fun _ _ => Iff.rfl⟩

theorem Steady.trans (h : Steady s s') (h' : Steady s' s'') : Steady s s'' :=
  ⟨h.toKept.trans h'.toKept, fun g p => (h'.queued g p).trans (h.queued g p)⟩

theorem Steady.of_rt (h : Kept s s') (hrt : s'.rt = s.rt) : Steady s s' :=
  ⟨h, fun g p => by rw [sched_rt.queued, hrt]⟩

end Kept

section Primitives

theorem kept_set (s : rq) (g : task_group) (r : rt_rq) : Kept s (s.set g r) :=
  ⟨rfl, rfl, rfl, rfl, rfl, rfl, rfl, rfl, rfl, rfl⟩

theorem steady_set (r : rt_rq)
    (h : ∀ p, .task p ∈ r.active.entries MAX_RT_PRIO ↔ .task p ∈ queued s g) : Steady s (s.set g r) := by
  refine ⟨kept_set s g r, fun g' p => ?_⟩
  obtain rfl | hne := eq_or_ne g' g
  · rw [queued, set_rt_self]
    exact h p
  · rw [queued, set_rt_of_ne r hne]

theorem steady_set_next (s : rq) (g : task_group) (prio : Nat) :
    Steady s (s.set_smp g { s.smp g with highest_prio_next := prio }) := by
  refine .of_rt ?_ rfl
  obtain rfl | hne := eq_or_ne g []
  · constructor <;> simp [rq.set_smp]
  · constructor <;> simp [rq.set_smp, update_of_ne hne.symm]

theorem steady_warn_on (s : rq) (c : Bool) (w : Warning) : Steady s (WARN_ON s c w) := by
  rw [WARN_ON]
  split
  · exact .of_rt ⟨rfl, rfl, rfl, rfl, rfl, rfl, rfl, rfl, rfl, rfl⟩ rfl
  · exact .refl s

theorem steady_cpupri_set (s : rq) (prio : Nat) : Steady s (cpupri_set s prio) :=
  .of_rt ⟨rfl, rfl, rfl, rfl, rfl, rfl, rfl, rfl, rfl, rfl⟩ rfl

theorem steady_resched_task (s : rq) (p : Nat) : Steady s (resched_task s p) :=
  .of_rt ⟨rfl, rfl, rfl, rfl, rfl, rfl, rfl, rfl, rfl, rfl⟩ rfl

theorem steady_list_add_leaf (s : rq) (g : task_group) : Steady s (list_add_leaf_rt_rq s g) :=
  .of_rt ⟨rfl, rfl, rfl, rfl, rfl, rfl, rfl, rfl, rfl, rfl⟩ rfl

theorem steady_list_del_leaf (s : rq) (g : task_group) : Steady s (list_del_leaf_rt_rq s g) :=
  .of_rt ⟨rfl, rfl, rfl, rfl, rfl, rfl, rfl, rfl, rfl, rfl⟩ rfl

theorem steady_ite {c : Prop} [Decidable c] {a b : rq} (ha : Steady s a) (hb : Steady s b) :
    Steady s (if c then a else b) := by
  split
  · exact ha
  · exact hb

theorem steady_foldl {es : List sched_rt_entity} {f : rq → sched_rt_entity → rq}
    (hf : ∀ s, ∀ e ∈ es, Steady s (f s e)) : Steady s (es.foldl f s) := by
  induction es generalizing s with
  | nil => exact .refl s
  | cons e es ih =>
    exact (hf s e List.mem_cons_self).trans (ih fun s e he => hf s e (List.mem_cons_of_mem _ he))

end Primitives

section Priorities

theorem steady_inc_rt_prio_smp (s : rq) (g : task_group) (prio prev_prio : Nat) :
    Steady s (inc_rt_prio_smp s g prio prev_prio) := by
  simp only [inc_rt_prio_smp]
  refine steady_ite (steady_ite ?_ ?_) (steady_ite ?_ (steady_ite ?_ (.refl s)))
  · exact (steady_set_next s g _).trans (steady_cpupri_set _ _)
  · exact steady_set_next s g _
  · exact steady_set_next s g _
  · exact steady_set_next s g _

theorem steady_dec_rt_prio_smp (s : rq) (g : task_group) (prio prev_prio : Nat) :
    Steady s (dec_rt_prio_smp s g prio prev_prio) := by
  have hnext : Steady s (if (s.rt g).rt_nr_running ≠ 0 ∧ prio ≤ (s.smp g).highest_prio_next then
      s.set_smp g { s.smp g with highest_prio_next := next_prio s } else s) :=
    steady_ite (steady_set_next s g _) (.refl s)
  exact steady_ite (hnext.trans (steady_cpupri_set _ _)) hnext

theorem steady_inc_rt_prio (s : rq) (g : task_group) (prio : Nat) : Steady s (inc_rt_prio s g prio) := by
  refine .trans ?_ (steady_inc_rt_prio_smp _ g _ _)
  exact steady_ite (steady_set _ fun _ => Iff.rfl) (.refl s)

theorem steady_dec_rt_prio (s : rq) (g : task_group) (prio : Nat) : Steady s (dec_rt_prio s g prio) := by
  refine .trans ?_ (steady_dec_rt_prio_smp _ g _ _)
  refine steady_ite ?_ (steady_set _ fun _ => Iff.rfl)
  exact steady_ite ((steady_warn_on s _ _).trans (steady_set _ fun _ => Iff.rfl)) (steady_warn_on s _ _)

theorem steady_inc_rt_group (s : rq) (e : sched_rt_entity) (g : task_group) : Steady s (inc_rt_group s e g) :=
  steady_ite (steady_set _ fun _ => Iff.rfl) (.refl s)

theorem steady_dec_rt_group (s : rq) (e : sched_rt_entity) (g : task_group) : Steady s (dec_rt_group s e g) := by
  refine .trans ?_ (steady_warn_on _ _ _)
  exact steady_ite (steady_set _ fun _ => Iff.rfl) (.refl s)

end Priorities

section Migration

/-- The CPU belongs in the mask of overloaded CPUs. -/
def rq.overload (s : rq) : Bool := s.online && (s.smp []).overloaded

/-- The mask and the count of overloaded CPUs have followed the CPU. -/
structure Followed (s s' : rq) : Prop where
  cpu : s'.cpu = s.cpu
  mask : s.rd.rto_mask s.cpu = s.overload → s'.rd.rto_mask = update s.rd.rto_mask s.cpu s'.overload
  count : s'.rd.rto_count - s'.overload.toNat = s.rd.rto_count - s.overload.toNat

theorem Kept.overload_eq (h : Kept s s') : s'.overload = s.overload := by
  rw [rq.overload, rq.overload, h.online, h.overloaded]

theorem Kept.followed (h : Kept s s') : Followed s s' := by
  refine ⟨h.cpu, fun hmask => ?_, by rw [h.count, h.overload_eq]⟩
  rw [h.mask, h.overload_eq, ← hmask, update_eq_self]

theorem Followed.of_same (hcpu : s'.cpu = s.cpu) (honline : s'.online = s.online)
    (hover : (s'.smp []).overloaded = (s.smp []).overloaded) (hrd : s'.rd = s.rd) : Followed s s' := by
  have hoverload : s'.overload = s.overload := by rw [rq.overload, rq.overload, honline, hover]
  refine ⟨hcpu, fun hmask => ?_, by rw [hrd, hoverload]⟩
  rw [hrd, hoverload, ← hmask, update_eq_self]

theorem Followed.trans (h : Followed s s') (h' : Followed s' s'') : Followed s s'' := by
  refine ⟨h'.cpu.trans h.cpu, fun hmask => ?_, h'.count.trans h.count⟩
  have hnow := h.mask hmask
  have hmask' : s'.rd.rto_mask s'.cpu = s'.overload := by rw [hnow, h.cpu, update_self]
  rw [h'.mask hmask', hnow, h.cpu, update_idem]

/-- Only the overload of the CPU has changed, and it is what the counters say. -/
structure Updated (s s' : rq) : Prop where
  cpu : s'.cpu = s.cpu
  online : s'.online = s.online
  curr : s'.curr = s.curr
  tasks : s'.tasks = s.tasks
  rt : s'.rt = s.rt
  total : (s'.smp []).rt_nr_total = (s.smp []).rt_nr_total
  migratory : (s'.smp []).rt_nr_migratory = (s.smp []).rt_nr_migratory
  pushable : (s'.smp []).pushable_tasks = (s.smp []).pushable_tasks
  overloaded : (s'.smp []).overloaded = true ↔ (s.smp []).rt_nr_migratory ≠ 0 ∧ (s.smp []).rt_nr_total > 1
  followed : Followed s s'

/-- Setting the flag to what the counters say, with the mask and the count changed along with it
    on an online CPU. -/
theorem updated_overloaded {o : Bool} {rd : root_domain}
    (hcond : o = true ↔ (s.smp []).rt_nr_migratory ≠ 0 ∧ (s.smp []).rt_nr_total > 1)
    (hmask : rd.rto_mask = if s.online then update s.rd.rto_mask s.cpu o else s.rd.rto_mask)
    (hcount : rd.rto_count =
      if s.online then s.rd.rto_count + o.toNat - (s.smp []).overloaded.toNat else s.rd.rto_count) :
    Updated s ({ s with rd }.set_smp [] { s.smp [] with overloaded := o }) := by
  refine ⟨rfl, rfl, rfl, rfl, rfl, by simp [rq.set_smp], by simp [rq.set_smp], by simp [rq.set_smp],
    by simpa [rq.set_smp] using hcond, rfl, fun hbefore => ?_, ?_⟩
  · cases honline : s.online with
    | false =>
      simp only [rq.overload, rq.set_smp, honline, Bool.false_and] at hbefore ⊢
      rw [hmask, honline, if_neg Bool.false_ne_true, ← hbefore, update_eq_self]
    | true => simp [rq.overload, rq.set_smp, honline, hmask]
  · cases honline : s.online with
    | false => simp [rq.overload, rq.set_smp, honline, hcount]
    | true =>
      simp only [rq.overload, rq.set_smp, honline, hcount, update_self, Bool.true_and, if_true]
      omega

theorem rt_set_overload_eq (s : rq) : rt_set_overload s = { s with rd := (rt_set_overload s).rd } := by
  rw [rt_set_overload]
  split <;> rfl

theorem rt_clear_overload_eq (s : rq) : rt_clear_overload s = { s with rd := (rt_clear_overload s).rd } := by
  rw [rt_clear_overload]
  split <;> rfl

theorem Updated.of_same (h : (s.smp []).overloaded = true ↔
    (s.smp []).rt_nr_migratory ≠ 0 ∧ (s.smp []).rt_nr_total > 1) : Updated s s :=
  ⟨rfl, rfl, rfl, rfl, rfl, rfl, rfl, rfl, h, (Kept.refl s).followed⟩

theorem updated_update_rt_migration (s : rq) : Updated s (update_rt_migration s) := by
  simp only [update_rt_migration]
  cases hover : (s.smp []).overloaded with
  | false =>
    split
    · rename_i hcond
      simp only [Bool.not_false, if_true]
      rw [rt_set_overload_eq]
      apply updated_overloaded
      · simp [hcond]
      · cases honline : s.online <;> simp [rt_set_overload, honline]
      · cases honline : s.online <;> simp [rt_set_overload, honline, hover]
    · rename_i hcond
      exact .of_same (by simp [hover, hcond])
  | true =>
    split
    · rename_i hcond
      exact .of_same (by simp [hover, hcond])
    · rename_i hcond
      simp only [if_true]
      rw [rt_clear_overload_eq]
      apply updated_overloaded
      · simp [hcond]
      · cases honline : s.online <;> simp [rt_clear_overload, honline]
      · cases honline : s.online <;> simp [rt_clear_overload, honline, hover]

/-- A task has been counted in, or out with `n = -1`. -/
structure Recounted (s s' : rq) (p : Nat) (n : Int) : Prop where
  cpu : s'.cpu = s.cpu
  online : s'.online = s.online
  curr : s'.curr = s.curr
  tasks : s'.tasks = s.tasks
  total : (s'.smp []).rt_nr_total = (s.smp []).rt_nr_total + n
  migratory : (s'.smp []).rt_nr_migratory =
    (s.smp []).rt_nr_migratory + if (s.tasks p).nr_cpus_allowed > 1 then n else 0
  pushable : (s'.smp []).pushable_tasks = (s.smp []).pushable_tasks
  overloaded : (s'.smp []).overloaded = true ↔ (s'.smp []).rt_nr_migratory ≠ 0 ∧ (s'.smp []).rt_nr_total > 1
  followed : Followed s s'

theorem recounted_add_rt_migration (s : rq) (p : Nat) (n : Int) :
    Recounted s (add_rt_migration s (.task p) n) p n := by
  have hupdated := updated_update_rt_migration (s.set_smp [] { s.smp [] with
    rt_nr_total := (s.smp []).rt_nr_total + n
    rt_nr_migratory := if (s.tasks p).nr_cpus_allowed > 1 then (s.smp []).rt_nr_migratory + n
      else (s.smp []).rt_nr_migratory })
  refine ⟨hupdated.cpu, hupdated.online, hupdated.curr, hupdated.tasks, ?_, ?_, ?_, ?_, ?_⟩
  · exact hupdated.total.trans (by simp [rq.set_smp])
  · refine hupdated.migratory.trans ?_
    simp only [rq.set_smp, update_self]
    split
    · rfl
    · rw [Int.add_zero]
  · exact hupdated.pushable.trans (by simp [rq.set_smp])
  · refine hupdated.overloaded.trans ?_
    rw [← hupdated.migratory, ← hupdated.total]
    exact Iff.rfl
  · refine .trans ?_ hupdated.followed
    exact .of_same rfl rfl (by simp [rq.set_smp]) rfl

theorem sameTasks_add_rt_migration (s : rq) (e : sched_rt_entity) (n : Int) :
    SameTasks s (add_rt_migration s e n) := fun g p => by
  rw [queued, (sameCore_add_rt_migration s e n).rt]

theorem Recounted.of_kept {n : Int} {a b : rq} (ha : Kept s a) (h : Recounted a b p n) (hb : Kept b s') :
    Recounted s s' p n where
  cpu := hb.cpu.trans (h.cpu.trans ha.cpu)
  online := hb.online.trans (h.online.trans ha.online)
  curr := hb.curr.trans (h.curr.trans ha.curr)
  tasks := hb.tasks.trans (h.tasks.trans ha.tasks)
  total := by rw [hb.total, h.total, ha.total]
  migratory := by rw [hb.migratory, h.migratory, ha.migratory, ha.tasks]
  pushable := hb.pushable.trans (h.pushable.trans ha.pushable)
  overloaded := by
    rw [hb.overloaded, hb.migratory, hb.total]
    exact h.overloaded
  followed := (ha.followed.trans h.followed).trans hb.followed

end Migration

section Entities

/-- What `inc_rt_tasks` does before and after it counts a task. -/
theorem inc_rt_tasks_split (s : rq) (e : sched_rt_entity) (g : task_group) :
    ∃ a, Steady s a ∧ Steady (inc_rt_migration a e) (inc_rt_tasks s e g) := by
  refine ⟨_, ?_, steady_inc_rt_group _ e g⟩
  refine .trans ?_ (steady_inc_rt_prio _ g _)
  exact (steady_warn_on s _ _).trans (steady_set _ fun _ => Iff.rfl)

theorem dec_rt_tasks_split (s : rq) (e : sched_rt_entity) (g : task_group) :
    ∃ a, Steady s a ∧ Steady (dec_rt_migration a e) (dec_rt_tasks s e g) := by
  refine ⟨_, ?_, steady_dec_rt_group _ e g⟩
  refine .trans ?_ (steady_dec_rt_prio _ g _)
  exact ((steady_warn_on s _ _).trans (steady_warn_on _ _ _)).trans (steady_set _ fun _ => Iff.rfl)

theorem enqueue_split (s : rq) (e : sched_rt_entity) (head : Bool) (hskipped : skipped s e = false) :
    ∃ a, Kept s a ∧
      (∀ g p, .task p ∈ queued a g ↔ .task p ∈ queued s g ∨
        (g = rt_rq_of_se s e ∧ .task p = e ∧ rt_se_prio s e < MAX_RT_PRIO)) ∧
      Steady (inc_rt_migration a e) (__enqueue_rt_entity s e head) := by
  simp only [__enqueue_rt_entity, hskipped, Bool.false_eq_true, if_false]
  set g := rt_rq_of_se s e
  have hleaf : Steady s (if (s.rt g).rt_nr_running = 0 then list_add_leaf_rt_rq s g else s) :=
    steady_ite (steady_list_add_leaf s g) (.refl s)
  set s₁ := if (s.rt g).rt_nr_running = 0 then list_add_leaf_rt_rq s g else s
  set s₂ := s₁.set g { s₁.rt g with active := (s₁.rt g).active.put head (rt_se_prio s e) e } with hs₂
  obtain ⟨a, hbefore, hafter⟩ := inc_rt_tasks_split s₂ e g
  refine ⟨a, (hleaf.toKept.trans (kept_set _ _ _)).trans hbefore.toKept, fun g' p => ?_, hafter⟩
  rw [hbefore.queued g' p, ← hleaf.queued g' p, hs₂]
  obtain rfl | hne := eq_or_ne g' g
  · rw [queued, set_rt_self, queued, Table.mem_entries, Table.mem_entries]
    simp only [Table.mem_queue_put]
    constructor
    · rintro ⟨i, hi, hin | ⟨rfl, heq⟩⟩
      · exact .inl ⟨i, hi, hin⟩
      · exact .inr ⟨trivial, heq, hi⟩
    · rintro (⟨i, hi, hin⟩ | ⟨-, heq, hi⟩)
      · exact ⟨i, hi, .inl hin⟩
      · exact ⟨_, hi, .inr ⟨rfl, heq⟩⟩
  · rw [queued, set_rt_of_ne _ hne]
    simp [hne]

theorem dequeue_split (s : rq) (e : sched_rt_entity) :
    ∃ a, Kept s a ∧
      (∀ g p, .task p ∈ queued a g ↔ .task p ∈ queued s g ∧ ¬ (g = rt_rq_of_se s e ∧ .task p = e)) ∧
      Steady (dec_rt_migration a e) (__dequeue_rt_entity s e) := by
  simp only [__dequeue_rt_entity]
  set g := rt_rq_of_se s e
  set s₁ := s.set g { s.rt g with active := (s.rt g).active.take (rt_se_prio s e) e } with hs₁
  obtain ⟨a, hbefore, hafter⟩ := dec_rt_tasks_split s₁ e g
  refine ⟨a, (kept_set _ _ _).trans hbefore.toKept, fun g' p => ?_, ?_⟩
  · rw [hbefore.queued g' p, hs₁]
    obtain rfl | hne := eq_or_ne g' g
    · rw [queued, set_rt_self, Table.entries_take]
      simp
    · rw [queued, set_rt_of_ne _ hne]
      simp [hne]
  · exact hafter.trans (steady_ite (steady_list_del_leaf _ _) (.refl _))

theorem steady_enqueue_group (s : rq) (i : Nat) (parent : task_group) (head : Bool) :
    Steady s (__enqueue_rt_entity s (.group i parent) head) := by
  cases hskipped : skipped s (.group i parent) with
  | true =>
    have hs : __enqueue_rt_entity s (.group i parent) head = s := by simp [__enqueue_rt_entity, hskipped]
    rw [hs]
    exact .refl s
  | false =>
    obtain ⟨a, hkept, hqueued, hafter⟩ := enqueue_split s (.group i parent) head hskipped
    have hbefore : Steady s a := ⟨hkept, fun g p => by simp [hqueued g p]⟩
    exact hbefore.trans hafter

theorem steady_dequeue_group (s : rq) (i : Nat) (parent : task_group) :
    Steady s (__dequeue_rt_entity s (.group i parent)) := by
  obtain ⟨a, hkept, hqueued, hafter⟩ := dequeue_split s (.group i parent)
  have hbefore : Steady s a := ⟨hkept, fun g p => by simp [hqueued g p]⟩
  exact hbefore.trans hafter

theorem recounted_enqueue (s : rq) (p : Nat) (head : Bool) :
    Recounted s (__enqueue_rt_entity s (.task p) head) p 1 := by
  obtain ⟨a, hkept, -, hafter⟩ := enqueue_split s (.task p) head rfl
  exact .of_kept hkept (recounted_add_rt_migration a p 1) hafter.toKept

theorem recounted_dequeue (s : rq) (p : Nat) : Recounted s (__dequeue_rt_entity s (.task p)) p (-1) := by
  obtain ⟨a, hkept, -, hafter⟩ := dequeue_split s (.task p)
  exact .of_kept hkept (recounted_add_rt_migration a p (-1)) hafter.toKept

theorem mem_enqueue (hprio : (s.tasks p).prio < MAX_RT_PRIO) (head : Bool) (g : task_group) (q : Nat) :
    .task q ∈ queued (__enqueue_rt_entity s (.task p) head) g ↔
      .task q ∈ queued s g ∨ (g = (s.tasks p).rt_rq ∧ q = p) := by
  obtain ⟨a, -, hqueued, hafter⟩ := enqueue_split s (.task p) head rfl
  have hcounted : SameTasks a (inc_rt_migration a (.task p)) := sameTasks_add_rt_migration a _ 1
  rw [hafter.queued g q, hcounted g q, hqueued g q]
  simp [rt_rq_of_se, rt_se_prio, hprio]

theorem mem_dequeue (g : task_group) (q : Nat) :
    .task q ∈ queued (__dequeue_rt_entity s (.task p)) g ↔
      .task q ∈ queued s g ∧ ¬ (g = (s.tasks p).rt_rq ∧ q = p) := by
  obtain ⟨a, -, hqueued, hafter⟩ := dequeue_split s (.task p)
  have hcounted : SameTasks a (dec_rt_migration a (.task p)) := sameTasks_add_rt_migration a _ (-1)
  rw [hafter.queued g q, hcounted g q, hqueued g q]
  simp [rt_rq_of_se]

end Entities

section Groups

theorem eq_group_of_mem_ancestors (h : e ∈ ancestors g) : ∃ i parent, e = .group i parent := by
  induction g with
  | nil => exact absurd h List.not_mem_nil
  | cons i parent ih =>
    obtain rfl | h := List.mem_cons.mp h
    · exact ⟨i, parent, rfl⟩
    · exact ih h

theorem steady_dequeue_if_on_group (s : rq) (i : Nat) (parent : task_group) :
    Steady s (dequeue_if_on s (.group i parent)) :=
  steady_ite (steady_dequeue_group s i parent) (.refl s)

theorem steady_enqueue_if_group (s : rq) (i : Nat) (parent : task_group) :
    Steady s (enqueue_if_group s (.group i parent)) :=
  steady_ite (steady_enqueue_group s i parent false) (.refl s)

theorem steady_dequeue_ancestors (s : rq) (g : task_group) :
    Steady s ((ancestors g).reverse.foldl dequeue_if_on s) := by
  refine steady_foldl fun s e he => ?_
  obtain ⟨i, parent, rfl⟩ := eq_group_of_mem_ancestors (List.mem_reverse.mp he)
  exact steady_dequeue_if_on_group s i parent

theorem steady_enqueue_ancestors (s : rq) (g : task_group) (head : Bool) :
    Steady s ((ancestors g).foldl (fun s e => __enqueue_rt_entity s e head) s) := by
  refine steady_foldl fun s e he => ?_
  obtain ⟨i, parent, rfl⟩ := eq_group_of_mem_ancestors he
  exact steady_enqueue_group s i parent head

theorem steady_enqueue_if_ancestors (s : rq) (g : task_group) :
    Steady s ((ancestors g).foldl enqueue_if_group s) := by
  refine steady_foldl fun s e he => ?_
  obtain ⟨i, parent, rfl⟩ := eq_group_of_mem_ancestors he
  exact steady_enqueue_if_group s i parent

theorem steady_enqueue_rt_entity_group (s : rq) (i : Nat) (parent : task_group) (head : Bool) :
    Steady s (enqueue_rt_entity s (.group i parent) head) :=
  (steady_dequeue_ancestors s (i :: parent)).trans (steady_enqueue_ancestors _ (i :: parent) head)

theorem steady_dequeue_rt_entity_group (s : rq) (i : Nat) (parent : task_group) :
    Steady s (dequeue_rt_entity s (.group i parent)) :=
  (steady_dequeue_ancestors s (i :: parent)).trans (steady_enqueue_if_ancestors _ (i :: parent))

end Groups

section Throttle

variable (borrow : task_group → Nat)

theorem steady_sched_rt_rq_enqueue (s : rq) (g : task_group) : Steady s (sched_rt_rq_enqueue s g) := by
  cases g with
  | nil => exact steady_ite (steady_ite (steady_resched_task _ _) (.refl s)) (.refl s)
  | cons i parent =>
    have hentity : Steady s (if !on_rt_rq s (.group i parent) then enqueue_rt_entity s (.group i parent) false else s) :=
      steady_ite (steady_enqueue_rt_entity_group s i parent false) (.refl s)
    exact steady_ite (steady_ite (hentity.trans (steady_resched_task _ _)) hentity) (.refl s)

theorem steady_sched_rt_rq_dequeue (s : rq) (g : task_group) : Steady s (sched_rt_rq_dequeue s g) := by
  cases g with
  | nil => exact .refl s
  | cons i parent => exact steady_ite (steady_dequeue_rt_entity_group s i parent) (.refl s)

theorem steady_balance_runtime (s : rq) (g : task_group) : Steady s (balance_runtime borrow s g) :=
  steady_ite (steady_set _ fun _ => Iff.rfl) (.refl s)

theorem steady_sched_rt_runtime_exceeded (s : rq) (g : task_group) :
    Steady s (sched_rt_runtime_exceeded borrow s g).1 := by
  have hbalance := steady_balance_runtime borrow s g
  simp only [sched_rt_runtime_exceeded]
  split
  · exact .refl s
  split
  · exact .refl s
  split
  · exact hbalance
  split
  · have hset := hbalance.trans (steady_set { (balance_runtime borrow s g).rt g with rt_throttled := true }
      fun _ => Iff.rfl)
    split
    · exact hset.trans (steady_sched_rt_rq_dequeue _ g)
    · exact hset
  · exact hbalance

theorem steady_account (delta_exec : Nat) (s : rq) (g : task_group) : Steady s (account borrow delta_exec s g) := by
  simp only [account]
  split
  · have hexceeded := (steady_set { s.rt g with rt_time := u64 ((s.rt g).rt_time + delta_exec) }
      fun _ => Iff.rfl).trans (steady_sched_rt_runtime_exceeded borrow _ g)
    split
    · exact hexceeded.trans (steady_resched_task _ _)
    · exact hexceeded
  · exact .refl s

theorem steady_account_all (delta_exec : Nat) (s : rq) (gs : List task_group) :
    Steady s (gs.foldl (account borrow delta_exec) s) := by
  induction gs generalizing s with
  | nil => exact .refl s
  | cons g gs ih => exact (steady_account borrow delta_exec s g).trans (ih _)

theorem steady_update_curr_rt (delta_exec : Nat) (s : rq) : Steady s (update_curr_rt borrow delta_exec s) :=
  steady_ite (.refl s) (steady_ite (.refl s) (steady_account_all borrow delta_exec s _))

theorem steady_do_sched_rt_period_timer (overrun : Nat) (s : rq) (g : task_group) :
    Steady s (do_sched_rt_period_timer borrow overrun s g).1 := by
  simp only [do_sched_rt_period_timer]
  split
  · exact .refl s
  split
  · have hbalance : Steady s (if (s.rt g).rt_throttled then balance_runtime borrow s g else s) :=
      steady_ite (steady_balance_runtime borrow s g) (.refl s)
    set s₁ := if (s.rt g).rt_throttled then balance_runtime borrow s g else s
    set rt_time := (s₁.rt g).rt_time - min (s₁.rt g).rt_time (u64 (overrun * (s₁.rt g).rt_runtime))
    have htime := hbalance.trans (steady_set { s₁.rt g with rt_time } fun _ => Iff.rfl)
    split
    · refine .trans ?_ (steady_sched_rt_rq_enqueue _ g)
      have hunthrottled := htime.trans (steady_set { (s₁.set g { s₁.rt g with rt_time }).rt g with
        rt_throttled := false } fun _ => Iff.rfl)
      refine steady_ite ?_ hunthrottled
      exact hunthrottled.trans (.of_rt ⟨rfl, rfl, rfl, rfl, rfl, rfl, rfl, rfl, rfl, rfl⟩ rfl)
    · exact htime
  split
  · split
    · exact steady_sched_rt_rq_enqueue s g
    · exact .refl s
  · exact .refl s

end Throttle

section Counting

variable {α : Type} {P P' : α → Prop} {a : α}

/-- One element more. -/
theorem ncard_with (hfinite : {x | P x}.Finite) (hnew : ¬ P a) (h : ∀ x, P' x ↔ P x ∨ x = a) :
    {x | P' x}.Finite ∧ {x | P' x}.ncard = {x | P x}.ncard + 1 := by
  have hset : {x | P' x} = insert a {x | P x} := by
    ext x
    simp [h, or_comm]
  have hnotMem : a ∉ {x | P x} := hnew
  rw [hset]
  exact ⟨hfinite.insert a, Set.ncard_insert_of_notMem hnotMem hfinite⟩

/-- One element less. -/
theorem ncard_without (hfinite : {x | P x}.Finite) (ha : P a) (h : ∀ x, P' x ↔ P x ∧ x ≠ a) :
    {x | P' x}.Finite ∧ {x | P' x}.ncard + 1 = {x | P x}.ncard := by
  have hset : {x | P' x} = {x | P x} \ {a} := by
    ext x
    simp [h]
  have hmem : a ∈ {x | P x} := ha
  rw [hset]
  exact ⟨hfinite.sdiff, Set.ncard_sdiff_singleton_add_one hmem hfinite⟩

theorem ncard_congr (h : ∀ x, P' x ↔ P x) : {x | P' x}.ncard = {x | P x}.ncard := by
  simp only [h]

end Counting

section Tallied

/-- The task is queued on the CPU, in whichever group. -/
def Queued (s : rq) (p : Nat) : Prop := ∃ g, .task p ∈ queued s g

/-- The task is queued on the CPU and may run on another one. -/
def Migratory (s : rq) (p : Nat) : Prop := Queued s p ∧ (s.tasks p).nr_cpus_allowed > 1

/-- The counters of the root run queue are right for the tasks queued on the CPU, which stand in
    their groups. -/
structure Tallied (s : rq) : Prop where
  home : ∀ g p, .task p ∈ queued s g → (s.tasks p).rt_rq = g ∧ (s.tasks p).prio < MAX_RT_PRIO
  finite : {p | Queued s p}.Finite
  total : (s.smp []).rt_nr_total = {p | Queued s p}.ncard
  migratory : (s.smp []).rt_nr_migratory = {p | Migratory s p}.ncard
  overloaded : (s.smp []).overloaded = true ↔ (s.smp []).rt_nr_migratory ≠ 0 ∧ (s.smp []).rt_nr_total > 1

theorem Tallied.finite_migratory (h : Tallied s) : {p | Migratory s p}.Finite :=
  h.finite.subset fun _ hp => And.left hp

theorem SameTasks.queued_iff (h : SameTasks s s') (p : Nat) : Queued s' p ↔ Queued s p :=
  exists_congr fun g => h g p

theorem Tallied.queued_iff (h : Tallied s) : Queued s p ↔ .task p ∈ queued s (s.tasks p).rt_rq := by
  refine ⟨fun ⟨g, hg⟩ => ?_, fun hp => ⟨_, hp⟩⟩
  rw [(h.home g p hg).1]
  exact hg

theorem Tallied.on_rt_rq (h : Tallied s) : on_rt_rq s (.task p) = true ↔ Queued s p := by
  rw [on_rt_rq_iff, h.queued_iff]
  rfl

theorem Steady.tallied (h : Steady s s') (hs : Tallied s) : Tallied s' := by
  have hqueued := h.queued.queued_iff
  refine ⟨fun g p hp => ?_, ?_, ?_, ?_, ?_⟩
  · rw [h.tasks]
    exact hs.home g p ((h.queued g p).mp hp)
  · simp only [hqueued]
    exact hs.finite
  · rw [h.total, ncard_congr hqueued]
    exact hs.total
  · have hmigratory : ∀ p, Migratory s' p ↔ Migratory s p := fun p => by
      rw [Migratory, Migratory, hqueued, h.tasks]
    rw [h.migratory, ncard_congr hmigratory]
    exact hs.migratory
  · rw [h.overloaded, h.migratory, h.total]
    exact hs.overloaded

/-- Taking a queued task out. -/
theorem Tallied.dequeue (h : Tallied s) (hp : Queued s p) :
    Tallied (__dequeue_rt_entity s (.task p)) ∧
      ∀ q, Queued (__dequeue_rt_entity s (.task p)) q ↔ Queued s q ∧ q ≠ p := by
  have hre := recounted_dequeue s p
  have hqueued : ∀ q, Queued (__dequeue_rt_entity s (.task p)) q ↔ Queued s q ∧ q ≠ p := by
    intro q
    simp only [Queued, mem_dequeue]
    constructor
    · rintro ⟨g, hq, hnot⟩
      refine ⟨⟨g, hq⟩, ?_⟩
      rintro rfl
      exact hnot ⟨(h.home g q hq).1.symm, rfl⟩
    · rintro ⟨⟨g, hq⟩, hne⟩
      exact ⟨g, hq, fun hand => hne hand.2⟩
  have hmigratory : ∀ q, Migratory (__dequeue_rt_entity s (.task p)) q ↔ Migratory s q ∧ q ≠ p := fun q => by
    rw [Migratory, Migratory, hqueued, hre.tasks, and_right_comm]
  obtain ⟨hfinite, htotal⟩ := ncard_without h.finite hp hqueued
  refine ⟨⟨fun g q hq => ?_, hfinite, ?_, ?_, hre.overloaded⟩, hqueued⟩
  · rw [hre.tasks]
    exact h.home g q ((mem_dequeue g q).mp hq).1
  · rw [hre.total, h.total]
    omega
  · rw [hre.migratory, h.migratory]
    by_cases hmany : (s.tasks p).nr_cpus_allowed > 1
    · obtain ⟨-, hcard⟩ := ncard_without h.finite_migratory ⟨hp, hmany⟩ hmigratory
      rw [if_pos hmany]
      omega
    · have hsame : ∀ q, Migratory (__dequeue_rt_entity s (.task p)) q ↔ Migratory s q := fun q => by
        refine (hmigratory q).trans (and_iff_left_of_imp ?_)
        rintro hq rfl
        exact hmany hq.2
      rw [if_neg hmany, Int.add_zero, ncard_congr hsame]

/-- Putting in a task that is not queued. -/
theorem Tallied.enqueue (h : Tallied s) (hp : ¬ Queued s p) (hprio : (s.tasks p).prio < MAX_RT_PRIO) (head : Bool) :
    Tallied (__enqueue_rt_entity s (.task p) head) ∧
      ∀ q, Queued (__enqueue_rt_entity s (.task p) head) q ↔ Queued s q ∨ q = p := by
  have hre := recounted_enqueue s p head
  have hmem := mem_enqueue hprio head
  have hqueued : ∀ q, Queued (__enqueue_rt_entity s (.task p) head) q ↔ Queued s q ∨ q = p := by
    intro q
    simp only [Queued, hmem, exists_or, exists_eq_left]
  have hmigratory : ∀ q, Migratory (__enqueue_rt_entity s (.task p) head) q ↔
      Migratory s q ∨ (q = p ∧ (s.tasks q).nr_cpus_allowed > 1) := fun q => by
    rw [Migratory, Migratory, hqueued, hre.tasks, or_and_right]
  obtain ⟨hfinite, htotal⟩ := ncard_with h.finite hp hqueued
  refine ⟨⟨fun g q hq => ?_, hfinite, ?_, ?_, hre.overloaded⟩, hqueued⟩
  · rw [hre.tasks]
    obtain hq | ⟨rfl, rfl⟩ := (hmem g q).mp hq
    · exact h.home g q hq
    · exact ⟨rfl, hprio⟩
  · rw [hre.total, h.total]
    omega
  · rw [hre.migratory, h.migratory]
    by_cases hmany : (s.tasks p).nr_cpus_allowed > 1
    · have hmore : ∀ q, Migratory (__enqueue_rt_entity s (.task p) head) q ↔ Migratory s q ∨ q = p := fun q => by
        refine (hmigratory q).trans (or_congr Iff.rfl (and_iff_left_of_imp ?_))
        rintro rfl
        exact hmany
      obtain ⟨-, hcard⟩ := ncard_with h.finite_migratory (fun hin => hp hin.1) hmore
      rw [if_pos hmany]
      omega
    · have hsame : ∀ q, Migratory (__enqueue_rt_entity s (.task p) head) q ↔ Migratory s q := fun q => by
        refine (hmigratory q).trans (or_iff_left ?_)
        rintro ⟨rfl, hq⟩
        exact hmany hq
      rw [if_neg hmany, Int.add_zero, ncard_congr hsame]

end Tallied

section Tasks

/-- A task has been put in or taken out; nothing else has changed for the tasks. -/
structure Turned (s s' : rq) (p : Nat) (now : Prop) : Prop where
  tallied : Tallied s'
  here : Queued s' p ↔ now
  others : ∀ q, q ≠ p → (Queued s' q ↔ Queued s q)
  online : s'.online = s.online
  curr : s'.curr = s.curr
  tasks : s'.tasks = s.tasks
  pushable : (s'.smp []).pushable_tasks = (s.smp []).pushable_tasks
  followed : Followed s s'

variable {now : Prop}

theorem Turned.of_steady {a b : rq} (ha : Steady s a) (h : Turned a b p now) (hb : Steady b s') :
    Turned s s' p now where
  tallied := hb.tallied h.tallied
  here := (hb.queued.queued_iff p).trans h.here
  others q hq := ((hb.queued.queued_iff q).trans (h.others q hq)).trans (ha.queued.queued_iff q)
  online := hb.online.trans (h.online.trans ha.online)
  curr := hb.curr.trans (h.curr.trans ha.curr)
  tasks := hb.tasks.trans (h.tasks.trans ha.tasks)
  pushable := hb.pushable.trans (h.pushable.trans ha.pushable)
  followed := (ha.toKept.followed.trans h.followed).trans hb.toKept.followed

theorem Tallied.dequeue_if_on (h : Tallied s) (p : Nat) : Turned s (dequeue_if_on s (.task p)) p False := by
  rw [sched_rt.dequeue_if_on]
  split
  · rename_i hon
    have hre := recounted_dequeue s p
    obtain ⟨htallied, hqueued⟩ := h.dequeue (h.on_rt_rq.mp hon)
    refine ⟨htallied, ?_, fun q hq => ?_, hre.online, hre.curr, hre.tasks, hre.pushable, hre.followed⟩
    · simp [hqueued]
    · simp [hqueued, hq]
  · rename_i hon
    rw [h.on_rt_rq] at hon
    exact ⟨h, iff_of_false hon id, fun _ _ => Iff.rfl, rfl, rfl, rfl, rfl, (Kept.refl s).followed⟩

theorem Tallied.enqueue_task (h : Tallied s) (hp : ¬ Queued s p) (hprio : (s.tasks p).prio < MAX_RT_PRIO)
    (head : Bool) : Turned s (__enqueue_rt_entity s (.task p) head) p True := by
  have hre := recounted_enqueue s p head
  obtain ⟨htallied, hqueued⟩ := h.enqueue hp hprio head
  refine ⟨htallied, ?_, fun q hq => ?_, hre.online, hre.curr, hre.tasks, hre.pushable, hre.followed⟩
  · simp [hqueued]
  · simp [hqueued, hq]

theorem Tallied.dequeue_rt_stack (h : Tallied s) (p : Nat) : Turned s (dequeue_rt_stack s (.task p)) p False := by
  rw [sched_rt.dequeue_rt_stack, for_each_sched_rt_entity, List.reverse_cons, List.foldl_append, List.foldl_cons,
    List.foldl_nil]
  have hgroups := steady_dequeue_ancestors s (s.tasks p).rt_rq
  exact .of_steady hgroups ((hgroups.tallied h).dequeue_if_on p) (.refl _)

theorem Tallied.dequeue_rt_entity (h : Tallied s) (p : Nat) : Turned s (dequeue_rt_entity s (.task p)) p False := by
  rw [sched_rt.dequeue_rt_entity, for_each_sched_rt_entity, List.foldl_cons]
  exact .of_steady (.refl s) (h.dequeue_rt_stack p) (steady_enqueue_if_ancestors _ _)

theorem Tallied.enqueue_rt_entity (h : Tallied s) (hprio : (s.tasks p).prio < MAX_RT_PRIO) (head : Bool) :
    Turned s (enqueue_rt_entity s (.task p) head) p True := by
  rw [sched_rt.enqueue_rt_entity, for_each_sched_rt_entity, List.foldl_cons]
  have hout := h.dequeue_rt_stack p
  have hin := hout.tallied.enqueue_task (fun hp => hout.here.mp hp) (by rwa [hout.tasks]) head
  have hback : Turned s (__enqueue_rt_entity (sched_rt.dequeue_rt_stack s (.task p)) (.task p) head) p True :=
    ⟨hin.tallied, hin.here, fun q hq => (hin.others q hq).trans (hout.others q hq), hin.online.trans hout.online,
      hin.curr.trans hout.curr, hin.tasks.trans hout.tasks, hin.pushable.trans hout.pushable,
      hout.followed.trans hin.followed⟩
  exact .of_steady (.refl s) hback (steady_enqueue_ancestors _ _ head)

theorem Tallied.requeue_rt_entity (h : Tallied s) (e : sched_rt_entity) (head : Bool) :
    Steady s (requeue_rt_entity s e head) := by
  simp only [sched_rt.requeue_rt_entity]
  split
  · rename_i hon
    refine steady_set _ fun q => ?_
    rw [queued, Table.mem_entries, Table.mem_entries]
    simp only [Table.mem_queue_move, Table.mem_unlink]
    constructor
    · rintro ⟨i, hi, ⟨hq, -⟩ | ⟨-, rfl⟩⟩
      · exact ⟨i, hi, hq⟩
      · exact Table.mem_entries.mp (on_rt_rq_iff.mp hon)
    · rintro ⟨i, hi, hq⟩
      by_cases heq : .task q = e
      · subst heq
        exact ⟨_, (h.home _ q (on_rt_rq_iff.mp hon)).2, .inr ⟨rfl, rfl⟩⟩
      · exact ⟨i, hi, .inl ⟨hq, heq⟩⟩
  · exact .refl s

theorem Tallied.requeue_all (h : Tallied s) (es : List sched_rt_entity) (head : Bool) :
    Steady s (es.foldl (fun s e => sched_rt.requeue_rt_entity s e head) s) := by
  induction es generalizing s with
  | nil => exact .refl s
  | cons e es ih =>
    have hone := h.requeue_rt_entity e head
    exact hone.trans (ih (hone.tallied h))

end Tasks

end cs444.sched_rt
