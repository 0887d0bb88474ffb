import Cs444.SchedRt.Run

open priotable

namespace cs444.sched_rt

variable {s : rq} {cpu : Option Nat} {g : task_group} {p q r idx : Nat}

section Leaf

/-- The bitmaps mark the queues in use, and a task is on the queue of its priority. -/
structure Filed (s : rq) (g : task_group) : Prop where
  marked : (s.rt g).active.Marked MAX_RT_PRIO
  prio : ∀ i < MAX_RT_PRIO, ∀ p, .task p ∈ (s.rt g).active.queue i → (s.tasks p).prio = i

theorem Inv.filed (h : Inv s) (g : task_group) : Filed s g where
  marked := (h.tidy.all g).sound.marked
  prio i _ p hp := ((h.tidy.all g).home i (.task p) hp).2.2

/-- A task of the group that may be taken to the CPU. -/
structure Movable (s : rq) (cpu : Option Nat) (g : task_group) (p : Nat) : Prop where
  queued : .task p ∈ queued s g
  pick : pick_rt_task s p cpu = true

/-- Nothing in the group has a higher priority than the task. -/
def Foremost (s : rq) (g : task_group) (p : Nat) : Prop :=
  ∀ i < (s.tasks p).prio, (s.rt g).active.queue i = []

/-- The first task on a queue that may be taken to the CPU. -/
def found_at (s : rq) (cpu : Option Nat) (array : Table sched_rt_entity) (idx : Nat) : Option Nat :=
  (array.queue idx).findSome? fun rt_se =>
    match rt_se with
    | .task p => if pick_rt_task s p cpu then some p else none
    | .group _ _ => none

/-- The priorities of a run queue that are in use. -/
abbrev bits (s : rq) (g : task_group) : List Nat :=
  (List.range MAX_RT_PRIO).filter (s.rt g).active.bitmap

theorem found_at_eq_some {array : Table sched_rt_entity} (h : found_at s cpu array idx = some p) :
    .task p ∈ array.queue idx ∧ pick_rt_task s p cpu = true := by
  obtain ⟨e, he, hfound⟩ := List.exists_of_findSome?_eq_some h
  cases e with
  | group i parent => cases hfound
  | task q =>
    by_cases hpick : pick_rt_task s q cpu = true
    · obtain rfl : q = p := by simpa [hpick] using hfound
      exact ⟨he, hpick⟩
    · simp [hpick] at hfound

theorem found_at_ne_none {array : Table sched_rt_entity} (hp : .task p ∈ array.queue idx)
    (hpick : pick_rt_task s p cpu = true) : ∃ q, found_at s cpu array idx = some q := by
  rw [← Option.isSome_iff_exists, found_at, List.findSome?_isSome_iff]
  exact ⟨.task p, hp, by simp [hpick]⟩

theorem Filed.bit_of_movable (h : Filed s g) (hp : Movable s cpu g p) :
    (s.tasks p).prio ∈ bits s g ∧ .task p ∈ (s.rt g).active.queue (s.tasks p).prio := by
  obtain ⟨i, hi, hmem⟩ := Table.mem_entries.mp hp.queued
  obtain rfl := h.prio i hi p hmem
  exact ⟨List.mem_filter.mpr ⟨List.mem_range.mpr hi, (h.marked _ hi).mpr (List.ne_nil_of_mem hmem)⟩, hmem⟩

/-- What is found on a queue in use is a task of that priority. -/
theorem Filed.movable_of_found (h : Filed s g) (hidx : idx ∈ bits s g)
    (hfound : found_at s cpu (s.rt g).active idx = some p) : Movable s cpu g p ∧ (s.tasks p).prio = idx := by
  obtain ⟨hmem, hpick⟩ := found_at_eq_some hfound
  have hlt := List.mem_range.mp (List.mem_filter.mp hidx).1
  exact ⟨⟨Table.mem_entries.mpr ⟨idx, hlt, hmem⟩, hpick⟩, h.prio idx hlt p hmem⟩

theorem Filed.found_of_movable (h : Filed s g) (hp : Movable s cpu g p) :
    ∃ q, found_at s cpu (s.rt g).active (s.tasks p).prio = some q :=
  found_at_ne_none (h.bit_of_movable hp).2 hp.pick

/-- What is of the first priority in use has nothing before it. -/
theorem Filed.first_bit {rest : List Nat} (h : Filed s g) (hbits : bits s g = idx :: rest) :
    ∀ i < idx, (s.rt g).active.queue i = [] := by
  have hfirst : (s.rt g).active.first MAX_RT_PRIO = idx := by
    have hhead : (bits s g).head? = some idx := by rw [hbits, List.head?_cons]
    rw [Table.first, ← List.head?_filter, hhead, Option.getD_some]
  exact hfirst ▸ h.marked.least.before

end Leaf

section Search

/-- One leaf in the search, with the task found so far. -/
def search_leaf (s : rq) (cpu : Option Nat) (next : Option Nat) (g : task_group) : Option Nat :=
  next_idx s cpu (s.rt g).active (bits s g) next

theorem pick_next_highest_task_rt_eq (s : rq) (cpu : Option Nat) :
    pick_next_highest_task_rt s cpu = s.leaf_rt_rq_list.foldl (search_leaf s cpu) none :=
  rfl

/-- As long as no task has been found, all priorities in use are looked at. -/
theorem next_idx_none (s : rq) (cpu : Option Nat) (array : Table sched_rt_entity) (idxs : List Nat) :
    next_idx s cpu array idxs none = idxs.findSome? (found_at s cpu array) := by
  induction idxs with
  | nil => rfl
  | cons idx idxs ih =>
    rw [next_idx, List.findSome?_cons, ← ih]
    simp only [Option.any_none, Bool.false_eq_true, if_false]
    split
    · rename_i p hp
      have hfound : found_at s cpu array idx = some p := hp
      rw [hfound]
    · rename_i heq
      cases heq
    · rename_i hnone _
      have hfound : found_at s cpu array idx = none := hnone
      rw [hfound]

/-- Once a task has been found, only the first priority in use is. -/
theorem next_idx_some (s : rq) (cpu : Option Nat) (array : Table sched_rt_entity) (idx : Nat) (idxs : List Nat) (q : Nat) :
    next_idx s cpu array (idx :: idxs) (some q) =
      if (s.tasks q).prio < idx then some q else some ((found_at s cpu array idx).getD q) := by
  rw [next_idx]
  simp only [Option.any_some, decide_eq_true_eq]
  split
  · rfl
  split
  · rename_i p hp
    have hfound : found_at s cpu array idx = some p := hp
    rw [hfound, Option.getD_some]
  · rename_i p hnone heq
    have hfound : found_at s cpu array idx = none := hnone
    rw [hfound, Option.getD_none, Option.some.inj heq]
  · rename_i heq
    cases heq

theorem Filed.search_none (h : Filed s g) (cpu : Option Nat) : search_leaf s cpu none g = none ↔ ∀ p, ¬ Movable s cpu g p := by
  rw [search_leaf, next_idx_none, List.findSome?_eq_none_iff]
  constructor
  · intro hnone p hp
    obtain ⟨q, hq⟩ := h.found_of_movable hp
    exact Option.some_ne_none q (hq.symm.trans (hnone _ (h.bit_of_movable hp).1))
  · intro hnone idx hidx
    by_contra hsome
    obtain ⟨p, hp⟩ := Option.ne_none_iff_exists'.mp hsome
    exact hnone p (h.movable_of_found hidx hp).1

/-- The first task found in a leaf has the highest priority there. -/
theorem Filed.search_first (h : Filed s g) (hfound : search_leaf s cpu none g = some p) :
    Movable s cpu g p ∧ ∀ q, Movable s cpu g q → (s.tasks p).prio ≤ (s.tasks q).prio := by
  rw [search_leaf, next_idx_none] at hfound
  obtain ⟨before, idx, after, hbits, hat, hbefore⟩ := List.findSome?_eq_some_iff.mp hfound
  have hidx : idx ∈ bits s g := by
    rw [hbits]
    exact List.mem_append_right _ List.mem_cons_self
  obtain ⟨hp, hprio⟩ := h.movable_of_found hidx hat
  refine ⟨hp, fun q hq => ?_⟩
  -- The priorities in use are looked at in order, and there was nothing at those before.
  have horder : (bits s g).Pairwise (· < ·) := List.pairwise_lt_range.filter _
  rw [hbits, List.pairwise_append, List.pairwise_cons] at horder
  have hmem := (h.bit_of_movable hq).1
  rw [hbits, List.mem_append, List.mem_cons] at hmem
  rw [hprio]
  obtain hmem | heq | hmem := hmem
  · obtain ⟨r, hr⟩ := h.found_of_movable hq
    exact absurd (hbefore _ hmem) (by simp [hr])
  · exact heq.ge
  · exact (horder.2.1.1 _ hmem).le

/-- With a task found before, a leaf changes it only for one that is foremost there. -/
theorem Filed.search_next (h : Filed s g) (cpu : Option Nat) (q : Nat) :
    ∃ r, search_leaf s cpu (some q) g = some r ∧ (s.tasks r).prio ≤ (s.tasks q).prio ∧
      (r = q ∨ Movable s cpu g r ∧ Foremost s g r) ∧
      ∀ p, Movable s cpu g p → Foremost s g p → (s.tasks r).prio ≤ (s.tasks p).prio := by
  rw [search_leaf]
  cases hbits : bits s g with
  | nil =>
    refine ⟨q, rfl, le_refl _, .inl rfl, fun p hp _ => ?_⟩
    have hmem := (h.bit_of_movable hp).1
    rw [hbits] at hmem
    exact absurd hmem List.not_mem_nil
  | cons idx rest =>
    have hidx : idx ∈ bits s g := hbits ▸ List.mem_cons_self
    have hfirst := h.first_bit hbits
    have hleast : ∀ p, Movable s cpu g p → idx ≤ (s.tasks p).prio := by
      intro p hp
      by_contra hlt
      have hmem := (h.bit_of_movable hp).2
      rw [hfirst _ (Nat.not_le.mp hlt)] at hmem
      exact absurd hmem List.not_mem_nil
    rw [next_idx_some]
    by_cases hlt : (s.tasks q).prio < idx
    · rw [if_pos hlt]
      exact ⟨q, rfl, le_refl _, .inl rfl, fun p hp _ => hlt.le.trans (hleast p hp)⟩
    · rw [if_neg hlt]
      cases hfound : found_at s cpu (s.rt g).active idx with
      | some r =>
        obtain ⟨hr, hprio⟩ := h.movable_of_found hidx hfound
        refine ⟨r, rfl, hprio.le.trans (Nat.not_lt.mp hlt), .inr ⟨hr, ?_⟩, fun p hp _ => hprio.le.trans (hleast p hp)⟩
        rw [Foremost, hprio]
        exact hfirst
      | none =>
        refine ⟨q, rfl, le_refl _, .inl rfl, fun p hp hforemost => ?_⟩
        -- A foremost task would be at the first priority in use, where nothing was found.
        have hused : (s.rt g).active.queue idx ≠ [] := by
          obtain ⟨hrange, hbit⟩ := List.mem_filter.mp hidx
          exact (h.marked idx (List.mem_range.mp hrange)).mp hbit
        obtain hlt | heq := (hleast p hp).lt_or_eq
        · exact absurd (hforemost idx hlt) hused
        · obtain ⟨r, hr⟩ := h.found_of_movable hp
          rw [← heq, hfound] at hr
          cases hr

end Search

section Walk

variable {gs : List task_group}

/-- The leaves after one in which a task was found. -/
theorem walk_next (h : ∀ g ∈ gs, Filed s g) (cpu : Option Nat) (q : Nat) :
    ∃ r, gs.foldl (search_leaf s cpu) (some q) = some r ∧ (s.tasks r).prio ≤ (s.tasks q).prio ∧
      (r = q ∨ ∃ g ∈ gs, Movable s cpu g r ∧ Foremost s g r) ∧
      ∀ g ∈ gs, ∀ p, Movable s cpu g p → Foremost s g p → (s.tasks r).prio ≤ (s.tasks p).prio := by
  induction gs generalizing q with
  | nil => exact ⟨q, rfl, le_refl _, .inl rfl, fun g hg => absurd hg List.not_mem_nil⟩
  | cons g gs ih =>
    obtain ⟨c, hc, hcq, hcin, hcle⟩ := (h g List.mem_cons_self).search_next cpu q
    obtain ⟨r, hr, hrc, hrin, hrle⟩ := ih (fun x hx => h x (List.mem_cons_of_mem g hx)) c
    refine ⟨r, by rw [List.foldl_cons, hc, hr], hrc.trans hcq, ?_, fun x hx p hp hforemost => ?_⟩
    · obtain rfl | ⟨x, hx, hfound⟩ := hrin
      · obtain rfl | hfound := hcin
        · exact .inl rfl
        · exact .inr ⟨g, List.mem_cons_self, hfound⟩
      · exact .inr ⟨x, List.mem_cons_of_mem g hx, hfound⟩
    · obtain rfl | hx := List.mem_cons.mp hx
      · exact hrc.trans (hcle p hp hforemost)
      · exact hrle x hx p hp hforemost

theorem walk_none (h : ∀ g ∈ gs, Filed s g) :
    gs.foldl (search_leaf s cpu) none = none ↔ ∀ g ∈ gs, ∀ p, ¬ Movable s cpu g p := by
  induction gs with
  | nil => exact iff_of_true rfl fun g hg => absurd hg List.not_mem_nil
  | cons g gs ih =>
    have hrest : ∀ x ∈ gs, Filed s x := fun x hx => h x (List.mem_cons_of_mem g hx)
    have hhere := (h g List.mem_cons_self).search_none cpu
    rw [List.foldl_cons, List.forall_mem_cons]
    cases hg : search_leaf s cpu none g with
    | none => rw [ih hrest, and_iff_right (hhere.mp hg)]
    | some q =>
      obtain ⟨r, hr, -⟩ := walk_next hrest cpu q
      rw [hr]
      refine iff_of_false (by simp) fun hnone => ?_
      exact absurd (hhere.mpr hnone.1) (by simp [hg])

/-- Where the task that is returned was found: in the first leaf with one to take, or foremost in
    its leaf. -/
theorem walk_some (h : ∀ g ∈ gs, Filed s g) (hr : gs.foldl (search_leaf s cpu) none = some r) :
    ∃ before g after, gs = before ++ g :: after ∧ Movable s cpu g r ∧
      ((∀ x ∈ before, ∀ q, ¬ Movable s cpu x q) ∨ Foremost s g r) := by
  induction gs with
  | nil => cases hr
  | cons g gs ih =>
    have hrest : ∀ x ∈ gs, Filed s x := fun x hx => h x (List.mem_cons_of_mem g hx)
    have hhere := h g List.mem_cons_self
    rw [List.foldl_cons] at hr
    cases hg : search_leaf s cpu none g with
    | none =>
      rw [hg] at hr
      obtain ⟨before, x, after, rfl, hmovable, hwhere⟩ := ih hrest hr
      refine ⟨g :: before, x, after, rfl, hmovable, hwhere.imp_left fun hbefore => ?_⟩
      exact List.forall_mem_cons.mpr ⟨(hhere.search_none cpu).mp hg, hbefore⟩
    | some q =>
      obtain ⟨r', hr', -, hin, -⟩ := walk_next hrest cpu q
      obtain rfl : r' = r := by
        rw [hg, hr'] at hr
        exact Option.some.inj hr
      obtain rfl | ⟨x, hx, hmovable, hforemost⟩ := hin
      · exact ⟨[], g, gs, rfl, (hhere.search_first hg).1, .inl fun x hx => absurd hx List.not_mem_nil⟩
      · obtain ⟨before, after, rfl⟩ := List.append_of_mem hx
        exact ⟨g :: before, x, after, rfl, hmovable, .inr hforemost⟩

/-- The walk returns nothing of a lower priority than a task it cannot miss. -/
theorem walk_le {before after : List task_group} (h : ∀ x ∈ before ++ g :: after, Filed s x)
    (hp : Movable s cpu g p) (hwhere : (∀ x ∈ before, ∀ q, ¬ Movable s cpu x q) ∨ Foremost s g p) :
    ∃ r, (before ++ g :: after).foldl (search_leaf s cpu) none = some r ∧ (s.tasks r).prio ≤ (s.tasks p).prio := by
  have hbefore : ∀ x ∈ before, Filed s x := fun x hx => h x (List.mem_append_left _ hx)
  have hhere : Filed s g := h g (List.mem_append_right _ List.mem_cons_self)
  have hafter : ∀ x ∈ after, Filed s x := fun x hx => h x (List.mem_append_right _ (List.mem_cons_of_mem g hx))
  obtain ⟨c, hc, hle⟩ : ∃ c, search_leaf s cpu (before.foldl (search_leaf s cpu) none) g = some c ∧
      (s.tasks c).prio ≤ (s.tasks p).prio := by
    cases hfound : before.foldl (search_leaf s cpu) none with
    | none =>
      have hsome : search_leaf s cpu none g ≠ none := fun hnone => (hhere.search_none cpu).mp hnone p hp
      obtain ⟨c, hc⟩ := Option.ne_none_iff_exists'.mp hsome
      exact ⟨c, hc, (hhere.search_first hc).2 p hp⟩
    | some q =>
      obtain ⟨c, hc, -, -, hcle⟩ := hhere.search_next cpu q
      have hforemost : Foremost s g p := hwhere.resolve_left fun hnone =>
        absurd ((walk_none hbefore).mpr hnone) (by simp [hfound])
      exact ⟨c, hc, hcle p hp hforemost⟩
  obtain ⟨r, hr, hrc, -⟩ := walk_next hafter cpu c
  exact ⟨r, by rw [List.foldl_append, List.foldl_cons, hc, hr], hrc.trans hle⟩

end Walk

section Result

/-- No task of a leaf that may be taken to the CPU has a higher priority. -/
def Highest (s : rq) (cpu : Option Nat) (p : Nat) : Prop :=
  ∀ g ∈ s.leaf_rt_rq_list, ∀ q, Movable s cpu g q → (s.tasks p).prio ≤ (s.tasks q).prio

/-- What `pick_next_highest_task_rt` is to return. -/
def IsHighest (s : rq) (cpu : Option Nat) : Option Nat → Prop
  | none => ∀ g ∈ s.leaf_rt_rq_list, ∀ p, ¬ Movable s cpu g p
  | some p => (∃ g ∈ s.leaf_rt_rq_list, Movable s cpu g p) ∧ Highest s cpu p

/-- If there is a task to take at all, one of the highest priority is in the first leaf that has any,
    or has nothing before it in its own. -/
def InSight (s : rq) (cpu : Option Nat) : Prop :=
  (∀ g ∈ s.leaf_rt_rq_list, ∀ p, ¬ Movable s cpu g p) ∨
    ∃ before g after p, s.leaf_rt_rq_list = before ++ g :: after ∧ Movable s cpu g p ∧ Highest s cpu p ∧
      ((∀ x ∈ before, ∀ q, ¬ Movable s cpu x q) ∨ Foremost s g p)

/-- `pick_next_highest_task_rt` returns no task just when there is none to take, and what it returns
    may be taken. It is of the highest priority just when such a task is in sight: once a task has been
    found, the leaves that follow are searched no further than their first priority in use. -/
theorem pick_next_highest_task_rt_iff {s : rq} (cpu : Option Nat) (h : ∀ g ∈ s.leaf_rt_rq_list, Filed s g) :
    (pick_next_highest_task_rt s cpu = none ↔ ∀ g ∈ s.leaf_rt_rq_list, ∀ p, ¬ Movable s cpu g p) ∧
      (∀ p, pick_next_highest_task_rt s cpu = some p → ∃ g ∈ s.leaf_rt_rq_list, Movable s cpu g p) ∧
      (IsHighest s cpu (pick_next_highest_task_rt s cpu) ↔ InSight s cpu) := by
  rw [pick_next_highest_task_rt_eq]
  have hin : ∀ p, s.leaf_rt_rq_list.foldl (search_leaf s cpu) none = some p →
      ∃ g ∈ s.leaf_rt_rq_list, Movable s cpu g p := by
    intro p hp
    obtain ⟨before, g, after, hlist, hmovable, -⟩ := walk_some h hp
    exact ⟨g, hlist ▸ List.mem_append_right _ List.mem_cons_self, hmovable⟩
  refine ⟨walk_none h, hin, ?_⟩
  cases hwalk : s.leaf_rt_rq_list.foldl (search_leaf s cpu) none with
  | none => exact iff_of_true ((walk_none h).mp hwalk) (.inl ((walk_none h).mp hwalk))
  | some r =>
    constructor
    · rintro ⟨-, hhighest⟩
      obtain ⟨before, g, after, hlist, hmovable, hwhere⟩ := walk_some h hwalk
      exact .inr ⟨before, g, after, r, hlist, hmovable, hhighest, hwhere⟩
    · rintro (hnone | ⟨before, g, after, p, hlist, hp, hhighest, hwhere⟩)
      · exact absurd ((walk_none h).mpr hnone) (by simp [hwalk])
      · obtain ⟨r', hr', hle⟩ := walk_le (hlist ▸ h) hp hwhere
        obtain rfl : r' = r := by
          rw [← hlist, hwalk] at hr'
          exact (Option.some.inj hr').symm
        exact ⟨hin r' hwalk, fun x hx q hq => hle.trans (hhighest x hx q hq)⟩

/-- Three tasks in two groups. The one with the highest priority is running and may run nowhere else. -/
def pinnedAhead : rq :=
  { idleCpu with
    tasks := fun p =>
      { prio := if p = 1 then 10 else if p = 2 then 20 else 50
        normal_prio := if p = 1 then 10 else if p = 2 then 20 else 50
        nr_cpus_allowed := if p = 1 then 1 else 2
        cpus_allowed := if p = 1 then [0] else [0, 1]
        rt_rq := if p = 3 then [1] else [0]
        rt_class := true
        on_cpu := decide (p = 1) } }

/-- The two tasks that may run elsewhere. The group that is searched last has the one of the higher priority. -/
def twoTasks : List Call :=
  [.enqueue_task_rt 2 false, .enqueue_task_rt 3 false]

/-- The task of the higher priority has nothing before it in its group. -/
theorem twoTasks_inSight : InSight (run pinnedAhead twoTasks) (some 1) := by
  have hleaves : (run pinnedAhead twoTasks).leaf_rt_rq_list = [[1], [], [0]] := by decide +kernel
  have hmovable : Movable (run pinnedAhead twoTasks) (some 1) [0] 2 := ⟨by decide +kernel, by decide +kernel⟩
  have hqueued : ∀ g ∈ (run pinnedAhead twoTasks).leaf_rt_rq_list, ∀ e ∈ queued (run pinnedAhead twoTasks) g,
      e ∈ [.task 2, .task 3, .group 0 [], .group 1 []] := by
    decide +kernel
  have hprio : ((run pinnedAhead twoTasks).tasks 2).prio ≤ ((run pinnedAhead twoTasks).tasks 3).prio := by
    decide +kernel
  have hforemost : Foremost (run pinnedAhead twoTasks) [0] 2 := by
    rw [Foremost]
    decide +kernel
  refine .inr ⟨[[1], []], [0], [], 2, hleaves, hmovable, fun g hg q hq => ?_, .inr hforemost⟩
  obtain rfl | rfl : q = 2 ∨ q = 3 := by simpa using hqueued g hg (.task q) hq.queued
  · exact Nat.le_refl _
  · exact hprio

theorem pick_next_highest_task_rt_iff_twoTasks :
    (∀ g ∈ (run pinnedAhead twoTasks).leaf_rt_rq_list, Filed (run pinnedAhead twoTasks) g) ∧
      InSight (run pinnedAhead twoTasks) (some 1) ∧
      pick_next_highest_task_rt (run pinnedAhead twoTasks) (some 1) = some 2 ∧
      IsHighest (run pinnedAhead twoTasks) (some 1) (some 2) := by
  have hinit : Initial pinnedAhead := ⟨fun _ => rfl, rfl, rfl⟩
  have hcs : ValidRun pinnedAhead twoTasks := by decide +kernel
  have hpick : pick_next_highest_task_rt (run pinnedAhead twoTasks) (some 1) = some 2 := by decide +kernel
  have hfiled : ∀ g ∈ (run pinnedAhead twoTasks).leaf_rt_rq_list, Filed (run pinnedAhead twoTasks) g :=
    fun g _ => (hinit.inv.run_ok hcs).filed g
  obtain ⟨-, -, hiff⟩ := pick_next_highest_task_rt_iff (some 1) hfiled
  rw [hpick] at hiff
  exact ⟨hfiled, twoTasks_inSight, hpick, hiff.mpr twoTasks_inSight⟩

/-- In `pinnedAhead` the tasks of the group that is searched last come first. -/
def threeTasks : List Call :=
  [.enqueue_task_rt 1 false, .enqueue_task_rt 2 false, .enqueue_task_rt 3 false]

/-- Task 3 is returned for the other CPU, although task 2 may go there too and has a higher priority:
    behind the running task of its group it is not seen. -/
theorem pick_next_highest_task_rt_misses : Initial pinnedAhead ∧ ValidRun pinnedAhead threeTasks ∧
    pick_next_highest_task_rt (run pinnedAhead threeTasks) (some 1) = some 3 ∧
    [0] ∈ (run pinnedAhead threeTasks).leaf_rt_rq_list ∧ Movable (run pinnedAhead threeTasks) (some 1) [0] 2 ∧
    ((run pinnedAhead threeTasks).tasks 2).prio < ((run pinnedAhead threeTasks).tasks 3).prio ∧
    ¬ IsHighest (run pinnedAhead threeTasks) (some 1)
      (pick_next_highest_task_rt (run pinnedAhead threeTasks) (some 1)) := by
  have hpick : pick_next_highest_task_rt (run pinnedAhead threeTasks) (some 1) = some 3 := by decide +kernel
  have hleaf : [0] ∈ (run pinnedAhead threeTasks).leaf_rt_rq_list := by decide +kernel
  have hmovable : Movable (run pinnedAhead threeTasks) (some 1) [0] 2 := ⟨by decide +kernel, by decide +kernel⟩
  have hprio : ((run pinnedAhead threeTasks).tasks 2).prio < ((run pinnedAhead threeTasks).tasks 3).prio := by
    decide +kernel
  refine ⟨⟨fun _ => rfl, rfl, rfl⟩, by decide +kernel, hpick, hleaf, hmovable, hprio, ?_⟩
  rw [hpick]
  exact fun hhighest => absurd (hhighest.2 [0] hleaf 2 hmovable) (Nat.not_le.mpr hprio)

end Result

end cs444.sched_rt
