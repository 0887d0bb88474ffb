import Cs444.SchedRt.Highest
import Cs444.SchedRt.Pushable
import Cs444.SchedRt.Tick
import Mathlib.Data.List.Rotate

open Function priotable

namespace cs444.sched_rt

set_option linter.style.nameCheck false

section Model

/-- The times that are accounted, by a tick and by the context switch that may follow, with what can be
    borrowed for them. -/
structure Charge where
  borrow : task_group → Nat
  delta_exec : Nat
  switch_borrow : task_group → Nat
  switch_exec : Nat

def clear_tsk_need_resched (rq : rq) (p : Nat) : sched_rt.rq :=
  { rq with need_resched := update rq.need_resched p false }

/-- A tick of the running task, with a context switch if it is to be rescheduled. -/
def tick (s : Ticking) (c : Charge) : Except Bug Ticking :=
  let s := task_tick_rt c.borrow c.delta_exec s s.rq.curr
  if s.rq.need_resched s.rq.curr then do
    let rq ← schedule c.switch_borrow c.switch_exec s.rq.idle s.rq
    return { s with rq := clear_tsk_need_resched rq s.rq.curr }
  else .ok s

/-- The tick does not leave the root throttled. -/
def Unthrottled (s : Ticking) (c : Charge) : Prop :=
  ∀ s', tick s c = .ok s' → rt_rq_throttled (s'.rq.rt []) = false

instance (s : Ticking) (c : Charge) : Decidable (Unthrottled s c) :=
  match h : tick s c with
  | .ok s' => decidable_of_iff (rt_rq_throttled (s'.rq.rt []) = false) (by simp [Unthrottled, h])
  | .error _ => .isTrue (by simp [Unthrottled, h])

end Model

variable {r r' : rq} {s s' : Ticking} {q : Nat → List sched_rt_entity} {i hd m : Nat} {ts : List Nat}

section Front

/-- The queues of the root, the first one in use, and the task at its head. -/
structure Front (q : Nat → List sched_rt_entity) (i hd : Nat) (r : rq) : Prop where
  inv : Inv r
  queue : (r.rt []).active.queue = q
  lt : i < MAX_RT_PRIO
  before : ∀ j < i, q j = []
  head : (q i).head? = some (.task hd)

theorem Front.mem (h : Front q i hd r) : .task hd ∈ (r.rt []).active.queue i := by
  rw [h.queue]
  exact List.mem_of_head? h.head

theorem Front.home (h : Front q i hd r) : (r.tasks hd).rt_rq = [] ∧ (r.tasks hd).prio = i :=
  ((h.inv.tidy.all []).home i (.task hd) h.mem).2

theorem Front.sameCore (h : Front q i hd r) (hcore : SameCore r r') : Front q i hd r' :=
  ⟨hcore.inv h.inv, hcore.rt ▸ h.queue, h.lt, h.before, h.head⟩

/-- Accounting the time of a task in the root leaves the queues alone. -/
theorem Front.update_curr_rt (h : Front q i hd r) (hcurr : (r.tasks r.curr).rt_rq = []) (borrow : task_group → Nat)
    (delta_exec : Nat) : Front q i hd (update_curr_rt borrow delta_exec r) := by
  have hwithin : within borrow delta_exec r := by
    intro _ _ g hg hne
    rw [hcurr, List.tails, List.mem_singleton] at hg
    exact absurd hg hne
  refine ⟨h.inv.update_curr_rt borrow delta_exec, ?_, h.lt, h.before, h.head⟩
  rw [(paced_update_curr_rt hwithin).active, h.queue]

/-- The task at the head of the first queue is picked. -/
theorem Front.pick (h : Front q i hd r) (hthrottled : rt_rq_throttled (r.rt []) = false) :
    _pick_next_task_rt r = .ok (some hd) := by
  have hsound := (h.inv.tidy.all []).sound
  have hleast : (r.rt []).active.Least MAX_RT_PRIO i :=
    ⟨h.lt.le, fun j hj => by rw [h.queue, h.before j hj], fun _ => List.ne_nil_of_mem h.mem⟩
  have hrunning := hsound.running_ne_zero.mpr (hleast.lt_iff.mp h.lt)
  obtain ⟨p, hpick, -, hturns⟩ := h.inv._pick_next_task_rt hrunning hthrottled
  have hnext : pick_next_rt_entity (r.rt []) = .ok (.task hd) := by
    have hfirst : sched_find_first_bit (r.rt []).active = i := hsound.marked.least.unique hleast
    obtain ⟨rest, hrest⟩ := List.head?_eq_some_iff.mp h.head
    rw [pick_next_rt_entity, hfirst, if_neg (Nat.not_le.mpr h.lt), h.queue, hrest]
  have hloop := hturns (r.leaf_rt_rq_list.length + 1) (Nat.le_succ _)
  rw [pick_loop, hnext] at hloop
  obtain rfl : hd = p := Except.ok.inj hloop
  exact hpick

/-- After a context switch the task at the head of the first queue runs. -/
theorem Front.schedule (h : Front q i hd r) (hcurr : (r.tasks r.curr).rt_rq = []) (borrow : task_group → Nat)
    (delta_exec next : Nat)
    (hthrottled : ∀ r', schedule borrow delta_exec next r = .ok r' → rt_rq_throttled (r'.rt []) = false) :
    ∃ r', schedule borrow delta_exec next r = .ok r' ∧ Front q i hd r' ∧ r'.curr = hd := by
  obtain ⟨r₁, hr₁⟩ : ∃ r₁, r₁ = if (r.tasks r.curr).rt_class then
      put_prev_task_rt borrow delta_exec r r.curr else r := ⟨_, rfl⟩
  have hfront : Front q i hd r₁ := by
    have hupdate := h.update_curr_rt hcurr borrow delta_exec
    rw [hr₁]
    split
    · simp only [put_prev_task_rt]
      split
      · exact hupdate.sameCore (sameCore_set_smp _ _ _)
      · exact hupdate
    · exact h
  simp only [sched_rt.schedule, ← hr₁] at hthrottled ⊢
  cases hroot : rt_rq_throttled (r₁.rt []) with
  | true =>
    -- Nothing would be picked, and the root would still be throttled.
    have hpick : pick_next_task_rt r₁ = .ok (r₁, none) := by
      simp only [pick_next_task_rt, _pick_next_task_rt, hroot, if_true, ite_self]
      rfl
    rw [hpick] at hthrottled
    have hfalse := hthrottled _ rfl
    exact Bool.noConfusion (hroot.symm.trans hfalse)
  | false =>
    have hpick : pick_next_task_rt r₁ = .ok (dequeue_pushable_task r₁ hd, some hd) := by
      rw [pick_next_task_rt, hfront.pick hroot]
      rfl
    rw [hpick]
    refine ⟨_, rfl, ⟨?_, hfront.queue, h.lt, h.before, h.head⟩, rfl⟩
    exact hfront.inv.retask_same rfl rfl rfl fun p _ => sameRole_switch r₁.tasks r.curr hd p

/-- Whatever `task_tick_rt` did, if it has left the running task at the head of the first queue or asks
    for a context switch, the task at the head runs afterwards. -/
theorem Front.tick {c : Charge} {t : Ticking} (h : Front q i hd t.rq) (hu : Unthrottled s c)
    (ht : task_tick_rt c.borrow c.delta_exec s s.rq.curr = t)
    (hcurr : t.rq.curr = hd ∨ t.rq.need_resched t.rq.curr = true) (hof : (t.rq.tasks t.rq.curr).rt_rq = []) :
    ∃ s', tick s c = .ok s' ∧ Front q i hd s'.rq ∧ s'.rq.curr = hd ∧ s'.policy = t.policy ∧
      s'.time_slice = t.time_slice := by
  rw [Unthrottled] at hu
  simp only [sched_rt.tick, ht] at hu ⊢
  by_cases hresched : t.rq.need_resched t.rq.curr = true
  · rw [if_pos hresched] at hu ⊢
    obtain ⟨r', hr', hfront, hhd⟩ := h.schedule hof c.switch_borrow c.switch_exec t.rq.idle fun r' hr' => by
      rw [hr'] at hu
      exact hu _ rfl
    rw [hr']
    exact ⟨_, rfl, hfront.sameCore ⟨rfl, rfl, rfl, rfl⟩, hhd, rfl, rfl⟩
  · rw [if_neg hresched]
    exact ⟨t, rfl, h, hcurr.resolve_right hresched, rfl, rfl⟩

end Front

section Turns

/-- The queues of the root, with the tasks on the first one turned. -/
abbrev turned (s₀ : Ticking) (i : Nat) (ts : List Nat) (k : Nat) : Nat → List sched_rt_entity :=
  update (s₀.rq.rt []).active.queue i ((ts.rotate k).map .task)

theorem turned_self (s₀ : Ticking) (i : Nat) (ts : List Nat) (k : Nat) :
    turned s₀ i ts k i = (ts.rotate k).map .task :=
  update_self _ _ _

/-- The state after `m` ticks. -/
structure Turn (s₀ : Ticking) (i : Nat) (ts : List Nat) (m : Nat) (s : Ticking) : Prop where
  front : Front (turned s₀ i ts (m / DEF_TIMESLICE)) i s.rq.curr s.rq
  policy : ∀ p ∈ ts, s.policy p = .SCHED_RR
  slice : s.time_slice s.rq.curr = DEF_TIMESLICE - m % DEF_TIMESLICE
  full : ∀ p ∈ ts, p ≠ s.rq.curr → s.time_slice p = DEF_TIMESLICE

variable {s₀ : Ticking} {k : Nat}

/-- The tasks on the first queue, from the one at the head on. -/
theorem Front.rotate_eq (h : Front (turned s₀ i ts k) i hd r) : ∃ rest, ts.rotate k = hd :: rest ∧ hd ∉ rest := by
  have hhead := h.head
  rw [turned_self, List.head?_map] at hhead
  cases hrotate : ts.rotate k with
  | nil => simp [hrotate] at hhead
  | cons p rest =>
    obtain rfl : p = hd := by simpa [hrotate] using hhead
    have hnodup : ((r.rt []).active.queue i).Nodup :=
      (List.nodup_flatMap.mp (h.inv.tidy.all []).sound.nodup).1 i (List.mem_range.mpr h.lt)
    rw [h.queue, turned_self, hrotate] at hnodup
    exact ⟨rest, rfl, (List.nodup_cons.mp hnodup.of_map).1⟩

theorem Front.mem_tasks (h : Front (turned s₀ i ts k) i hd r) : hd ∈ ts := by
  obtain ⟨rest, hrest, -⟩ := h.rotate_eq
  rw [← List.mem_rotate (n := k), hrest]
  exact List.mem_cons_self

/-- The task at the head goes to the tail, so that the queue is turned by one. -/
theorem Front.requeue (h : Front (turned s₀ i ts k) i hd r) :
    (∃ p, Front (turned s₀ i ts (k + 1)) i p (requeue_task_rt r hd false)) ∧
      (requeue_task_rt r hd false).curr = r.curr ∧ (requeue_task_rt r hd false).tasks = r.tasks := by
  obtain ⟨hof, hprio⟩ := h.home
  obtain ⟨rest, hrest, hnew⟩ := h.rotate_eq
  have hrotate : ts.rotate (k + 1) = rest ++ [hd] := by
    rw [← List.rotate_rotate, hrest, List.rotate_cons_succ, List.rotate_zero]
  have honly : (r.rt []).active.Only i (.task hd) :=
    ⟨h.mem, fun j hj => ((h.inv.tidy.all []).home j _ hj).2.2.symm.trans hprio⟩
  have hon : on_rt_rq r (.task hd) = true := (h.inv.tidy.all []).on_of_mem (Table.mem_entries.mpr ⟨i, h.lt, h.mem⟩)
  have hrequeue : requeue_task_rt r hd false =
      r.set [] { r.rt [] with active := (r.rt []).active.move false i (.task hd) } := by
    rw [requeue_task_rt, for_each_sched_rt_entity, hof, ancestors, List.foldl_cons, List.foldl_nil, requeue_rt_entity]
    simp only [hon, if_true, rt_rq_of_se, rt_se_prio, hof, hprio]
  have hfilter : (r.rt []).active.unlink (.task hd) i = rest.map .task := by
    rw [Table.unlink, h.queue, turned_self, hrest, List.map_cons, List.filter_cons_of_neg (by simp)]
    refine List.filter_eq_self.mpr fun e he => ?_
    obtain ⟨p, hp, rfl⟩ := List.mem_map.mp he
    simpa using fun heq : p = hd => hnew (heq ▸ hp)
  have hqueue : ((requeue_task_rt r hd false).rt []).active.queue = turned s₀ i ts (k + 1) := by
    rw [hrequeue, set_rt_self]
    funext j
    obtain rfl | hj := eq_or_ne j i
    · rw [turned_self, hrotate, List.map_append]
      simp [Table.move, hfilter]
    · rw [Table.queue_move_of_ne false hj, honly.unlink_of_ne hj, h.queue]
      simp only [turned, update_of_ne hj]
  obtain ⟨p, l, hcons⟩ := List.exists_cons_of_ne_nil (l := rest ++ [hd]) (by simp)
  refine ⟨⟨p, h.inv.requeue_all _ false, hqueue, h.lt, fun j hj => ?_, ?_⟩, by rw [hrequeue]; rfl,
    by rw [hrequeue]; rfl⟩
  · have hbefore := h.before j hj
    simp only [turned, update_of_ne hj.ne] at hbefore ⊢
    exact hbefore
  · rw [turned_self, hrotate, hcons, List.map_cons, List.head?_cons]

/-- A task that is alone on the first queue stays where it is. -/
theorem Front.alone (h : Front (turned s₀ i ts k) i hd r) (hshares : ¬ Shares r (.task hd)) :
    Front (turned s₀ i ts (k + 1)) i hd r := by
  obtain ⟨hof, hprio⟩ := h.home
  obtain ⟨rest, hrest, hnew⟩ := h.rotate_eq
  have hnil : rest = [] := by
    refine List.eq_nil_iff_forall_not_mem.mpr fun p hp => hshares ⟨?_, .task p, ?_, ?_⟩
    · exact (h.inv.tidy.all []).on_of_mem (Table.mem_entries.mpr ⟨i, h.lt, h.mem⟩)
    · rw [sched_rt.home, rt_rq_of_se, rt_se_prio, hof, hprio, h.queue, turned_self, hrest]
      exact List.mem_map_of_mem (List.mem_cons_of_mem hd hp)
    · intro heq
      exact hnew (sched_rt_entity.task.inj heq ▸ hp)
  have hsame : turned s₀ i ts (k + 1) = turned s₀ i ts k := by
    rw [turned, turned, ← List.rotate_rotate, hrest, hnil, List.rotate_singleton]
  rw [hsame]
  exact h

/-- The slice of the running task runs out and is filled up again. -/
theorem Turn.tick_last {c : Charge} (h : Turn s₀ i ts m s) (hu : Unthrottled s c)
    (hlast : m % DEF_TIMESLICE + 1 = DEF_TIMESLICE) : ∃ s', tick s c = .ok s' ∧ Turn s₀ i ts (m + 1) s' := by
  have hslice : DEF_TIMESLICE = 100 := rfl
  have hdiv : (m + 1) / DEF_TIMESLICE = m / DEF_TIMESLICE + 1 := by rw [hslice] at hlast ⊢; omega
  have hmod : (m + 1) % DEF_TIMESLICE = 0 := by rw [hslice] at hlast ⊢; omega
  have hhome := h.front.home
  have hcharged := h.front.update_curr_rt hhome.1 c.borrow c.delta_exec
  have hsteady := steady_update_curr_rt c.borrow c.delta_exec s.rq
  have hof : ((update_curr_rt c.borrow c.delta_exec s.rq).tasks s.rq.curr).rt_rq = [] := by
    rw [hsteady.tasks]
    exact hhome.1
  have hone : s.time_slice s.rq.curr = 1 := by rw [h.slice]; omega
  obtain ⟨hrequeue, hsame⟩ :=
    task_tick_rt_slice c.borrow c.delta_exec (h.policy _ h.front.mem_tasks) hone hcharged.inv
  have hfull : ∀ p ∈ ts, update s.time_slice s.rq.curr DEF_TIMESLICE p = DEF_TIMESLICE := by
    intro p hp
    obtain rfl | hne := eq_or_ne p s.rq.curr
    · exact update_self _ _ _
    · rw [update_of_ne hne, h.full p hp hne]
  -- Whoever runs next, all slices are full.
  have hnext : ∀ p s', Front (turned s₀ i ts (m / DEF_TIMESLICE + 1)) i p s'.rq → s'.rq.curr = p → s'.policy = s.policy →
      s'.time_slice = update s.time_slice s.rq.curr DEF_TIMESLICE → Turn s₀ i ts (m + 1) s' := by
    rintro p s' hfront rfl hpolicy htime
    refine ⟨hdiv ▸ hfront, hpolicy ▸ h.policy, ?_, fun p hp _ => htime ▸ hfull p hp⟩
    rw [htime, hmod, Nat.sub_zero]
    exact hfull _ hfront.mem_tasks
  by_cases hshares : Shares (update_curr_rt c.borrow c.delta_exec s.rq) (.task s.rq.curr)
  · obtain ⟨⟨p, hp⟩, hcurr, htasks⟩ := hcharged.requeue
    rw [hsteady.curr] at hcurr
    have hp₁ : Front (turned s₀ i ts (m / DEF_TIMESLICE + 1)) i p (set_tsk_need_resched
        (requeue_task_rt (update_curr_rt c.borrow c.delta_exec s.rq) s.rq.curr false) s.rq.curr) :=
      hp.sameCore ⟨rfl, rfl, rfl, rfl⟩
    obtain ⟨s', hs', hfront, hp', hpolicy, htime⟩ := hp₁.tick hu (hrequeue hshares) (.inr (by
      simp only [set_tsk_need_resched, hcurr, update_self])) (by
      simp only [set_tsk_need_resched, hcurr, htasks]
      exact hof)
    exact ⟨s', hs', hnext p s' hfront hp' hpolicy htime⟩
  · obtain ⟨s', hs', hfront, hp', hpolicy, htime⟩ :=
      (hcharged.alone hshares).tick hu (hsame hshares) (.inl hsteady.curr) (hsteady.curr.symm ▸ hof)
    exact ⟨s', hs', hnext _ s' hfront hp' hpolicy htime⟩

/-- One tick. -/
theorem Turn.tick {c : Charge} (h : Turn s₀ i ts m s) (hu : Unthrottled s c) :
    ∃ s', tick s c = .ok s' ∧ Turn s₀ i ts (m + 1) s' := by
  have hslice : DEF_TIMESLICE = 100 := rfl
  by_cases hlast : m % DEF_TIMESLICE + 1 = DEF_TIMESLICE
  · exact h.tick_last hu hlast
  · have hdiv : (m + 1) / DEF_TIMESLICE = m / DEF_TIMESLICE := by rw [hslice] at hlast ⊢; omega
    obtain ⟨k, hk⟩ : ∃ k, DEF_TIMESLICE - m % DEF_TIMESLICE = k + 2 ∧
        DEF_TIMESLICE - (m + 1) % DEF_TIMESLICE = k + 1 ∧ k + 2 < 2 ^ 32 := by
      refine ⟨DEF_TIMESLICE - m % DEF_TIMESLICE - 2, ?_⟩
      rw [hslice] at hlast ⊢
      omega
    have hhome := h.front.home
    have hsteady := steady_update_curr_rt c.borrow c.delta_exec s.rq
    have hleft := task_tick_rt_left c.borrow c.delta_exec (h.policy _ h.front.mem_tasks) (h.slice.trans hk.1) hk.2.2
    obtain ⟨s', hs', hfront, hp, hpolicy, htime⟩ :=
      (h.front.update_curr_rt hhome.1 c.borrow c.delta_exec).tick hu hleft (.inl hsteady.curr) (by
        rw [hsteady.tasks, hsteady.curr]
        exact hhome.1)
    replace htime : s'.time_slice = update s.time_slice s.rq.curr (k + 1) := htime
    refine ⟨s', hs', ⟨?_, hpolicy ▸ h.policy, ?_, fun p hp' hne => ?_⟩⟩
    · rw [hdiv, hp]
      exact hfront
    · rw [htime, hp, update_self, hk.2.1]
    · rw [hp] at hne
      rw [htime, update_of_ne hne, h.full p hp' hne]

end Turns

section Schedule

/-- The root has the tasks `ts` on the first of its queues in use, which is that of priority `i`, and the
    task at its head is running. -/
structure Heading (s : Ticking) (i : Nat) (ts : List Nat) : Prop where
  inv : Inv s.rq
  highest : (s.rq.rt []).highest_prio_curr = i
  queue : (s.rq.rt []).active.queue i = ts.map .task
  running : ts.head? = some s.rq.curr

/-- After `m` ticks: which task runs, what is left of the slices, and what the queues are. -/
structure Scheduled (s s' : Ticking) (i : Nat) (ts : List Nat) (m : Nat) : Prop where
  running : ts[m / DEF_TIMESLICE % ts.length]? = some s'.rq.curr
  slice : s'.time_slice s'.rq.curr = DEF_TIMESLICE - m % DEF_TIMESLICE
  full : ∀ p ∈ ts, p ≠ s'.rq.curr → s'.time_slice p = DEF_TIMESLICE
  queue : (s'.rq.rt []).active.queue i = (ts.rotate (m / DEF_TIMESLICE)).map .task
  head : (ts.rotate (m / DEF_TIMESLICE)).head? = some s'.rq.curr
  others : ∀ j, j ≠ i → (s'.rq.rt []).active.queue j = (s.rq.rt []).active.queue j

theorem Heading.front (h : Heading s i ts) : Front (s.rq.rt []).active.queue i s.rq.curr s.rq := by
  have hhead : ((s.rq.rt []).active.queue i).head? = some (.task s.rq.curr) := by
    rw [h.queue, List.head?_map, h.running, Option.map_some]
  obtain ⟨hlt, -, -⟩ := (h.inv.tidy.all []).home i _ (List.mem_of_head? hhead)
  exact ⟨h.inv, rfl, hlt, fun j hj => (h.inv.tidy.all []).sound.least.before j (h.highest ▸ hj), hhead⟩

theorem Heading.turn (h : Heading s i ts) (hts : ∀ p ∈ ts, s.policy p = .SCHED_RR ∧ s.time_slice p = DEF_TIMESLICE) :
    Turn s i ts 0 s := by
  have hsame : turned s i ts 0 = (s.rq.rt []).active.queue := by
    rw [turned, List.rotate_zero, ← h.queue, update_eq_self]
  refine ⟨?_, fun p hp => (hts p hp).1, (hts _ (List.mem_of_head? h.running)).2, fun p hp _ => (hts p hp).2⟩
  rw [Nat.zero_div, hsame]
  exact h.front

theorem Turn.run {s₀ : Ticking} {cs : List Charge} (h : Turn s₀ i ts m s)
    (hcs : checked.ValidRun sched_rt.tick Unthrottled s cs) :
    ∃ s', checked.run sched_rt.tick s cs = .ok s' ∧ Turn s₀ i ts (m + cs.length) s' := by
  induction cs generalizing s m with
  | nil => exact ⟨s, rfl, h⟩
  | cons c cs ih =>
    obtain ⟨s₁, hc, hs₁⟩ := h.tick hcs.1
    obtain ⟨s', hrun, hs'⟩ := ih hs₁ (hcs.2 s₁ hc)
    refine ⟨s', ?_, ?_⟩
    · rw [checked.run, hc]
      exact hrun
    · rw [List.length_cons, Nat.add_comm cs.length, ← Nat.add_assoc]
      exact hs'

theorem Turn.scheduled {s₀ : Ticking} (h : Turn s₀ i ts m s) : Scheduled s₀ s i ts m := by
  have hqueue : (s.rq.rt []).active.queue i = (ts.rotate (m / DEF_TIMESLICE)).map .task := by
    rw [h.front.queue, turned_self]
  have hhead : (ts.rotate (m / DEF_TIMESLICE)).head? = some s.rq.curr := by
    obtain ⟨rest, hrest, -⟩ := h.front.rotate_eq
    rw [hrest, List.head?_cons]
  refine ⟨?_, h.slice, h.full, hqueue, hhead, fun j hj => ?_⟩
  · rw [← List.head?_rotate (Nat.mod_lt _ (List.length_pos_of_mem h.front.mem_tasks)), List.rotate_mod, hhead]
  · rw [h.front.queue, turned, update_of_ne hj]

/-- A task under first in, first out keeps running at the head of its queue. -/
structure Held (s₀ s : Ticking) (i : Nat) : Prop where
  front : Front (s₀.rq.rt []).active.queue i s₀.rq.curr s.rq
  curr : s.rq.curr = s₀.rq.curr
  policy : s.policy s₀.rq.curr = .SCHED_FIFO

theorem Held.tick {s₀ : Ticking} {c : Charge} (h : Held s₀ s i) (hu : Unthrottled s c) :
    ∃ s', tick s c = .ok s' ∧ Held s₀ s' i := by
  have hhome : (s.rq.tasks s.rq.curr).rt_rq = [] := by
    rw [h.curr]
    exact h.front.home.1
  have hsteady := steady_update_curr_rt c.borrow c.delta_exec s.rq
  have htick := task_tick_rt_of_ne c.borrow c.delta_exec (s := s) (p := s.rq.curr) (by simp [h.curr, h.policy])
  obtain ⟨s', hs', hfront, hcurr, hpolicy, -⟩ :=
    (h.front.update_curr_rt hhome c.borrow c.delta_exec).tick hu htick (.inl (hsteady.curr.trans h.curr)) (by
      rw [hsteady.tasks, hsteady.curr]
      exact hhome)
  exact ⟨s', hs', hfront, hcurr, hpolicy ▸ h.policy⟩

/-- The schedule of the tasks of the highest priority in the root, after any number of ticks of which none
    leaves the root throttled, whatever time each of them accounts. Under round robin the running task
    changes every `DEF_TIMESLICE` ticks in the order of the queue; a task under first in, first out at
    its head runs on. -/
theorem round_robin {s : Ticking} {i : Nat} {ts : List Nat} (h : Heading s i ts) {cs : List Charge}
    (hcs : checked.ValidRun tick Unthrottled s cs) :
    ((∀ p ∈ ts, s.policy p = .SCHED_RR ∧ s.time_slice p = DEF_TIMESLICE) →
        ∃ s', checked.run tick s cs = .ok s' ∧ Scheduled s s' i ts cs.length) ∧
      (s.policy s.rq.curr = .SCHED_FIFO →
        ∃ s', checked.run tick s cs = .ok s' ∧ s'.rq.curr = s.rq.curr ∧
          (s'.rq.rt []).active.queue = (s.rq.rt []).active.queue) := by
  constructor
  · intro hts
    obtain ⟨s', hrun, hs'⟩ := (h.turn hts).run hcs
    rw [Nat.zero_add] at hs'
    exact ⟨s', hrun, hs'.scheduled⟩
  · intro hfifo
    obtain ⟨s', hrun, hs'⟩ := checked.run_ok (I := fun s' => Held s s' i) (fun _ _ => Held.tick) ⟨h.front, rfl, hfifo⟩ hcs
    exact ⟨s', hrun, hs'.curr, hs'.front.queue⟩

/-- Two tasks in the root, and one of a lower priority. The time of the groups is not limited. -/
def threeInRoot : rq :=
  { idleCpu with
    bandwidth_enabled := false
    tasks := fun p =>
      { prio := if p = 3 then 20 else 10, normal_prio := if p = 3 then 20 else 10, nr_cpus_allowed := 1,
        cpus_allowed := [0], rt_rq := [], rt_class := true, on_cpu := decide (p = 1) } }

def threeEnqueued : Ticking where
  rq := run threeInRoot threeTasks
  policy := fun _ => .SCHED_RR
  time_slice := fun _ => DEF_TIMESLICE

def aTick : Charge where
  borrow := fun _ => 20
  delta_exec := 0
  switch_borrow := fun _ => 20
  switch_exec := 0

/-- A slice and a half. -/
def manyTicks : List Charge := List.replicate 150 aTick

theorem round_robin_threeEnqueued : Heading threeEnqueued 10 [1, 2] ∧ threeEnqueued.rq.curr = 1 ∧
    checked.ValidRun tick Unthrottled threeEnqueued manyTicks ∧
    ∃ s', checked.run tick threeEnqueued manyTicks = .ok s' ∧ Scheduled threeEnqueued s' 10 [1, 2] 150 ∧
      s'.rq.curr = 2 ∧ s'.time_slice 2 = 50 ∧ (s'.rq.rt []).active.queue 10 = [.task 2, .task 1] := by
  have hinit : Initial threeInRoot := ⟨fun _ => rfl, rfl, rfl⟩
  have hvalid : ValidRun threeInRoot threeTasks := by decide +kernel
  have hinv : Inv threeEnqueued.rq := by simpa only [threeEnqueued] using hinit.inv.run_ok hvalid
  have hheading : Heading threeEnqueued 10 [1, 2] :=
    ⟨hinv, by decide +kernel, by decide +kernel, by decide +kernel⟩
  have hcs : checked.ValidRun tick Unthrottled threeEnqueued manyTicks := by decide +kernel
  obtain ⟨s', hrun, hs'⟩ := (round_robin hheading hcs).1 (fun p _ => ⟨rfl, rfl⟩)
  have hlength : manyTicks.length = 150 := List.length_replicate
  rw [hlength] at hs'
  have hcurr : s'.rq.curr = 2 := (Option.some.inj hs'.running).symm
  refine ⟨hheading, by decide +kernel, hcs, s', hrun, hs', hcurr, ?_, hs'.queue⟩
  have hslice := hs'.slice
  rwa [hcurr] at hslice

end Schedule

end cs444.sched_rt
