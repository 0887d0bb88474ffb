import Cs444.SchedRt.Pick
import Cs444.SchedRt.Record

open Function priotable

namespace cs444.sched_rt

set_option linter.style.nameCheck false

section Model

def HZ : Nat := 1000

def DEF_TIMESLICE : Nat := 100 * HZ / 1000

inductive Policy where
  | SCHED_NORMAL
  | SCHED_FIFO
  | SCHED_RR
  | SCHED_BATCH
  | SCHED_IDLE
deriving DecidableEq, Repr

/-- The run queue of a CPU, with what the tick looks at of the tasks besides: the policy, and
    `rt.time_slice`, an `unsigned int`. -/
structure Ticking where
  rq : rq
  policy : Nat → Policy
  time_slice : Nat → Nat

/-- The queue of its run queue the entity is linked into. -/
def linked (rq : rq) (rt_se : sched_rt_entity) : List sched_rt_entity :=
  (((List.range MAX_RT_PRIO).map (rq.rt (rt_rq_of_se rq rt_se)).active.queue).find? fun queue => rt_se ∈ queue).getD []

/-- `run_list.prev`, where `none` is the head of the list. An entity that is on no list is linked to
    itself. -/
def run_list_prev (rq : rq) (rt_se : sched_rt_entity) : Option sched_rt_entity :=
  if on_rt_rq rq rt_se then ((linked rq rt_se).takeWhile (· ≠ rt_se)).getLast? else some rt_se

/-- `run_list.next`, as for `run_list_prev`. -/
def run_list_next (rq : rq) (rt_se : sched_rt_entity) : Option sched_rt_entity :=
  if on_rt_rq rq rt_se then ((linked rq rt_se).dropWhile (· ≠ rt_se)).tail.head? else some rt_se

def set_tsk_need_resched (rq : rq) (p : Nat) : sched_rt.rq :=
  { rq with need_resched := update rq.need_resched p true }

/-- `task_tick_rt`, where `delta_exec` is the time that is accounted. What `watchdog` counts is left
    out. -/
def task_tick_rt (borrow : task_group → Nat) (delta_exec : Nat) (s : Ticking) (p : Nat) : Ticking :=
  let s := { s with rq := update_curr_rt borrow delta_exec s.rq }
  if s.policy p ≠ .SCHED_RR then s
  else
    let time_slice := (s.time_slice p + 2 ^ 32 - 1) % 2 ^ 32
    let s := { s with time_slice := update s.time_slice p time_slice }
    if time_slice ≠ 0 then s
    else
      let s := { s with time_slice := update s.time_slice p DEF_TIMESLICE }
      if run_list_prev s.rq (.task p) ≠ run_list_next s.rq (.task p) then
        { s with rq := set_tsk_need_resched (requeue_task_rt s.rq p false) p }
      else s

end Model

variable {s s' : rq} {e e' : sched_rt_entity} {g : task_group} {p : Nat}

section Alone

/-- The queue an entity belongs on. -/
abbrev home (s : rq) (e : sched_rt_entity) : List sched_rt_entity :=
  (s.rt (rt_rq_of_se s e)).active.queue (rt_se_prio s e)

/-- The entity is queued, and another one is on the same queue. -/
structure Shares (s : rq) (e : sched_rt_entity) : Prop where
  queued : on_rt_rq s e = true
  other : ∃ e' ∈ home s e, e' ≠ e

theorem Inv.mem_home (h : Inv s) (he : on_rt_rq s e = true) : e ∈ home s e :=
  ((h.tidy.all _).home_of_mem (on_rt_rq_iff.mp he)).2.2.mem

theorem Inv.home_nodup (h : Inv s) (he : on_rt_rq s e = true) : (home s e).Nodup := by
  have hlocal := h.tidy.all (rt_rq_of_se s e)
  obtain ⟨-, hprio, -⟩ := hlocal.home_of_mem (on_rt_rq_iff.mp he)
  exact (List.nodup_flatMap.mp hlocal.sound.nodup).1 _ (List.mem_range.mpr hprio)

/-- A queued entity is linked into the queue it belongs on. -/
theorem Inv.linked_eq (h : Inv s) (he : on_rt_rq s e = true) : linked s e = home s e := by
  obtain ⟨-, hprio, honly⟩ := (h.tidy.all _).home_of_mem (on_rt_rq_iff.mp he)
  rw [linked]
  cases hfind : ((List.range MAX_RT_PRIO).map (s.rt (rt_rq_of_se s e)).active.queue).find? fun queue => e ∈ queue with
  | none =>
    have hnone := List.find?_eq_none.mp hfind (home s e) (List.mem_map.mpr ⟨_, List.mem_range.mpr hprio, rfl⟩)
    exact absurd (h.mem_home he) (by simpa using hnone)
  | some queue =>
    obtain ⟨i, -, rfl⟩ := List.mem_map.mp (List.mem_of_find?_eq_some hfind)
    have hin : e ∈ (s.rt (rt_rq_of_se s e)).active.queue i := by simpa using List.find?_some hfind
    rw [Option.getD_some, honly.eq i hin]

/-- Around an entity of a list without duplicates there are two different neighbours, unless it is alone. -/
theorem neighbours_eq_iff {l : List sched_rt_entity} (hnodup : l.Nodup) (he : e ∈ l) :
    (l.takeWhile (· ≠ e)).getLast? = (l.dropWhile (· ≠ e)).tail.head? ↔ ∀ x ∈ l, x = e := by
  obtain ⟨before, after, rfl⟩ := List.append_of_mem he
  rw [List.nodup_append, List.nodup_cons] at hnodup
  obtain ⟨-, ⟨hafter, -⟩, hdisjoint⟩ := hnodup
  have hbefore : ∀ x ∈ before, decide (x ≠ e) = true := fun x hx => by
    simpa using hdisjoint x hx e List.mem_cons_self
  have htake : (before ++ e :: after).takeWhile (· ≠ e) = before := by
    rw [List.takeWhile_append_of_pos hbefore, List.takeWhile_cons_of_neg (by simp), List.append_nil]
  have hdrop : (before ++ e :: after).dropWhile (· ≠ e) = e :: after := by
    rw [List.dropWhile_append_of_pos hbefore, List.dropWhile_cons_of_neg (by simp)]
  rw [htake, hdrop, List.tail_cons]
  constructor
  · intro heq
    cases after with
    | nil =>
      rw [List.head?_nil, List.getLast?_eq_none_iff] at heq
      simp [heq]
    | cons x after =>
      rw [List.head?_cons] at heq
      exact absurd rfl (hdisjoint x (List.mem_of_getLast? heq) x (List.mem_cons_of_mem e List.mem_cons_self))
  · intro hall
    obtain rfl : before = [] := List.eq_nil_iff_forall_not_mem.mpr fun x hx =>
      hdisjoint x hx e List.mem_cons_self (hall x (List.mem_append_left _ hx))
    obtain rfl : after = [] := List.eq_nil_iff_forall_not_mem.mpr fun x hx => by
      obtain rfl := hall x (List.mem_cons_of_mem e hx)
      exact hafter hx
    rfl

/-- The test of `task_tick_rt` is whether another entity is on the queue of the task. -/
theorem Inv.prev_ne_next_iff (h : Inv s) (e : sched_rt_entity) : run_list_prev s e ≠ run_list_next s e ↔ Shares s e := by
  by_cases he : on_rt_rq s e = true
  · rw [run_list_prev, run_list_next, if_pos he, if_pos he, h.linked_eq he, Ne,
      neighbours_eq_iff (h.home_nodup he) (h.mem_home he)]
    push Not
    exact ⟨fun hother => ⟨he, hother⟩, fun hshares => hshares.other⟩
  · rw [run_list_prev, run_list_next, if_neg he, if_neg he]
    exact iff_of_false (fun hne => hne rfl) fun hshares => he hshares.queued

end Alone

section Turn

theorem tasks_requeue_rt_entity (s : rq) (e : sched_rt_entity) (head : Bool) :
    (requeue_rt_entity s e head).tasks = s.tasks := by
  simp only [requeue_rt_entity]
  split <;> rfl

/-- Requeueing changes the run queue the entity is in, and no priority. -/
theorem rt_requeue_rt_entity (s : rq) (e : sched_rt_entity) (head : Bool) :
    (∀ x, x ≠ rt_rq_of_se s e → (requeue_rt_entity s e head).rt x = s.rt x) ∧
      ∀ x, ((requeue_rt_entity s e head).rt x).highest_prio_curr = (s.rt x).highest_prio_curr := by
  simp only [requeue_rt_entity]
  split
  · refine ⟨fun x hx => set_rt_of_ne _ hx, fun x => ?_⟩
    obtain rfl | hx := eq_or_ne x (rt_rq_of_se s e)
    · rw [set_rt_self]
    · rw [set_rt_of_ne _ hx]
  · exact ⟨fun _ _ => rfl, fun _ => rfl⟩

theorem rt_se_prio_requeue (s : rq) (e e' : sched_rt_entity) (head : Bool) :
    rt_se_prio (requeue_rt_entity s e head) e' = rt_se_prio s e' := by
  cases e' with
  | task p => rw [rt_se_prio, tasks_requeue_rt_entity, rt_se_prio]
  | group i parent => exact (rt_requeue_rt_entity s e head).2 _

/-- An entity of another run queue is not affected. -/
theorem home_requeue_of_ne (head : Bool) (h : rt_rq_of_se s e' ≠ rt_rq_of_se s e) :
    home (requeue_rt_entity s e head) e' = home s e' ∧ on_rt_rq (requeue_rt_entity s e head) e' = on_rt_rq s e' := by
  have hof := same_rt_rq_of_se (tasks_requeue_rt_entity s e head) e'
  have hrt := (rt_requeue_rt_entity s e head).1 _ h
  rw [home, on_rt_rq, hof, hrt, rt_se_prio_requeue, on_rt_rq]
  exact ⟨rfl, rfl⟩

theorem home_requeue_self (he : on_rt_rq s e = true) :
    home (requeue_rt_entity s e false) e = (home s e).filter (· ≠ e) ++ [e] := by
  have hof := same_rt_rq_of_se (tasks_requeue_rt_entity s e false) e
  rw [home, hof, rt_se_prio_requeue]
  simp [requeue_rt_entity, he, set_rt_self, Table.move, Table.unlink]

theorem home_requeue_others {es : List sched_rt_entity} (head : Bool)
    (h : ∀ x ∈ es, rt_rq_of_se s x ≠ rt_rq_of_se s e) :
    home (es.foldl (fun s x => requeue_rt_entity s x head) s) e = home s e := by
  induction es generalizing s with
  | nil => rfl
  | cons x es ih =>
    have hof := same_rt_rq_of_se (tasks_requeue_rt_entity s x head)
    rw [List.foldl_cons, ih fun y hy => by rw [hof, hof]; exact h y (List.mem_cons_of_mem x hy)]
    exact (home_requeue_of_ne head (h x List.mem_cons_self).symm).1

/-- Every queued entity of a list goes to the tail of its queue, if they are all in different run
    queues. -/
theorem home_requeue_all {es : List sched_rt_entity} (hnodup : (es.map (rt_rq_of_se s)).Nodup) (hmem : e ∈ es)
    (he : on_rt_rq s e = true) :
    home (es.foldl (fun s x => requeue_rt_entity s x false) s) e = (home s e).filter (· ≠ e) ++ [e] := by
  induction es generalizing s with
  | nil => exact absurd hmem List.not_mem_nil
  | cons x es ih =>
    have hof := same_rt_rq_of_se (tasks_requeue_rt_entity s x false)
    rw [List.map_cons, List.nodup_cons] at hnodup
    have hother : ∀ y ∈ es, rt_rq_of_se s y ≠ rt_rq_of_se s x := fun y hy heq =>
      hnodup.1 (heq ▸ List.mem_map_of_mem hy)
    rw [List.foldl_cons]
    obtain rfl | hin := List.mem_cons.mp hmem
    · rw [home_requeue_others false fun y hy => by rw [hof, hof]; exact hother y hy]
      exact home_requeue_self he
    · obtain ⟨hhome, hon⟩ := home_requeue_of_ne false (hother e hin)
      have hgroups : (es.map (rt_rq_of_se (requeue_rt_entity s x false))).Nodup := by
        rw [List.map_congr_left fun y _ => hof y]
        exact hnodup.2
      rw [ih hgroups hin (hon.trans he), hhome]

end Turn

section Next

/-- What is to run next is at the head of its queue. -/
theorem Inv.head_of_leads (h : Inv s) (he : Leads s e) : (home s e).head? = some e := by
  have hpick := he.next
  simp only [sched_rt.pick_next_rt_entity] at hpick
  split at hpick
  · cases hpick
  cases hqueue : (s.rt (rt_rq_of_se s e)).active.queue (sched_find_first_bit (s.rt (rt_rq_of_se s e)).active) with
  | nil => simp [hqueue] at hpick
  | cons x rest =>
    obtain rfl : x = e := by simpa [hqueue] using hpick
    have hin : x ∈ (s.rt (rt_rq_of_se s x)).active.queue (sched_find_first_bit (s.rt (rt_rq_of_se s x)).active) := by
      rw [hqueue]
      exact List.mem_cons_self
    obtain ⟨-, -, hprio⟩ := (h.tidy.all _).home _ _ hin
    rw [home, hprio, hqueue, List.head?_cons]

/-- A task is not picked if on its way up some entity is not at the head of its queue. -/
theorem Inv.not_picked (h : Inv s) (he : e ∈ for_each_sched_rt_entity s (.task p)) (hhead : (home s e).head? ≠ some e) :
    sched_rt._pick_next_task_rt s ≠ .ok (some p) := by
  intro hpick
  by_cases hidle : (s.rt []).rt_nr_running = 0 ∨ rt_rq_throttled (s.rt []) = true
  · rw [sched_rt._pick_next_task_rt] at hpick
    obtain hzero | hthrottled := hidle
    · simp [hzero] at hpick
    · simp [hthrottled] at hpick
  · rw [not_or, Bool.not_eq_true] at hidle
    obtain ⟨q, hq, hpicked, -⟩ := h._pick_next_task_rt hidle.1 hidle.2
    obtain rfl : q = p := by simpa using hq.symm.trans hpick
    obtain ⟨es, hway, -, hes⟩ := hpicked.way
    rw [hway, ancestors, List.append_nil] at he
    exact hhead (h.head_of_leads (hes e he))

/-- The last entity of a queue with others is not at its head. -/
theorem Shares.head_ne (h : Shares s e) (hs : home s' e = (home s e).filter (· ≠ e) ++ [e]) :
    (home s' e).head? ≠ some e := by
  obtain ⟨e', he', hne⟩ := h.other
  have hmem : e' ∈ (home s e).filter (· ≠ e) := List.mem_filter.mpr ⟨he', by simpa using hne⟩
  cases hfilter : (home s e).filter (· ≠ e) with
  | nil => exact absurd (hfilter ▸ hmem) List.not_mem_nil
  | cons x rest =>
    have hx : x ∈ (home s e).filter (· ≠ e) := hfilter ▸ List.mem_cons_self
    have hxe : x ≠ e := by simpa using (List.mem_filter.mp hx).2
    rw [hs, hfilter, List.cons_append, List.head?_cons]
    exact fun heq => hxe (Option.some.inj heq)

end Next

section RoundRobin

/-- An entity that stands for the task somewhere shares its queue with another one. -/
def Contested (s : rq) (p : Nat) : Prop :=
  ∃ e ∈ for_each_sched_rt_entity s (.task p), Shares s e

/-- The task gives way: all that stands for it goes to the tails of the queues, the CPU is to
    reschedule, and the task is not picked again. -/
structure Yields (s s' : rq) (p : Nat) : Prop where
  moved : ∀ e ∈ for_each_sched_rt_entity s (.task p), on_rt_rq s e = true →
    home s' e = (home s e).filter (· ≠ e) ++ [e]
  resched : s'.need_resched p = true
  next : _pick_next_task_rt s' ≠ .ok (some p)

/-- The task has given way before: it is to be rescheduled, and all that stands for it is at the tails
    of the queues. -/
def Yielded (s : rq) (p : Nat) : Prop :=
  s.need_resched p = true ∧ ∀ e ∈ for_each_sched_rt_entity s (.task p), on_rt_rq s e = true →
    (home s e).getLast? = some e

/-- An entity at the tail of its queue stays there when it is moved to the tail. -/
theorem filter_append_eq_iff {l : List sched_rt_entity} (hnodup : l.Nodup) :
    l = l.filter (· ≠ e) ++ [e] ↔ l.getLast? = some e := by
  constructor
  · intro heq
    rw [heq, List.getLast?_append, List.getLast?_singleton, Option.some_or]
  · intro hlast
    obtain ⟨before, rfl⟩ := List.getLast?_eq_some_iff.mp hlast
    have hnew : ∀ x ∈ before, decide (x ≠ e) = true := fun x hx => by
      simpa using (List.nodup_append.mp hnodup).2.2 x hx e (List.mem_singleton_self e)
    rw [List.filter_append, List.filter_eq_self.mpr hnew]
    simp

/-- Only a task under round robin has a slice. -/
theorem task_tick_rt_of_ne {s : Ticking} (borrow : task_group → Nat) (delta_exec : Nat) (hpolicy : s.policy p ≠ .SCHED_RR) :
    task_tick_rt borrow delta_exec s p = { s with rq := update_curr_rt borrow delta_exec s.rq } :=
  if_pos hpolicy

/-- A slice that does not run out gets shorter. -/
theorem task_tick_rt_left {s : Ticking} {k : Nat} (borrow : task_group → Nat) (delta_exec : Nat)
    (hpolicy : s.policy p = .SCHED_RR) (hslice : s.time_slice p = k + 2) (hk : k + 2 < 2 ^ 32) :
    task_tick_rt borrow delta_exec s p =
      { s with
        rq := update_curr_rt borrow delta_exec s.rq
        time_slice := update s.time_slice p (k + 1) } := by
  have hleft : (s.time_slice p + 2 ^ 32 - 1) % 2 ^ 32 = k + 1 := by
    rw [hslice]
    omega
  simp only [task_tick_rt, hpolicy, hleft, ne_eq, not_true_eq_false, if_false, Nat.add_eq_zero_iff, Nat.one_ne_zero,
    and_false, not_false_eq_true, if_true]

/-- When the slice of a task has run out it is filled up again. What happens to the queues follows from
    whether the task is alone on its own. -/
theorem task_tick_rt_slice {s : Ticking} (borrow : task_group → Nat) (delta_exec : Nat)
    (hpolicy : s.policy p = .SCHED_RR) (hslice : s.time_slice p = 1)
    (hinv : Inv (update_curr_rt borrow delta_exec s.rq)) :
    (Shares (update_curr_rt borrow delta_exec s.rq) (.task p) → task_tick_rt borrow delta_exec s p =
        { s with
          rq := set_tsk_need_resched (requeue_task_rt (update_curr_rt borrow delta_exec s.rq) p false) p
          time_slice := update s.time_slice p DEF_TIMESLICE }) ∧
      (¬ Shares (update_curr_rt borrow delta_exec s.rq) (.task p) → task_tick_rt borrow delta_exec s p =
        { s with
          rq := update_curr_rt borrow delta_exec s.rq
          time_slice := update s.time_slice p DEF_TIMESLICE }) := by
  have hzero : (s.time_slice p + 2 ^ 32 - 1) % 2 ^ 32 = 0 := by
    rw [hslice]
    omega
  simp only [task_tick_rt, hpolicy, hzero, ne_eq, not_true_eq_false, if_false, update_idem]
  rw [← hinv.prev_ne_next_iff]
  exact ⟨fun hne => if_pos hne, fun heq => if_neg heq⟩

theorem Inv.yields_requeue (h : Inv s) (hshares : Shares s (.task p)) :
    Yields s (set_tsk_need_resched (requeue_task_rt s p false) p) p := by
  have hinv : Inv (set_tsk_need_resched (requeue_task_rt s p false) p) :=
    SameCore.inv (s := requeue_task_rt s p false) ⟨rfl, rfl, rfl, rfl⟩ (h.requeue_all _ false)
  have hmoved : ∀ e ∈ for_each_sched_rt_entity s (.task p), on_rt_rq s e = true →
      home (set_tsk_need_resched (requeue_task_rt s p false) p) e = (home s e).filter (· ≠ e) ++ [e] := by
    intro e he hon
    have hnodup : ((for_each_sched_rt_entity s (.task p)).map (rt_rq_of_se s)).Nodup := by
      rw [map_for_each]
      exact nodup_tails _
    exact home_requeue_all hnodup he hon
  refine ⟨hmoved, update_self _ _ _, hinv.not_picked (e := .task p) List.mem_cons_self ?_⟩
  exact hshares.head_ne (hmoved (.task p) List.mem_cons_self hshares.queued)

theorem Inv.yields_self_iff (h : Inv s) (hcontested : Contested s p) : Yields s s p ↔ Yielded s p := by
  constructor
  · rintro ⟨hmoved, hresched, -⟩
    exact ⟨hresched, fun e he hon => (filter_append_eq_iff (h.home_nodup hon)).mp (hmoved e he hon)⟩
  · rintro ⟨hresched, hlast⟩
    have hmoved : ∀ e ∈ for_each_sched_rt_entity s (.task p), on_rt_rq s e = true →
        home s e = (home s e).filter (· ≠ e) ++ [e] := fun e he hon =>
      (filter_append_eq_iff (h.home_nodup hon)).mpr (hlast e he hon)
    obtain ⟨e, he, hshares⟩ := hcontested
    exact ⟨hmoved, hresched, h.not_picked he (hshares.head_ne (hmoved e he hshares.queued))⟩

/-- When the slice of the running task runs out, it gives way whenever another entity is on one of the
    queues on its way up, just when that other entity is on the queue of the task itself, or there is
    none on the queues of its groups, or it has given way before. The queues are those before the tick
    if the time that is accounted throttles no group of the task. -/
theorem task_tick_rt_yields_iff {s₀ : rq} (hinit : Initial s₀) {cs : List Call} (hcs : ValidRun s₀ cs) {s : Ticking}
    (hs : s.rq = run s₀ cs) (hpolicy : s.policy s.rq.curr = .SCHED_RR) (hslice : s.time_slice s.rq.curr = 1)
    (borrow : task_group → Nat) (delta_exec : Nat) :
    (within borrow delta_exec s.rq → ∀ g, ((update_curr_rt borrow delta_exec s.rq).rt g).active = (s.rq.rt g).active) ∧
      ((Contested (update_curr_rt borrow delta_exec s.rq) s.rq.curr →
          Yields (update_curr_rt borrow delta_exec s.rq) (task_tick_rt borrow delta_exec s s.rq.curr).rq s.rq.curr) ↔
        Shares (update_curr_rt borrow delta_exec s.rq) (.task s.rq.curr) ∨
          (∀ e ∈ ancestors (s.rq.tasks s.rq.curr).rt_rq, ¬ Shares (update_curr_rt borrow delta_exec s.rq) e) ∨
          Yielded (update_curr_rt borrow delta_exec s.rq) s.rq.curr) := by
  refine ⟨fun hwithin => (paced_update_curr_rt hwithin).active, ?_⟩
  have hinv : Inv (update_curr_rt borrow delta_exec s.rq) := by
    rw [hs]
    exact (hinit.inv.run_ok hcs).update_curr_rt borrow delta_exec
  have htasks := (steady_update_curr_rt borrow delta_exec s.rq).tasks
  obtain ⟨hrequeue, hsame⟩ := task_tick_rt_slice borrow delta_exec hpolicy hslice hinv
  generalize update_curr_rt borrow delta_exec s.rq = charged at *
  by_cases hshares : Shares charged (.task s.rq.curr)
  · rw [hrequeue hshares]
    exact iff_of_true (fun _ => hinv.yields_requeue hshares) (.inl hshares)
  · rw [hsame hshares]
    have hcontested : Contested charged s.rq.curr ↔ ∃ e ∈ ancestors (s.rq.tasks s.rq.curr).rt_rq, Shares charged e := by
      rw [Contested, for_each_sched_rt_entity, htasks, List.exists_mem_cons_iff]
      exact or_iff_right hshares
    constructor
    · intro hyields
      refine .inr ?_
      by_cases hnone : ∀ e ∈ ancestors (s.rq.tasks s.rq.curr).rt_rq, ¬ Shares charged e
      · exact .inl hnone
      · push Not at hnone
        have hc := hcontested.mpr hnone
        exact .inr ((hinv.yields_self_iff hc).mp (hyields hc))
    · rintro (hown | hnone | hyielded) hc
      · exact absurd hown hshares
      · obtain ⟨e, he, hother⟩ := hcontested.mp hc
        exact absurd hother (hnone e he)
      · exact (hinv.yields_self_iff hc).mpr hyielded

def bothEnqueued : List Call := [.enqueue_task_rt 1 false, .enqueue_task_rt 2 false]

/-- Two tasks of one group, both of the same priority. -/
def groupShared : rq :=
  { idleCpu with
    tasks := fun p =>
      { prio := 10, normal_prio := 10, nr_cpus_allowed := 1, cpus_allowed := [0], rt_rq := [0], rt_class := true,
        on_cpu := decide (p = 1) } }

/-- Task 1 runs and is at the last tick of its slice. -/
def sharedTick : Ticking where
  rq := run groupShared bothEnqueued
  policy := fun _ => .SCHED_RR
  time_slice := fun p => if p = 1 then 1 else DEF_TIMESLICE

theorem task_tick_rt_yields_iff_sharedTick : Initial groupShared ∧ ValidRun groupShared bothEnqueued ∧
    sharedTick.rq.curr = 1 ∧ sharedTick.policy sharedTick.rq.curr = .SCHED_RR ∧
    sharedTick.time_slice sharedTick.rq.curr = 1 ∧
    Shares (update_curr_rt (fun _ => 20) 1 sharedTick.rq) (.task sharedTick.rq.curr) ∧
    Contested (update_curr_rt (fun _ => 20) 1 sharedTick.rq) sharedTick.rq.curr ∧
    Yields (update_curr_rt (fun _ => 20) 1 sharedTick.rq)
      (task_tick_rt (fun _ => 20) 1 sharedTick sharedTick.rq.curr).rq sharedTick.rq.curr := by
  have hinit : Initial groupShared := ⟨fun _ => rfl, rfl, rfl⟩
  have hcs : ValidRun groupShared bothEnqueued := by decide +kernel
  have hcurr : sharedTick.rq.curr = 1 := by decide +kernel
  have hpolicy : sharedTick.policy sharedTick.rq.curr = .SCHED_RR := rfl
  have hslice : sharedTick.time_slice sharedTick.rq.curr = 1 := by decide +kernel
  have hrq : sharedTick.rq = run groupShared bothEnqueued := by rw [sharedTick]
  have hshares : Shares (update_curr_rt (fun _ => 20) 1 sharedTick.rq) (.task sharedTick.rq.curr) :=
    ⟨by decide +kernel, .task 2, by decide +kernel, by decide +kernel⟩
  have hcontested : Contested (update_curr_rt (fun _ => 20) 1 sharedTick.rq) sharedTick.rq.curr :=
    ⟨_, by decide +kernel, hshares⟩
  have hiff := (task_tick_rt_yields_iff hinit hcs hrq hpolicy hslice (fun _ => 20) 1).2
  exact ⟨hinit, hcs, hcurr, hpolicy, hslice, hshares, hcontested, hiff.mpr (.inl hshares) hcontested⟩

/-- Two groups with a task each, both of the same priority. -/
def groupEach : rq :=
  { idleCpu with
    tasks := fun p =>
      { prio := 10, normal_prio := 10, nr_cpus_allowed := 1, cpus_allowed := [0],
        rt_rq := if p = 2 then [1] else [0], rt_class := true, on_cpu := decide (p = 1) } }

/-- Task 1 runs and is at the last tick of its slice. -/
def lastTick : Ticking where
  rq := run groupEach bothEnqueued
  policy := fun _ => .SCHED_RR
  time_slice := fun p => if p = 1 then 1 else DEF_TIMESLICE

/-- Task 1 is alone in its group, which shares its queue with the other group. When the slice runs out
    nothing is moved, no rescheduling is asked for, and task 1 would be picked again. -/
theorem task_tick_rt_stays : Initial groupEach ∧ ValidRun groupEach bothEnqueued ∧ lastTick.rq.curr = 1 ∧
    lastTick.policy 1 = .SCHED_RR ∧ lastTick.time_slice 1 = 1 ∧
    Shares (update_curr_rt (fun _ => 20) 1 lastTick.rq) (.group 0 []) ∧
    home (task_tick_rt (fun _ => 20) 1 lastTick 1).rq (.group 0 []) = [.group 0 [], .group 1 []] ∧
    (task_tick_rt (fun _ => 20) 1 lastTick 1).rq.need_resched 1 = false ∧
    _pick_next_task_rt (task_tick_rt (fun _ => 20) 1 lastTick 1).rq = .ok (some 1) ∧
    ¬ (Contested (update_curr_rt (fun _ => 20) 1 lastTick.rq) 1 →
      Yields (update_curr_rt (fun _ => 20) 1 lastTick.rq) (task_tick_rt (fun _ => 20) 1 lastTick 1).rq 1) := by
  have hshares : Shares (update_curr_rt (fun _ => 20) 1 lastTick.rq) (.group 0 []) :=
    ⟨by decide +kernel, .group 1 [], by decide +kernel, by decide⟩
  have hresched : (task_tick_rt (fun _ => 20) 1 lastTick 1).rq.need_resched 1 = false := by decide +kernel
  have hinit : Initial groupEach := ⟨fun _ => rfl, rfl, rfl⟩
  have hcs : ValidRun groupEach bothEnqueued := by decide +kernel
  have hcurr : lastTick.rq.curr = 1 := by decide +kernel
  have hhome : home (task_tick_rt (fun _ => 20) 1 lastTick 1).rq (.group 0 []) = [.group 0 [], .group 1 []] := by
    decide +kernel
  have hpick : _pick_next_task_rt (task_tick_rt (fun _ => 20) 1 lastTick 1).rq = .ok (some 1) := by decide +kernel
  have hcontested : Contested (update_curr_rt (fun _ => 20) 1 lastTick.rq) 1 :=
    ⟨.group 0 [], by decide +kernel, hshares⟩
  have hpolicy : lastTick.policy 1 = .SCHED_RR := rfl
  have hslice : lastTick.time_slice 1 = 1 := rfl
  refine ⟨hinit, hcs, hcurr, hpolicy, hslice, hshares, hhome, hresched, hpick, fun hyields => ?_⟩
  have htrue := (hyields hcontested).resched
  rw [hresched] at htrue
  exact Bool.noConfusion htrue

end RoundRobin

end cs444.sched_rt
