import Cs444.SchedRt.Callbacks
import Cs444.SchedRt.Run

open priotable

namespace cs444.sched_rt

set_option linter.style.nameCheck false

variable {s : rq} {p n : Nat} {g : task_group} {e : sched_rt_entity}

section Levels

/-- The entity is queued, and is the one its run queue has to run next. -/
structure Leads (s : rq) (e : sched_rt_entity) : Prop where
  queued : on_rt_rq s e = true
  next : pick_next_rt_entity (s.rt (rt_rq_of_se s e)) = .ok e

/-- A queue that is in use has an entity to pick, of the highest priority there is. -/
theorem Inv.pick_next_rt_entity (h : Inv s) (hrunning : (s.rt g).rt_nr_running ≠ 0) :
    ∃ e, pick_next_rt_entity (s.rt g) = .ok e ∧ rt_rq_of_se s e = g ∧ Leads s e ∧
      rt_se_prio s e = (s.rt g).highest_prio_curr := by
  have hlocal := h.tidy.all g
  have hleast := hlocal.sound.marked.least
  have hlt := hleast.lt_iff.mpr (hlocal.sound.running_ne_zero.mp hrunning)
  obtain ⟨e, es, hqueue⟩ := List.exists_cons_of_ne_nil (hleast.used hlt)
  have hpick : sched_rt.pick_next_rt_entity (s.rt g) = .ok e := by
    simp [sched_rt.pick_next_rt_entity, sched_find_first_bit, hqueue, hlt]
  have he : e ∈ (s.rt g).active.queue ((s.rt g).active.first MAX_RT_PRIO) := by
    rw [hqueue]
    exact List.mem_cons_self
  obtain ⟨-, hg, hprio⟩ := hlocal.home _ e he
  refine ⟨e, hpick, hg, ⟨hlocal.on_of_mem (Table.mem_entries.mpr ⟨_, hlt, he⟩), hg ▸ hpick⟩, ?_⟩
  rw [hprio, hleast.unique hlocal.sound.least]

/-- No entity of a run queue has a higher priority than the run queue says. -/
theorem Inv.highest_le (h : Inv s) (he : on_rt_rq s e = true) :
    (s.rt (rt_rq_of_se s e)).highest_prio_curr ≤ rt_se_prio s e := by
  have hlocal := h.tidy.all (rt_rq_of_se s e)
  exact hlocal.sound.least.le_of_mem (hlocal.home_of_mem (on_rt_rq_iff.mp he)).2.2.mem

/-- The groups in use at the level of `g` or further down. -/
def below (s : rq) (g : task_group) : List task_group :=
  s.leaf_rt_rq_list.filter fun x => g.length ≤ x.length

theorem length_below_lt (i : Nat) (hg : g ∈ s.leaf_rt_rq_list) : (below s (i :: g)).length < (below s g).length := by
  have hsub : (below s (i :: g)).Sublist (below s g) := by
    refine List.monotone_filter_right _ fun x hx => ?_
    simp only [List.length_cons, decide_eq_true_eq] at hx ⊢
    omega
  refine lt_of_le_of_ne hsub.length_le fun heq => ?_
  have hin : g ∈ below s (i :: g) := by
    rw [hsub.eq_of_length heq]
    exact List.mem_filter.mpr ⟨hg, by simp⟩
  have hle : g.length + 1 ≤ g.length := by simpa using (List.mem_filter.mp hin).2
  omega

end Levels

section Descent

/-- What picking a task in a group comes to: on the way from the task up to the group every entity is
    the next one to run, and the priority of the task is that of the group. -/
structure Picked (s : rq) (g : task_group) (p : Nat) : Prop where
  way : ∃ es, for_each_sched_rt_entity s (.task p) = es ++ ancestors g ∧ .task p ∈ es ∧ ∀ e ∈ es, Leads s e
  prio : (s.tasks p).prio = (s.rt g).highest_prio_curr

/-- One level up: the entity of the group is the next one to run. -/
theorem Picked.up {i : Nat} (h : Picked s (i :: g) p) (hleads : Leads s (.group i g))
    (hprio : rt_se_prio s (.group i g) = (s.rt g).highest_prio_curr) : Picked s g p := by
  obtain ⟨es, hway, hp, hes⟩ := h.way
  refine ⟨⟨es ++ [.group i g], ?_, List.mem_append_left _ hp, fun e he => ?_⟩, h.prio.trans hprio⟩
  · rw [hway, ancestors, List.append_assoc]
    rfl
  · obtain he | he := List.mem_append.mp he
    · exact hes e he
    · rw [List.mem_singleton.mp he]
      exact hleads

/-- The walk down from a group in use comes to a task. -/
theorem Inv.pick_loop (h : Inv s) (hrunning : (s.rt g).rt_nr_running ≠ 0) (hn : (below s g).length ≤ n) :
    ∃ p, pick_loop s n g = .ok p ∧ Picked s g p := by
  -- By induction on the turns left: a group further down has fewer groups in use below it.
  induction n generalizing g with
  | zero =>
    have hleaf := (h.tidy.all g).leaf.mpr hrunning
    have hbelow := length_below_lt 0 hleaf
    omega
  | succ n ih =>
    obtain ⟨e, hpick, hg, hleads, hprio⟩ := h.pick_next_rt_entity hrunning
    simp only [sched_rt.pick_loop, hpick]
    cases e with
    | task p =>
      have hway : for_each_sched_rt_entity s (.task p) = [.task p] ++ ancestors g := by
        rw [← hg]
        rfl
      refine ⟨p, rfl, ⟨[.task p], hway, List.mem_singleton_self _, fun e he => ?_⟩, hprio⟩
      rw [List.mem_singleton.mp he]
      exact hleads
    | group i parent =>
      obtain rfl : parent = g := hg
      have hchild := ((h.coupled i parent).mp hleads.queued).1
      have hbelow := length_below_lt i ((h.tidy.all parent).leaf.mpr hrunning)
      obtain ⟨p, hloop, hpicked⟩ := ih hchild (by omega)
      exact ⟨p, hloop, hpicked.up hleads hprio⟩

/-- More turns than are needed make no difference. -/
theorem pick_loop_add (hloop : pick_loop s n g = .ok p) (k : Nat) : pick_loop s (n + k) g = .ok p := by
  induction n generalizing g with
  | zero => simp [pick_loop] at hloop
  | succ n ih =>
    rw [Nat.add_right_comm]
    simp only [pick_loop] at hloop ⊢
    cases hpick : pick_next_rt_entity (s.rt g) with
    | error bug => simp [hpick, bind, Except.bind] at hloop
    | ok e =>
      rw [hpick] at hloop
      cases e with
      | task q => exact hloop
      | group i parent => exact ih hloop

theorem Inv._pick_next_task_rt (h : Inv s) (hrunning : (s.rt []).rt_nr_running ≠ 0)
    (hthrottled : rt_rq_throttled (s.rt []) = false) :
    ∃ p, _pick_next_task_rt s = .ok (some p) ∧ Picked s [] p ∧
      ∀ n, s.leaf_rt_rq_list.length ≤ n → sched_rt.pick_loop s n [] = .ok p := by
  obtain ⟨p, hloop, hpicked⟩ := h.pick_loop hrunning (List.length_filter_le _ _)
  refine ⟨p, ?_, hpicked, fun n hn => ?_⟩
  · rw [sched_rt._pick_next_task_rt, if_neg hrunning, if_neg (by simp [hthrottled]), hloop]
    rfl
  · obtain ⟨k, rfl⟩ := Nat.exists_eq_add_of_le hn
    exact pick_loop_add hloop k

end Descent

section Best

/-- The task is queued, and so are all groups it is in, each in its parent. -/
def Ready (s : rq) (p : Nat) : Prop :=
  ∀ e ∈ for_each_sched_rt_entity s (.task p), on_rt_rq s e = true

/-- The task is ready, and no other ready task has a higher priority. -/
structure Best (s : rq) (p : Nat) : Prop where
  ready : Ready s p
  least : ∀ q, Ready s q → (s.tasks p).prio ≤ (s.tasks q).prio

theorem Picked.ready (h : Picked s [] p) : Ready s p := by
  obtain ⟨es, hway, -, hes⟩ := h.way
  intro e he
  rw [hway, ancestors, List.append_nil] at he
  exact (hes e he).queued

/-- A group that is queued all the way up has no higher priority than the root. -/
theorem Inv.highest_root_le (h : Inv s) (hg : ∀ e ∈ ancestors g, on_rt_rq s e = true) :
    (s.rt []).highest_prio_curr ≤ (s.rt g).highest_prio_curr := by
  induction g with
  | nil => exact le_refl _
  | cons i parent ih =>
    have hparent := ih fun e he => hg e (List.mem_cons_of_mem _ he)
    exact hparent.trans (h.highest_le (hg (.group i parent) List.mem_cons_self))

theorem Inv.highest_le_of_ready (h : Inv s) (hp : Ready s p) : (s.rt []).highest_prio_curr ≤ (s.tasks p).prio := by
  have hroot := h.highest_root_le (g := (s.tasks p).rt_rq) fun e he => hp e (List.mem_cons_of_mem _ he)
  exact hroot.trans (h.highest_le (hp (.task p) List.mem_cons_self))

theorem Picked.best (h : Picked s [] p) (hinv : Inv s) : Best s p :=
  ⟨h.ready, fun _ hq => h.prio ▸ hinv.highest_le_of_ready hq⟩

/-- After any calls, if the root has something to run and is not throttled, the walk down the groups
    ends at a task and runs into no `BUG_ON`, however many turns it is given beyond those it needs,
    and no task that is queued with all its groups has a higher priority than the one returned. -/
theorem pick_next_task_rt_best {s : rq} (hinit : Initial s) {cs : List Call} (hcs : ValidRun s cs)
    (hrunning : 0 < ((run s cs).rt []).rt_nr_running) (hthrottled : rt_rq_throttled ((run s cs).rt []) = false) :
    ∃ p, _pick_next_task_rt (run s cs) = .ok (some p) ∧ Best (run s cs) p ∧
      ∀ n, (run s cs).leaf_rt_rq_list.length ≤ n → pick_loop (run s cs) n [] = .ok p := by
  have hinv := hinit.inv.run_ok hcs
  obtain ⟨p, hpick, hpicked, hturns⟩ := hinv._pick_next_task_rt (by omega) hthrottled
  exact ⟨p, hpick, hpicked.best hinv, hturns⟩

/-- The group is throttled and unthrottled, and the root has time left. -/
def groupThrottled : List Call :=
  .set_bandwidth [] { rt_period := 100, rt_runtime := 100 } 100 :: boostAndThrottle

theorem pick_next_task_rt_best_groupThrottled : Initial idleCpu ∧ ValidRun idleCpu groupThrottled ∧
    0 < ((run idleCpu groupThrottled).rt []).rt_nr_running ∧
    rt_rq_throttled ((run idleCpu groupThrottled).rt []) = false ∧
    ∃ p, _pick_next_task_rt (run idleCpu groupThrottled) = .ok (some p) ∧ Best (run idleCpu groupThrottled) p ∧
      ∀ n, (run idleCpu groupThrottled).leaf_rt_rq_list.length ≤ n →
        pick_loop (run idleCpu groupThrottled) n [] = .ok p := by
  have hinit : Initial idleCpu := ⟨fun _ => rfl, rfl, rfl⟩
  have hcs : ValidRun idleCpu groupThrottled := by decide +kernel
  have hrunning : 0 < ((run idleCpu groupThrottled).rt []).rt_nr_running := by decide +kernel
  have hthrottled : rt_rq_throttled ((run idleCpu groupThrottled).rt []) = false := by decide +kernel
  exact ⟨hinit, hcs, hrunning, hthrottled, pick_next_task_rt_best hinit hcs hrunning hthrottled⟩

end Best

end cs444.sched_rt
