import Cs444.SchedRt.Cpupri
import Cs444.SchedRt.Run
import Mathlib.Order.Basic

open priotable

namespace cs444.sched_rt

variable {s s' s₁ s₂ : rq} {e : sched_rt_entity} {g x : task_group} {p : Nat}

section Standing

/-- What the entities of a group amount to: the highest priority among them, and whether one of them
    is boosted. -/
@[ext]
structure Standing where
  highest : Nat
  boosted : Bool
deriving DecidableEq

namespace Standing

/-- Of no entities. -/
def none : Standing where
  highest := MAX_RT_PRIO
  boosted := false

def join (a b : Standing) : Standing := ⟨min a.highest b.highest, a.boosted || b.boosted⟩

/-- What a group amounts to in its parent: nothing if it is throttled, unless it is boosted. -/
def shown (a : Standing) (throttled : Bool) : Standing :=
  if throttled && !a.boosted then none else a

end Standing

/-- An entity by itself. -/
def entity_standing (s : rq) (e : sched_rt_entity) : Standing :=
  ⟨rt_se_prio s e, rt_se_boosted s e⟩

def standing (s : rq) (es : List sched_rt_entity) : Standing :=
  ⟨es.foldr (fun e m => min (rt_se_prio s e) m) MAX_RT_PRIO, es.any (rt_se_boosted s)⟩

/-- What the counters of a run queue say. -/
def rt_rq.standing (r : rt_rq) : Standing :=
  ⟨r.highest_prio_curr, r.rt_nr_boosted != 0⟩

/-- The entities of a group beside a given one. -/
def others (s : rq) (g : task_group) (e : sched_rt_entity) : Standing :=
  standing s ((queued s g).filter (· ≠ e))

variable {es es' : List sched_rt_entity}

theorem le_highest_iff {n : Nat} :
    n ≤ (standing s es).highest ↔ n ≤ MAX_RT_PRIO ∧ ∀ e ∈ es, n ≤ rt_se_prio s e := by
  simp only [standing]
  induction es with
  | nil => simp
  | cons e es ih =>
    rw [List.foldr_cons, le_min_iff, ih, List.forall_mem_cons]
    tauto

theorem boosted_iff : (standing s es).boosted = true ↔ ∃ e ∈ es, rt_se_boosted s e = true := by
  simp [standing]

/-- The counters of a consistent run queue say what its entities amount to. -/
theorem Local.standing_eq (h : Local s g) : (s.rt g).standing = standing s (queued s g) := by
  have hleast := h.sound.least
  apply Standing.ext
  · refine eq_of_forall_le_iff fun n => ?_
    rw [le_highest_iff]
    constructor
    · intro hn
      refine ⟨hn.trans hleast.le, fun e he => ?_⟩
      exact hn.trans (hleast.le_of_mem (h.home_of_mem he).2.2.mem)
    · rintro ⟨hmax, hall⟩
      by_cases hlt : (s.rt g).highest_prio_curr < MAX_RT_PRIO
      · obtain ⟨e, he⟩ := List.exists_mem_of_ne_nil _ (hleast.used hlt)
        have hprio := hall e (Table.mem_entries.mpr ⟨_, hlt, he⟩)
        rw [(h.home _ e he).2.2] at hprio
        exact hprio
      · exact hmax.trans (Nat.not_lt.mp hlt)
  · rw [Bool.eq_iff_iff, boosted_iff]
    have hcount : (s.rt g).rt_nr_boosted = ((queued s g).countP (rt_se_boosted s) : Nat) := h.sound.boosted
    simp only [rt_rq.standing, bne_iff_ne, ne_eq, hcount, Int.natCast_eq_zero, List.countP_eq_zero, not_forall,
      not_not, exists_prop]

/-- One entity apart from the others, where these are as they were in another state. -/
theorem standing_split (hmem : ∀ e', e' ≠ e → (e' ∈ es' ↔ e' ∈ es))
    (hsame : ∀ e' ∈ es, e' ≠ e → entity_standing s' e' = entity_standing s e') :
    standing s' es' =
      (standing s (es.filter (· ≠ e))).join (if e ∈ es' then entity_standing s' e else .none) := by
  have hprio : ∀ e' ∈ es, e' ≠ e → rt_se_prio s' e' = rt_se_prio s e' := fun e' he' hne =>
    congrArg Standing.highest (hsame e' he' hne)
  have hboosted : ∀ e' ∈ es, e' ≠ e → rt_se_boosted s' e' = rt_se_boosted s e' := fun e' he' hne =>
    congrArg Standing.boosted (hsame e' he' hne)
  apply Standing.ext
  · refine eq_of_forall_le_iff fun n => ?_
    simp only [Standing.join, le_min_iff, le_highest_iff, List.mem_filter, decide_eq_true_eq]
    constructor
    · rintro ⟨hmax, hall⟩
      refine ⟨⟨hmax, fun e' he' => ?_⟩, ?_⟩
      · rw [← hprio e' he'.1 he'.2]
        exact hall e' ((hmem e' he'.2).mpr he'.1)
      · split
        · rename_i hin
          exact hall e hin
        · exact hmax
    · rintro ⟨⟨hmax, hall⟩, hself⟩
      refine ⟨hmax, fun e' he' => ?_⟩
      obtain rfl | hne := eq_or_ne e' e
      · rw [if_pos he'] at hself
        exact hself
      · have hin := (hmem e' hne).mp he'
        rw [hprio e' hin hne]
        exact hall e' ⟨hin, hne⟩
  · rw [Bool.eq_iff_iff]
    simp only [Standing.join, Bool.or_eq_true, boosted_iff, List.mem_filter, decide_eq_true_eq]
    constructor
    · rintro ⟨e', he', hb⟩
      obtain rfl | hne := eq_or_ne e' e
      · right
        rw [if_pos he']
        exact hb
      · have hin := (hmem e' hne).mp he'
        exact .inl ⟨e', ⟨hin, hne⟩, (hboosted e' hin hne).symm.trans hb⟩
    · rintro (⟨e', ⟨hin, hne⟩, hb⟩ | hb)
      · exact ⟨e', (hmem e' hne).mpr hin, (hboosted e' hin hne).trans hb⟩
      · split at hb
        · rename_i hin
          exact ⟨e, hin, hb⟩
        · exact Bool.noConfusion hb

/-- What a group amounts to in its parent, between two calls. -/
theorem Inv.shown (h : Inv s) (i : Nat) (parent : task_group) :
    (if .group i parent ∈ queued s parent then entity_standing s (.group i parent) else .none) =
      (s.rt (i :: parent)).standing.shown (s.rt (i :: parent)).rt_throttled := by
  have hcoupled : on_rt_rq s (.group i parent) = true ↔ _ := h.coupled i parent
  rw [on_rt_rq_iff] at hcoupled
  have hthrottled : rt_rq_throttled (s.rt (i :: parent)) =
      ((s.rt (i :: parent)).rt_throttled && !(s.rt (i :: parent)).standing.boosted) := by
    simp [rt_rq_throttled, rt_rq.standing, bne]
  rw [Standing.shown, ← hthrottled]
  split
  · rename_i hin
    rw [(hcoupled.mp hin).2]
    rfl
  · rename_i hout
    split
    · rfl
    · rename_i hshown
      have hlocal := h.tidy.all (i :: parent)
      have hzero : (s.rt (i :: parent)).rt_nr_running = 0 := by
        by_contra hne
        exact hout (hcoupled.mpr ⟨hne, by simpa using hshown⟩)
      have hnil : queued s (i :: parent) = [] := by
        by_contra hne
        exact hlocal.sound.running_ne_zero.mpr hne hzero
      rw [hlocal.standing_eq, hnil]
      rfl

end Standing

section Beside

/-- Nothing has changed but for the entities of a task and of the groups it is in. -/
structure Beside (s s' : rq) (p : Nat) : Prop where
  tasks : s'.tasks = s.tasks
  rt : ∀ x, x ∉ (s.tasks p).rt_rq.tails → s'.rt x = s.rt x
  throttled : ∀ x, (s'.rt x).rt_throttled = (s.rt x).rt_throttled
  others : ∀ e, e ∉ for_each_sched_rt_entity s (.task p) → ∀ x, e ∈ queued s' x ↔ e ∈ queued s x

theorem for_each_eq (htasks : s'.tasks = s.tasks) (p : Nat) :
    for_each_sched_rt_entity s' (.task p) = for_each_sched_rt_entity s (.task p) := by
  rw [for_each_sched_rt_entity, for_each_sched_rt_entity, htasks]

theorem Walked.beside {es : List sched_rt_entity} (h : Walked s s' es)
    (hes : ∀ e, e ∈ es ↔ e ∈ for_each_sched_rt_entity s (.task p)) : Beside s s' p := by
  refine ⟨h.tasks, fun x hx => h.rt x fun hin => hx ?_, h.throttled, fun e he => h.others e fun hin => he ((hes e).mp hin)⟩
  obtain ⟨e, he, rfl⟩ := List.mem_map.mp hin
  rw [← map_for_each]
  exact List.mem_map_of_mem ((hes e).mp he)

theorem Beside.trans (h : Beside s s₁ p) (h' : Beside s₁ s₂ p) : Beside s s₂ p := by
  have hrt := h'.rt
  have hothers := h'.others
  rw [h.tasks] at hrt
  rw [for_each_eq h.tasks] at hothers
  exact ⟨h'.tasks.trans h.tasks, fun x hx => (hrt x hx).trans (h.rt x hx),
    fun x => (h'.throttled x).trans (h.throttled x), fun e he x => (hothers e he x).trans (h.others e he x)⟩

/-- On the way of a task there is one entity in every group. -/
theorem eq_of_rt_rq_of_se {e' : sched_rt_entity} (he : e ∈ for_each_sched_rt_entity s (.task p))
    (he' : e' ∈ for_each_sched_rt_entity s (.task p)) (heq : rt_rq_of_se s e' = rt_rq_of_se s e) : e' = e := by
  have hnodup : ((for_each_sched_rt_entity s (.task p)).map (rt_rq_of_se s)).Nodup := by
    rw [map_for_each]
    exact nodup_tails _
  exact List.inj_on_of_nodup_map hnodup he' he heq

/-- What a group on the way amounts to: the others as before, and the entity on the way. -/
theorem Beside.level (h : Beside s s' p) (hs : Tidy s) (hs' : Tidy s')
    (he : e ∈ for_each_sched_rt_entity s (.task p)) :
    (s'.rt (rt_rq_of_se s e)).standing = (sched_rt.others s (rt_rq_of_se s e) e).join
      (if e ∈ queued s' (rt_rq_of_se s e) then entity_standing s' e else .none) := by
  set x := rt_rq_of_se s e with hx
  have hout : ∀ e', e' ≠ e → rt_rq_of_se s e' = x → e' ∉ for_each_sched_rt_entity s (.task p) :=
    fun e' hne heq hin => hne (eq_of_rt_rq_of_se he hin heq)
  have hhome : ∀ e' ∈ queued s x, rt_rq_of_se s e' = x := fun e' hin => ((hs.all x).home_of_mem hin).1
  have hhome' : ∀ e' ∈ queued s' x, rt_rq_of_se s e' = x := fun e' hin => by
    rw [← same_rt_rq_of_se h.tasks e']
    exact ((hs'.all x).home_of_mem hin).1
  rw [(hs'.all x).standing_eq]
  refine standing_split (fun e' hne => ?_) fun e' hin hne => ?_
  · constructor
    · exact fun hin => (h.others e' (hout e' hne (hhome' e' hin)) x).mp hin
    · exact fun hin => (h.others e' (hout e' hne (hhome e' hin)) x).mpr hin
  · have hway := hout e' hne (hhome e' hin)
    cases e' with
    | task q => simp [entity_standing, rt_se_prio, rt_se_boosted, h.tasks]
    | group j parent =>
      have hgroup : s'.rt (j :: parent) = s.rt (j :: parent) := by
        refine h.rt _ fun htail => hway ?_
        rw [for_each_sched_rt_entity, List.mem_cons, mem_ancestors]
        exact .inr htail
      simp [entity_standing, rt_se_prio, rt_se_boosted, hgroup]

end Beside

end cs444.sched_rt
