import Cs444.Prob2.Wakeups

open interleaving

namespace cs444.prob2

variable {E R : Nat}

section Model

/-- How far a reindeer is with a change of `num_reindeer_waiting`: it has not begun, it has read the
    value, or it has written the new one and is still to test it. -/
inductive Update where
  | idle
  | loaded (value : Int)
  | stored (value : Int)
deriving DecidableEq

/-- The program where reading the counter, writing it and testing it are steps of their own, between which
    Santa may assign to it. -/
structure Fine (E R : Nat) where
  state : State E R
  update : Fin R → Update

def Fine.initial (E R : Nat) : Fine E R where
  state := prob2.initial E R
  update _ := .idle

/-- `reindeer`, where `increment` and `decrement` take several steps. -/
def reindeer_fine (f : Fine E R) (id : Fin R) : Option (Fine E R) :=
  match f.state.reindeer id, f.update id with
  | .increment, .idle | .decrement, .idle =>
    some { f with update := Function.update f.update id (.loaded f.state.num_reindeer_waiting) }
  | .increment, .loaded value =>
    some {
      state := { f.state with
        num_reindeer_waiting := value + 1
        reindeer := Function.update f.state.reindeer id .counter_signal }
      update := Function.update f.update id .idle }
  | .decrement, .loaded value =>
    some {
      state := { f.state with num_reindeer_waiting := value - 1 }
      update := Function.update f.update id (.stored (value - 1)) }
  | .decrement, .stored _ =>
    some {
      state := { f.state with
        reindeer := Function.update f.state.reindeer id
          (if f.state.num_reindeer_waiting = 0 then .exit else .hitch_signal) }
      update := Function.update f.update id .idle }
  | _, _ => (reindeer_next f.state id).map fun state => { f with state }

def fine_next (f : Fine E R) : Move E R → Option (Fine E R)
  | .santa => (santa_next f.state).map fun state => { f with state }
  | .draw item => (draw_next f.state item).map fun state => { f with state }
  | .elf id => (elf_next f.state id).map fun state => { f with state }
  | .reindeer id => reindeer_fine f id

end Model

section Refinement

variable {s s' : State E R} {f f' : Fine E R} {id : Fin R}

/-- What a reindeer has read or written is still the value of the counter. -/
def Update.Fresh (num : Int) (p : Reindeer) : Update → Prop
  | .idle => True
  | .loaded value => num = value ∧ (p = .increment ∨ p = .decrement)
  | .stored value => num = value ∧ p = .decrement

def Fine.Fresh (f : Fine E R) : Prop :=
  ∀ id, (f.update id).Fresh f.state.num_reindeer_waiting (f.state.reindeer id)

/-- Where a reindeer is if the decrement and the test are one step. -/
def Update.merge (num : Int) (p : Reindeer) : Update → Reindeer
  | .stored _ => if num = 0 then .exit else .hitch_signal
  | _ => p

/-- The state in which each change of the counter is one step. -/
def Fine.coarse (f : Fine E R) : State E R :=
  { f.state with reindeer := fun id => (f.update id).merge f.state.num_reindeer_waiting (f.state.reindeer id) }

theorem Alarm.in_counter_unique (h : Alarm s) {i j : Fin R} (hi : (s.reindeer i).inCounter = true)
    (hj : (s.reindeer j).inCounter = true) : i = j := by
  have hlock := h.counter_lock
  have hone : s.herd Reindeer.inCounter ≤ 1 := by omega
  exact count_le_one hone hi hj

/-- Santa finds the value in the counter that he assigns to it. -/
theorem Alarm.santa_num (h : Alarm s) (hnext : prob2.santa_next s = some s') :
    s'.num_reindeer_waiting = s.num_reindeer_waiting := by
  cases hsanta : s.santa with simp only [prob2.santa_next, hsanta] at hnext
  | assign_reindeer =>
    cases hnext
    exact (h.num_of_leaving (by rw [hsanta]; rfl) (by rw [hsanta]; rfl)).symm
  | busy_wait | busy_signal | sleep_wait | prepare_wait | prepare_signal | lock_busy | lock_sleep | help_wait
  | help_counter_wait | help_counter_signal | help_mutex_wait | take_wait _ | take_signal _ _ | line_signal _ _
  | help_mutex_signal =>
    obtain ⟨value, -, rfl⟩ := Option.map_eq_some_iff.mp hnext
    rfl
  | test_reindeer | test_elves => split at hnext <;> cases hnext <;> rfl
  | take_search _ => cases hnext
  | help_assign =>
    cases hnext
    rfl

theorem draw_next_frame {item : Fin E} (hnext : draw_next s item = some s') :
    s'.reindeer = s.reindeer ∧ s'.num_reindeer_waiting = s.num_reindeer_waiting := by
  cases hsanta : s.santa with simp only [draw_next, hsanta, reduceCtorEq] at hnext
  | take_search i =>
    split at hnext <;> cases hnext <;> exact ⟨rfl, rfl⟩

section Others

variable {m : Move E R} (hm : ∀ id, m ≠ .reindeer id)
include hm

/-- Santa and the elves do not look where the reindeer are. -/
theorem next_blind (s : State E R) (reindeer : Fin R → Reindeer) :
    next { s with reindeer } m = (next s m).map fun s' => { s' with reindeer } := by
  cases m with
  | santa =>
    cases hsanta : s.santa <;>
      simp only [next, santa_next, hsanta, Option.map_map, Option.map_some, Option.map_none] <;>
      first | rfl | (split <;> rfl)
  | draw item =>
    cases hsanta : s.santa <;> simp only [next, draw_next, hsanta, Option.map_none]
    cases set_take s.elves_waiting item with
    | some elves_waiting => rfl
    | none => simp only [Option.map_some, ← hsanta]
  | elf id =>
    cases helf : s.elf id <;> simp only [next, elf_next, helf, Option.map_map, Option.map_some] <;>
      first | rfl | (split <;> rfl)
  | reindeer id => exact absurd rfl (hm id)

/-- They do not move the reindeer. -/
theorem next_reindeer (hnext : next s m = some s') : s'.reindeer = s.reindeer := by
  cases m with
  | santa => exact (santa_next_herd hnext).reindeer
  | draw item => exact (draw_next_frame hnext).1
  | elf id => exact (elf_next_reindeer hnext).1
  | reindeer id => exact absurd rfl (hm id)

/-- The counter keeps its value, although Santa assigns to it. -/
theorem Alarm.next_num (h : Alarm s) (hnext : next s m = some s') :
    s'.num_reindeer_waiting = s.num_reindeer_waiting := by
  cases m with
  | santa => exact h.santa_num hnext
  | draw item => exact (draw_next_frame hnext).2
  | elf id => exact (elf_next_reindeer hnext).2.2.1
  | reindeer id => exact absurd rfl (hm id)

/-- Their steps are those of the coarser program. -/
theorem fine_next_other (f : Fine E R) : fine_next f m = (next f.state m).map fun state => { f with state } := by
  cases m with
  | santa | draw _ | elf _ => rfl
  | reindeer id => exact absurd rfl (hm id)

end Others

/-- What a reindeer does outside of the changes of the counter, wherever the others are. -/
theorem reindeer_next_outside (hinc : s.reindeer id ≠ .increment) (hdec : s.reindeer id ≠ .decrement)
    (hnext : reindeer_next s id = some s') :
    s'.num_reindeer_waiting = s.num_reindeer_waiting ∧
      ∃ p, p ≠ .exit ∧ s'.reindeer = Function.update s.reindeer id p ∧
        ∀ reindeer : Fin R → Reindeer, reindeer id = s.reindeer id →
          reindeer_next { s with reindeer } id = some { s' with reindeer := Function.update reindeer id p } := by
  cases hp : s.reindeer id with simp only [reindeer_next, hp] at hnext
  | increment => exact absurd hp hinc
  | decrement => exact absurd hp hdec
  | exit | returned => cases hnext
  | counter_wait | counter_signal | wake | counting_wait | hitch_wait | hitch_signal =>
    obtain ⟨value, hvalue, rfl⟩ := Option.map_eq_some_iff.mp hnext
    refine ⟨rfl, _, by simp, rfl, fun reindeer hsame => ?_⟩
    simp only [reindeer_next, hsame, hvalue, Option.map_some]
  | test =>
    split at hnext
    · rename_i hfull
      cases hnext
      refine ⟨rfl, _, by simp, rfl, fun reindeer hsame => ?_⟩
      simp only [reindeer_next, hsame, if_pos hfull]
    · rename_i hmore
      cases hnext
      refine ⟨rfl, _, by simp, rfl, fun reindeer hsame => ?_⟩
      simp only [reindeer_next, hsame, if_neg hmore]

/-- A step that leaves the counter and the reindeer alone. -/
theorem Fine.Fresh.frame (h : f.Fresh) (hreindeer : s'.reindeer = f.state.reindeer)
    (hnum : s'.num_reindeer_waiting = f.state.num_reindeer_waiting) :
    Fine.Fresh { f with state := s' } ∧
      Fine.coarse { f with state := s' } = { s' with reindeer := f.coarse.reindeer } := by
  refine ⟨fun id => ?_, ?_⟩
  · dsimp only
    rw [hreindeer, hnum]
    exact h id
  · simp only [Fine.coarse, hreindeer, hnum]

theorem Fine.coarse_eq (h : ∀ id value, f.update id ≠ .stored value) : f.coarse = f.state := by
  have hreindeer : f.coarse.reindeer = f.state.reindeer := by
    funext id
    have hid := h id
    rw [Fine.coarse]
    dsimp only
    cases hu : f.update id with
    | idle | loaded value => rfl
    | stored value => exact absurd hu (hid value)
  calc f.coarse = { f.state with reindeer := f.coarse.reindeer } := rfl
    _ = f.state := by rw [hreindeer]

/-- Only one reindeer at a time is at a change of the counter. -/
theorem Fine.Fresh.idle_of_ne (h : f.Fresh) (halarm : Alarm f.coarse) (hid : (f.coarse.reindeer id).inCounter = true)
    {j : Fin R} (hj : j ≠ id) : f.update j = .idle := by
  have hfresh := h j
  have hunique : (f.coarse.reindeer j).inCounter = true → j = id := fun hin => halarm.in_counter_unique hin hid
  simp only [Fine.coarse] at hunique
  cases hu : f.update j with
  | idle => rfl
  | loaded value =>
    rw [hu] at hfresh hunique
    obtain ⟨-, hp | hp⟩ := hfresh <;> exact absurd (hunique (by simp [Update.merge, hp])) hj
  | stored value =>
    rw [hu] at hunique
    refine absurd (hunique ?_) hj
    rw [Update.merge]
    split <;> rfl

theorem reindeer_fine_outside (hinc : f.state.reindeer id ≠ .increment) (hdec : f.state.reindeer id ≠ .decrement) :
    reindeer_fine f id = (reindeer_next f.state id).map fun state => { f with state } := by
  rw [reindeer_fine]
  split <;> simp_all

/-- A step of the program is one of the coarser program, or is not seen there. -/
def Follows (f f' : Fine E R) : Prop :=
  f'.Fresh ∧ (f'.coarse = f.coarse ∨ ∃ m, next f.coarse m = some f'.coarse)

theorem Fine.Fresh.outside (h : f.Fresh) (hinc : f.state.reindeer id ≠ .increment)
    (hdec : f.state.reindeer id ≠ .decrement) (hnext : reindeer_fine f id = some f') : Follows f f' := by
  rw [reindeer_fine_outside hinc hdec] at hnext
  obtain ⟨s', hmove, rfl⟩ := Option.map_eq_some_iff.mp hnext
  obtain ⟨hnum, p, -, hreindeer, hcoarse⟩ := reindeer_next_outside hinc hdec hmove
  have hidle : f.update id = .idle := by
    have hid := h id
    cases hu : f.update id with
    | idle => rfl
    | loaded value =>
      rw [hu] at hid
      obtain ⟨-, hp | hp⟩ := hid
      · exact absurd hp hinc
      · exact absurd hp hdec
    | stored value =>
      rw [hu] at hid
      exact absurd hid.2 hdec
  have hid : f.coarse.reindeer id = f.state.reindeer id := by
    simp only [Fine.coarse, hidle, Update.merge]
  refine ⟨fun j => ?_, .inr ⟨.reindeer id, (hcoarse f.coarse.reindeer hid).trans (congrArg some ?_)⟩⟩
  · dsimp only
    rw [hnum, hreindeer]
    obtain rfl | hj := eq_or_ne j id
    · rw [hidle]
      trivial
    · rw [Function.update_of_ne hj]
      exact h j
  · rw [Fine.coarse, Fine.coarse]
    dsimp only
    congr 1
    funext j
    rw [hnum, hreindeer]
    obtain rfl | hj := eq_or_ne j id
    · rw [Function.update_self, Function.update_self, hidle]
      rfl
    · rw [Function.update_of_ne hj, Function.update_of_ne hj]

/-- The counter is read. -/
theorem Fine.Fresh.load (h : f.Fresh) (hp : f.state.reindeer id = .increment ∨ f.state.reindeer id = .decrement)
    (hidle : f.update id = .idle) :
    Follows f { f with update := Function.update f.update id (.loaded f.state.num_reindeer_waiting) } := by
  refine ⟨fun j => ?_, .inl ?_⟩
  · dsimp only
    obtain rfl | hj := eq_or_ne j id
    · rw [Function.update_self]
      exact ⟨rfl, hp⟩
    · rw [Function.update_of_ne hj]
      exact h j
  · rw [Fine.coarse, Fine.coarse]
    dsimp only
    congr 1
    funext j
    obtain rfl | hj := eq_or_ne j id
    · rw [Function.update_self, hidle]
      rfl
    · rw [Function.update_of_ne hj]

section Alone

variable (halone : ∀ j, j ≠ id → f.update j = .idle)
include halone

/-- Between the load and the store the counter is as it was loaded. -/
theorem Fine.Fresh.of_loaded (h : f.Fresh) {value : Int} (hloaded : f.update id = .loaded value) :
    f.coarse = f.state ∧ f.state.num_reindeer_waiting = value := by
  constructor
  · apply Fine.coarse_eq
    intro j value
    obtain rfl | hj := eq_or_ne j id
    · simp [hloaded]
    · simp [halone j hj]
  · have hid := h id
    rw [hloaded] at hid
    exact hid.1

/-- The counter gets one more. -/
theorem Fine.Fresh.store_increment (h : f.Fresh) {value : Int} (hp : f.state.reindeer id = .increment)
    (hloaded : f.update id = .loaded value) :
    Follows f {
      state := { f.state with
        num_reindeer_waiting := value + 1
        reindeer := Function.update f.state.reindeer id .counter_signal }
      update := Function.update f.update id .idle } := by
  have hnone : ∀ j, Function.update f.update id .idle j = .idle := by
    intro j
    obtain rfl | hj := eq_or_ne j id
    · exact Function.update_self _ _ _
    · rw [Function.update_of_ne hj, halone j hj]
  obtain ⟨hbefore, hvalue⟩ := h.of_loaded halone hloaded
  refine ⟨fun j => ?_, .inr ⟨.reindeer id, ?_⟩⟩
  · dsimp only
    rw [hnone j]
    trivial
  · rw [hbefore, Fine.coarse_eq fun j value => by simp [hnone j]]
    simp only [next, reindeer_next, hp, hvalue]

/-- The counter gets one less. -/
theorem Fine.Fresh.store_decrement (h : f.Fresh) {value : Int} (hp : f.state.reindeer id = .decrement)
    (hloaded : f.update id = .loaded value) :
    Follows f {
      state := { f.state with num_reindeer_waiting := value - 1 }
      update := Function.update f.update id (.stored (value - 1)) } := by
  obtain ⟨hbefore, hvalue⟩ := h.of_loaded halone hloaded
  refine ⟨fun j => ?_, .inr ⟨.reindeer id, ?_⟩⟩
  · dsimp only
    obtain rfl | hj := eq_or_ne j id
    · rw [Function.update_self]
      exact ⟨rfl, hp⟩
    · rw [Function.update_of_ne hj, halone j hj]
      trivial
  · rw [hbefore, Fine.coarse]
    simp only [next, reindeer_next, hp, hvalue]
    congr 2
    funext j
    obtain rfl | hj := eq_or_ne j id
    · rw [Function.update_self, Function.update_self]
      rfl
    · rw [Function.update_of_ne hj, Function.update_of_ne hj, halone j hj]
      rfl

/-- The counter is tested. -/
theorem follows_test {value : Int} (hstored : f.update id = .stored value) :
    Follows f {
      state := { f.state with
        reindeer := Function.update f.state.reindeer id
          (if f.state.num_reindeer_waiting = 0 then .exit else .hitch_signal) }
      update := Function.update f.update id .idle } := by
  refine ⟨fun j => ?_, .inl ?_⟩
  · dsimp only
    obtain rfl | hj := eq_or_ne j id
    · rw [Function.update_self, Function.update_self]
      trivial
    · rw [Function.update_of_ne hj, Function.update_of_ne hj, halone j hj]
      trivial
  · rw [Fine.coarse, Fine.coarse]
    dsimp only
    congr 1
    funext j
    obtain rfl | hj := eq_or_ne j id
    · rw [Function.update_self, Function.update_self, hstored]
      rfl
    · rw [Function.update_of_ne hj, Function.update_of_ne hj]

end Alone

theorem Fine.Fresh.reindeer_fine (h : f.Fresh) (halarm : Alarm f.coarse) (hnext : reindeer_fine f id = some f') :
    Follows f f' := by
  have hfresh := h id
  have halone : (f.coarse.reindeer id).inCounter = true → ∀ j, j ≠ id → f.update j = .idle :=
    fun hid j hj => h.idle_of_ne halarm hid hj
  simp only [Fine.coarse] at halone
  by_cases hinc : f.state.reindeer id = .increment
  · cases hu : f.update id with simp only [prob2.reindeer_fine, hinc, hu] at hnext hfresh halone
    | idle =>
      cases hnext
      exact h.load (.inl hinc) hu
    | loaded value =>
      cases hnext
      exact h.store_increment (halone rfl) hinc hu
    | stored value => exact absurd hfresh.2 (by simp)
  by_cases hdec : f.state.reindeer id = .decrement
  · cases hu : f.update id with simp only [prob2.reindeer_fine, hdec, hu] at hnext hfresh halone
    | idle =>
      cases hnext
      exact h.load (.inr hdec) hu
    | loaded value =>
      cases hnext
      exact h.store_decrement (halone rfl) hdec hu
    | stored value =>
      cases hnext
      refine follows_test (halone ?_) hu
      rw [Update.merge]
      split <;> rfl
  exact h.outside hinc hdec hnext

theorem Fine.Fresh.step (h : f.Fresh) (halarm : Alarm f.coarse) {m : Move E R} (hnext : fine_next f m = some f') :
    Follows f f' := by
  by_cases hm : ∃ id, m = .reindeer id
  · obtain ⟨id, rfl⟩ := hm
    exact h.reindeer_fine halarm hnext
  rw [not_exists] at hm
  rw [fine_next_other hm] at hnext
  obtain ⟨s', hmove, rfl⟩ := Option.map_eq_some_iff.mp hnext
  have hcoarse : next f.coarse m = some { s' with reindeer := f.coarse.reindeer } := by
    rw [Fine.coarse, next_blind hm, hmove]
    rfl
  have hcounter := halarm.next_num hm hcoarse
  have hnum : s'.num_reindeer_waiting = f.state.num_reindeer_waiting := hcounter
  obtain ⟨hfresh, heq⟩ := h.frame (next_reindeer hm hmove) hnum
  exact ⟨hfresh, .inr ⟨m, hcoarse.trans (congrArg some heq.symm)⟩⟩

/-- The program is a refinement of the coarser one. -/
theorem refined (hR : 1 ≤ R) (h : Reachable fine_next (Fine.initial E R) f) :
    f.Fresh ∧ Reachable next (initial E R) f.coarse := by
  have hstart : (Fine.initial E R).Fresh ∧ (Fine.initial E R).coarse = initial E R := ⟨fun _ => trivial, rfl⟩
  have hstep : ∀ (f : Fine E R) (s : State E R) m f', Reachable next (initial E R) s → f.Fresh ∧ f.coarse = s →
      fine_next f m = some f' → (f'.Fresh ∧ f'.coarse = s) ∨ ∃ m s', next s m = some s' ∧ f'.Fresh ∧ f'.coarse = s' := by
    rintro f s m f' hs ⟨hfresh, rfl⟩ hnext
    obtain ⟨hfresh', hsame | ⟨m', hmove⟩⟩ := hfresh.step (Alarm.of_reachable hR hs).1 hnext
    · exact .inl ⟨hfresh', hsame⟩
    · exact .inr ⟨m', _, hmove, hfresh', rfl⟩
  obtain ⟨s, hs, hfresh, rfl⟩ := Reachable.simulate hstep hstart h
  exact ⟨hfresh, hs⟩

end Refinement

section Flight

variable {s s' : State E R} {f f' : Fine E R} {id : Fin R}

/-- A step of a reindeer leaves the counter at zero if one is at `exit` after it: nobody else has the lock
    while a reindeer is there. -/
theorem Alarm.exit_reindeer (h : Alarm s) {j : Fin R} (hnext : prob2.reindeer_next s j = some s')
    (hexit : s.reindeer id = .exit → s.num_reindeer_waiting = 0) (hid : s'.reindeer id = .exit) :
    s'.num_reindeer_waiting = 0 := by
  have halone : (s.reindeer j).inCounter = true → s.reindeer id = .exit → id = j := fun hj hid =>
    h.in_counter_unique (by rw [hid]; rfl) hj
  by_cases hinc : s.reindeer j = .increment
  · simp only [prob2.reindeer_next, hinc] at hnext
    cases hnext
    dsimp only at hid
    obtain rfl | hne := eq_or_ne id j
    · simp at hid
    · rw [Function.update_of_ne hne] at hid
      exact absurd (halone (by rw [hinc]; rfl) hid) hne
  by_cases hdec : s.reindeer j = .decrement
  · simp only [prob2.reindeer_next, hdec] at hnext
    cases hnext
    dsimp only at hid ⊢
    obtain rfl | hne := eq_or_ne id j
    · by_contra hmore
      rw [Function.update_self, if_neg hmore] at hid
      cases hid
    · rw [Function.update_of_ne hne] at hid
      exact absurd (halone (by rw [hdec]; rfl) hid) hne
  obtain ⟨hnum, p, hp, hreindeer, -⟩ := reindeer_next_outside hinc hdec hnext
  rw [hnum]
  rw [hreindeer] at hid
  obtain rfl | hne := eq_or_ne id j
  · rw [Function.update_self] at hid
    exact absurd hid hp
  · rw [Function.update_of_ne hne] at hid
    exact hexit hid

/-- A reindeer that has called `exit` has left the counter at zero, and keeps the lock. -/
theorem exit_num (hR : 1 ≤ R) (h : Reachable next (initial E R) s) (hid : s.reindeer id = .exit) :
    s.num_reindeer_waiting = 0 := by
  suffices hboth : Reachable next (initial E R) s ∧ ∀ id, s.reindeer id = .exit → s.num_reindeer_waiting = 0 from
    hboth.2 id hid
  refine h.invariant (I := fun s => Reachable next (initial E R) s ∧ ∀ id, s.reindeer id = .exit → s.num_reindeer_waiting = 0)
    ⟨⟨[], rfl⟩, fun id hid => absurd hid (by simp [initial])⟩ ?_
  rintro s m s' ⟨hs, hexit⟩ hnext
  refine ⟨hs.step hnext, fun id hid => ?_⟩
  obtain ⟨halarm, -, -⟩ := Alarm.of_reachable hR hs
  by_cases hm : ∃ j, m = .reindeer j
  · obtain ⟨j, rfl⟩ := hm
    exact halarm.exit_reindeer hnext (hexit id) hid
  rw [not_exists] at hm
  rw [next_reindeer hm hnext] at hid
  rw [halarm.next_num hm hnext]
  exact hexit id hid

/-- When a reindeer has called `exit`, all of them are hitched. -/
theorem exit_hitched (hR : 1 ≤ R) (h : Reachable next (initial E R) s) (hid : s.reindeer id = .exit) :
    s.herd Reindeer.hitched = R := by
  obtain ⟨halarm, -, -⟩ := Alarm.of_reachable hR h
  have hnum := exit_num hR h hid
  have hsome : 0 < s.herd Reindeer.hitched := count_pos.mpr ⟨id, by rw [hid]; rfl⟩
  have hle := hitched_le_called s
  have hcalled := halarm.called
  have haway : s.santa.away = true := by
    by_contra hnot
    rw [if_neg hnot] at hcalled
    omega
  have hleaving : s.santa.leaving = true := by
    cases hsanta : s.santa <;> rw [hsanta] at haway <;> simp_all
  have hback := halarm.leaving hleaving
  have hwaiting := halarm.waiting
  omega

/-- The reindeer has written the counter for the first time. -/
def Fine.incremented (f : Fine E R) (id : Fin R) : Bool :=
  (f.state.reindeer id).back

/-- The reindeer has written the counter for the second time: it is hitched. -/
def Fine.decremented (f : Fine E R) (id : Fin R) : Bool :=
  match f.update id with
  | .stored _ => true
  | _ => (f.state.reindeer id).hitched

/-- The counter is not negative and has lost no increment and no decrement; what a reindeer goes by is what
    is in the counter, and Santa assigns what is there already. A reindeer calls `exit` when it has itself
    brought the counter to zero; all reindeer are hitched then, and no other one has called it. -/
structure Sleigh (f : Fine E R) : Prop where
  nonneg : 0 ≤ f.state.num_reindeer_waiting
  counted : f.state.num_reindeer_waiting + count f.decremented = count f.incremented
  fresh : ∀ id value, f.update id = .loaded value ∨ f.update id = .stored value →
    f.state.num_reindeer_waiting = value
  assign : f.state.santa = .assign_reindeer → f.state.num_reindeer_waiting = R
  last : ∀ m f' id, fine_next f m = some f' → f.state.reindeer id ≠ .exit → f'.state.reindeer id = .exit →
    f.update id = .stored 0
  exit : ∀ id, f.state.reindeer id = .exit → f.state.num_reindeer_waiting = 0 ∧ (∀ j, f.decremented j = true) ∧
    ∀ j, f.state.reindeer j = .exit → j = id

theorem Fine.Fresh.counts (h : f.Fresh) :
    f.coarse.herd Reindeer.back = count f.incremented ∧ f.coarse.herd Reindeer.hitched = count f.decremented := by
  refine ⟨congrArg count (funext fun id => ?_), congrArg count (funext fun id => ?_)⟩
  · have hid := h id
    rw [Fine.coarse, Fine.incremented]
    dsimp only
    cases hu : f.update id with
    | idle | loaded value => rfl
    | stored value =>
      rw [hu] at hid
      rw [hid.2, Update.merge]
      split <;> rfl
  · rw [Fine.coarse, Fine.decremented]
    dsimp only
    cases hu : f.update id with
    | idle | loaded value => rfl
    | stored value =>
      rw [Update.merge]
      dsimp only
      split <;> rfl

theorem Fine.Fresh.coarse_exit (h : f.Fresh) (hid : f.state.reindeer id = .exit) : f.coarse.reindeer id = .exit := by
  have hfresh := h id
  rw [Fine.coarse]
  dsimp only
  cases hu : f.update id with
  | idle => exact hid
  | loaded value => exact hid
  | stored value =>
    rw [hu, hid] at hfresh
    exact absurd hfresh.2 (by simp)

theorem Fine.Fresh.last_reindeer (h : f.Fresh) {j : Fin R} (hnext : prob2.reindeer_fine f j = some f')
    (hbefore : f.state.reindeer id ≠ .exit) (hafter : f'.state.reindeer id = .exit) : f.update id = .stored 0 := by
  -- Another reindeer does not move this one.
  have hself : ∀ p, f'.state.reindeer = Function.update f.state.reindeer j p → id = j ∧ p = .exit := by
    intro p hp
    rw [hp] at hafter
    obtain rfl | hne := eq_or_ne id j
    · exact ⟨rfl, (Function.update_self _ _ _).symm.trans hafter⟩
    · rw [Function.update_of_ne hne] at hafter
      exact absurd hafter hbefore
  have hfresh := h j
  by_cases hinc : f.state.reindeer j = .increment
  · cases hu : f.update j with simp only [prob2.reindeer_fine, hinc, hu] at hnext hfresh
    | idle =>
      cases hnext
      exact absurd hafter hbefore
    | loaded value =>
      cases hnext
      exact absurd (hself _ rfl).2 (by simp)
    | stored value => exact absurd hfresh.2 (by simp)
  by_cases hdec : f.state.reindeer j = .decrement
  · cases hu : f.update j with simp only [prob2.reindeer_fine, hdec, hu] at hnext hfresh
    | idle =>
      cases hnext
      exact absurd hafter hbefore
    | loaded value =>
      cases hnext
      exact absurd hafter hbefore
    | stored value =>
      cases hnext
      obtain ⟨rfl, hexit⟩ := hself _ rfl
      have hzero : f.state.num_reindeer_waiting = 0 := by
        by_contra hmore
        rw [if_neg hmore] at hexit
        cases hexit
      rw [hu, ← hfresh.1, hzero]
  rw [reindeer_fine_outside hinc hdec] at hnext
  obtain ⟨s', hmove, rfl⟩ := Option.map_eq_some_iff.mp hnext
  obtain ⟨-, p, hp, hreindeer, -⟩ := reindeer_next_outside hinc hdec hmove
  exact absurd (hself p hreindeer).2 hp

/-- A reindeer that calls `exit` has found the zero that it has written. -/
theorem Fine.Fresh.last (h : f.Fresh) {m : Move E R} (hnext : fine_next f m = some f')
    (hbefore : f.state.reindeer id ≠ .exit) (hafter : f'.state.reindeer id = .exit) : f.update id = .stored 0 := by
  by_cases hm : ∃ j, m = .reindeer j
  · obtain ⟨j, rfl⟩ := hm
    exact h.last_reindeer hnext hbefore hafter
  rw [not_exists] at hm
  rw [fine_next_other hm] at hnext
  obtain ⟨s', hmove, rfl⟩ := Option.map_eq_some_iff.mp hnext
  exact absurd ((congrFun (next_reindeer hm hmove) id).symm.trans hafter) hbefore

theorem Sleigh.of_reachable (hR : 1 ≤ R) (h : Reachable fine_next (Fine.initial E R) f) : Sleigh f := by
  obtain ⟨hfresh, hreachable⟩ := refined hR h
  obtain ⟨halarm, -, -⟩ := Alarm.of_reachable hR hreachable
  obtain ⟨hback, hhitched⟩ := hfresh.counts
  have hwaiting := halarm.waiting
  have hle := hitched_le_back f.coarse
  refine ⟨?_, ?_, fun id value hvalue => ?_, fun hsanta => ?_, fun m f' id => hfresh.last, fun id hid => ?_⟩
  · have hnum : 0 ≤ f.coarse.num_reindeer_waiting := by omega
    exact hnum
  · rw [← hback, ← hhitched]
    exact hwaiting
  · have hid := hfresh id
    obtain hu | hu := hvalue <;> rw [hu] at hid <;> exact hid.1
  · have hcoarse : f.coarse.santa = .assign_reindeer := hsanta
    exact halarm.num_of_leaving (by rw [hcoarse]; rfl) (by rw [hcoarse]; rfl)
  · have hexit := hfresh.coarse_exit hid
    have hzero := exit_num hR hreachable hexit
    refine ⟨hzero, fun j => ?_, fun j hj => ?_⟩
    · have hall := exit_hitched hR hreachable hexit
      rw [hhitched] at hall
      exact count_eq_card (hall.trans (Fintype.card_fin R).symm) j
    · exact halarm.in_counter_unique (by rw [hfresh.coarse_exit hj]; rfl) (by rw [hexit]; rfl)

end Flight

section Preparing

variable {f f' : Fine E R}

/-- Santa prepares the sleigh, in this state. -/
def prepares (f : Fine E R) : Move E R → Option (State E R)
  | .santa => if f.state.santa = .prepare_signal then some f.state else none
  | _ => none

/-- How often the sleigh was prepared, and when. -/
structure Prepared (f : Fine E R) (es : List (State E R)) : Prop where
  reachable : Reachable fine_next (Fine.initial E R) f
  once : es.length ≤ 1
  away : es ≠ [] → f.state.santa.away = true
  back : ∀ s ∈ es, ∀ id, (s.reindeer id).back = true

/-- Once he has called the reindeer, Santa waits for himself. -/
theorem stays_away (hR : 1 ≤ R) (h : Reachable fine_next (Fine.initial E R) f) (haway : f.state.santa.away = true) :
    santa_next f.state = none := by
  obtain ⟨-, hbalance, -⟩ := Alarm.of_reachable hR (refined hR h).2
  have hbusy : f.state.santa_busy_mutex + f.state.santa.holdsBusy + helping f.state.num_elves_being_helped + _ = 1 :=
    hbalance.busy
  cases hsanta : f.state.santa <;> rw [hsanta] at haway <;>
    simp only [Santa.away, Bool.false_eq_true] at haway <;> rw [hsanta] at hbusy <;> simp only [Santa.holdsBusy] at hbusy
  · have hzero : f.state.santa_busy_mutex = 0 := by omega
    simp [santa_next, hsanta, hzero]
  · omega

theorem reindeer_fine_santa {id : Fin R} (hnext : reindeer_fine f id = some f') :
    f'.state.santa = f.state.santa := by
  rw [reindeer_fine] at hnext
  split at hnext
  case h_6 =>
    obtain ⟨s', hmove, rfl⟩ := Option.map_eq_some_iff.mp hnext
    exact (reindeer_next_frame hmove).2.1
  all_goals
    cases hnext
    rfl

theorem Prepared.step (hR : 1 ≤ R) {es : List (State E R)} (h : Prepared f es) {m : Move E R}
    (hnext : fine_next f m = some f') : Prepared f' (es ++ (prepares f m).toList) := by
  have hreachable := h.reachable.step hnext
  have hsame : prepares f m = none → (f.state.santa.away = true → f'.state.santa.away = true) →
      Prepared f' (es ++ (prepares f m).toList) := by
    intro hnone haway
    rw [hnone, Option.toList_none, List.append_nil]
    exact ⟨hreachable, h.once, fun hes => haway (h.away hes), h.back⟩
  cases m with
  | santa =>
    obtain ⟨s', hmove, rfl⟩ := Option.map_eq_some_iff.mp hnext
    have hstill : f.state.santa.away ≠ true := fun haway => by
      rw [stays_away hR h.reachable haway] at hmove
      cases hmove
    have hempty : es = [] := by
      by_contra hes
      exact hstill (h.away hes)
    by_cases hprepares : f.state.santa = .prepare_signal
    · have hback : f.coarse.herd Reindeer.back = R :=
        (Alarm.of_reachable hR (refined hR h.reachable).2).1.leaving
          (by rw [show f.coarse.santa = f.state.santa from rfl, hprepares]; rfl)
      rw [(refined hR h.reachable).1.counts.1] at hback
      have haway : s'.santa.away = true := by
        simp only [santa_next, hprepares] at hmove
        obtain ⟨value, -, rfl⟩ := Option.map_eq_some_iff.mp hmove
        rfl
      have hone : prepares f .santa = some f.state := if_pos hprepares
      rw [hempty, hone]
      refine ⟨hreachable, Nat.le_refl 1, fun _ => haway, fun s hs id => ?_⟩
      obtain rfl := List.mem_singleton.mp hs
      exact count_eq_card (hback.trans (Fintype.card_fin R).symm) id
    · exact hsame (if_neg hprepares) fun haway => absurd haway hstill
  | draw item =>
    obtain ⟨s', hmove, rfl⟩ := Option.map_eq_some_iff.mp hnext
    refine hsame rfl fun haway => ?_
    cases hsanta : f.state.santa <;> rw [hsanta] at haway <;>
      simp only [Santa.away, Bool.false_eq_true] at haway <;> simp [draw_next, hsanta] at hmove
  | elf id =>
    obtain ⟨s', hmove, rfl⟩ := Option.map_eq_some_iff.mp hnext
    refine hsame rfl fun haway => ?_
    rw [(elf_next_frame hmove).santa]
    exact haway
  | reindeer id =>
    refine hsame rfl fun haway => ?_
    rw [reindeer_fine_santa hnext]
    exact haway

/-- Every run, for any number of reindeer and of elves. -/
theorem sleigh_prepared_once (hR : 1 ≤ R) {ms : List (Move E R)} (h : run fine_next (Fine.initial E R) ms = some f) :
    Sleigh f ∧ (trace fine_next prepares (Fine.initial E R) ms).length ≤ 1 ∧
      ∀ s ∈ trace fine_next prepares (Fine.initial E R) ms, ∀ id, (s.reindeer id).back = true := by
  have hstart : Prepared (Fine.initial E R) [] := ⟨⟨[], rfl⟩, Nat.zero_le 1, fun h => absurd rfl h, by simp⟩
  have hprepared := trace_invariant prepares (I := Prepared) (fun f es m f' hf hnext => hf.step hR hnext) hstart h
  rw [List.nil_append] at hprepared
  exact ⟨.of_reachable hR ⟨ms, h⟩, hprepared.once, hprepared.back⟩

/-- Two reindeer come back, Santa prepares the sleigh, and they get hitched. -/
def twoReindeer : List (Move 0 2) :=
  let first := .reindeer ⟨0, Nat.two_pos⟩
  let second := .reindeer ⟨1, Nat.one_lt_two⟩
  [first, first, .santa, .santa, first, first, first, second, second, second, second, second, second] ++
    [.santa, .santa, .santa, .santa, .santa] ++
    [first, second, first, first, first, first, first, second, second, second, second]

theorem sleigh_prepared_once_twoReindeer :
    ∃ f, run fine_next (Fine.initial 0 2) twoReindeer = some f ∧ f.state.reindeer ⟨1, Nat.one_lt_two⟩ = .exit ∧
      Sleigh f ∧ (trace fine_next prepares (Fine.initial 0 2) twoReindeer).length = 1 := by
  have hlast : (run fine_next (Fine.initial 0 2) twoReindeer).map (·.state.reindeer ⟨1, Nat.one_lt_two⟩) = some .exit := by
    decide +kernel
  have hone : (trace fine_next prepares (Fine.initial 0 2) twoReindeer).length = 1 := by decide +kernel
  obtain ⟨f, hrun, hexit⟩ := Option.map_eq_some_iff.mp hlast
  exact ⟨f, hrun, hexit, (sleigh_prepared_once (by decide) hrun).1, hone⟩

end Preparing

end cs444.prob2
