import Cs444.Prob2.Wakeups

open interleaving

open Function

namespace cs444.prob2

variable {E R : Nat} {s s' : State E R}

section Counts

/-- The reindeer has called Santa, or has found that it need not. -/
@[simp] def Reindeer.told : Reindeer → Bool
  | .counter_wait | .increment | .counter_signal | .test | .wake => false
  | _ => true

@[simp] def Elf.wakes : Elf → Bool
  | .wake => true
  | _ => false

/-- The call that the third elf of a full set has not made yet. -/
def State.announced (s : State E R) : Nat :=
  if 3 ≤ s.occupied then s.tally fun p _ => p.alerts else 0

/-- There is a group of elves for Santa, or he is taking it out of the set. -/
def State.assembled (s : State E R) : Nat :=
  if 3 ≤ s.occupied ∨ s.santa.need.isSome = true then 1 else 0

/-- How many wake-up calls there are. Each call that is pending, that Santa has taken and not come to the end of,
    or that an elf is about to make, comes from a reindeer of its own or is that of the one group of elves. -/
structure Calls (s : State E R) : Prop where
  calls : s.santa_sleep_mutex + s.santa.heedsElves.toNat + s.announced ≤ s.herd Reindeer.told + s.assembled
  third : 0 < s.tally (fun p _ => p.wakes) → 3 ≤ s.occupied
  group : s.santa.need.isSome = true → 3 ≤ E

theorem calls_initial : Calls (initial E R) := by
  refine ⟨?_, fun h => ?_, fun h => absurd h (by simp [initial])⟩
  · have hnone : (initial E R).announced = 0 := by
      rw [State.announced, tally_initial rfl, ite_self]
    rw [hnone]
    exact Nat.zero_le _
  · rw [tally_initial rfl] at h
    exact absurd h (Nat.lt_irrefl 0)

theorem Calls.assembled_le (h : Calls s) : s.assembled ≤ 1 ∧ (s.assembled = 1 → 3 ≤ E) := by
  have hfull : s.occupied ≤ E := tally_le _
  have hgroup := h.group
  rw [State.assembled]
  split
  · rename_i hsome
    refine ⟨Nat.le_refl 1, fun _ => hsome.elim (fun hthree => ?_) hgroup⟩
    omega
  · exact ⟨Nat.zero_le 1, fun habsurd => absurd habsurd (by decide)⟩

end Counts

section Steps

/-- A reindeer moves on, and makes no call without being counted for it. -/
theorem Calls.reindeer_move (h : Calls s) {id : Fin R} {p p' : Reindeer} (hp : s.reindeer id = p)
    (hreindeer : s'.reindeer = update s.reindeer id p') (hsanta : s'.santa = s.santa)
    (helf : s'.elf = s.elf) (hset : s'.elves_waiting = s.elves_waiting)
    (hcall : s'.santa_sleep_mutex + p.told.toNat ≤ s.santa_sleep_mutex + p'.told.toNat) : Calls s' := by
  have hherd := herd_update hreindeer Reindeer.told
  rw [hp] at hherd
  have htally : ∀ P, s'.tally P = s.tally P := fun P => by rw [State.tally, State.tally, helf, hset]
  have hoccupied : s'.occupied = s.occupied := htally _
  obtain ⟨hcalls, hthird, hgroup⟩ := h
  refine ⟨?_, ?_, ?_⟩
  · rw [State.announced, State.assembled, htally, hoccupied, hsanta, ← State.announced, ← State.assembled]
    omega
  · rw [htally, hoccupied]
    exact hthird
  · rw [hsanta]
    exact hgroup

theorem Calls.reindeer_next (h : Calls s) {id : Fin R} (hnext : reindeer_next s id = some s') : Calls s' := by
  cases hp : s.reindeer id with simp only [prob2.reindeer_next, hp] at hnext
  | counter_wait | counter_signal | counting_wait | hitch_wait | hitch_signal =>
    obtain ⟨value, -, rfl⟩ := Option.map_eq_some_iff.mp hnext
    exact h.reindeer_move hp rfl rfl rfl rfl (Nat.le_refl _)
  | wake =>
    obtain ⟨value, hvalue, rfl⟩ := Option.map_eq_some_iff.mp hnext
    obtain ⟨rfl, -⟩ := sem_signal_eq_some.mp hvalue
    exact h.reindeer_move hp rfl rfl rfl rfl (Nat.le_refl _)
  | increment =>
    cases hnext
    exact h.reindeer_move hp rfl rfl rfl rfl (Nat.le_refl _)
  | test =>
    split at hnext <;> cases hnext <;>
      exact h.reindeer_move hp rfl rfl rfl rfl (by simp)
  | decrement =>
    cases hnext
    refine h.reindeer_move hp rfl rfl rfl rfl ?_
    split <;> exact Nat.le_refl _
  | exit | returned => cases hnext

/-- An elf that is not inserting itself moves on, and makes no call but the one that was announced. -/
theorem Calls.elf_move (h : Calls s) {id : Fin E} {p p' : Elf} (hnext : elf_next s id = some s') (hp : s.elf id = p)
    (hp' : s'.elf id = p') (hslot : s'.elves_waiting.slots id = s.elves_waiting.slots id)
    (hcall : s'.santa_sleep_mutex + (if 3 ≤ s.occupied then p'.alerts.toNat else 0) ≤
      s.santa_sleep_mutex + if 3 ≤ s.occupied then p.alerts.toNat else 0)
    (hthird : p'.wakes = true → p.wakes = true ∨ 3 ≤ s.occupied) : Calls s' := by
  have hmove := elf_next_frame hnext
  have hherd : s'.herd Reindeer.told = s.herd Reindeer.told := by
    rw [State.herd, State.herd, (elf_next_reindeer hnext).1]
  have htally := tally_change hmove.elf hmove.slots
  rw [hp, hp', hslot] at htally
  have halerts := htally fun p _ => p.alerts
  have hwakes := htally fun p _ => p.wakes
  have hoccupied : s'.occupied = s.occupied := by
    have hsame := htally fun _ slot => slot
    rw [State.occupied, State.occupied]
    omega
  obtain ⟨hcalls, hthird₀, hgroup⟩ := h
  have hassembled : s'.assembled = s.assembled := by rw [State.assembled, State.assembled, hoccupied, hmove.santa]
  refine ⟨?_, fun hpos => ?_, ?_⟩
  · rw [State.announced] at hcalls ⊢
    rw [hherd, hassembled, hmove.santa, hoccupied]
    split at hcalls
    · rename_i hthree
      rw [if_pos hthree] at hcall ⊢
      rw [if_pos hthree] at hcall
      omega
    · rename_i hfewer
      rw [if_neg hfewer] at hcall ⊢
      rw [if_neg hfewer] at hcall
      omega
  · rw [hoccupied]
    cases hnew : p'.wakes with
    | true =>
      obtain hold | hthree := hthird hnew
      · exact hthird₀ (tally_pos id (by rw [hp]; exact hold))
      · exact hthree
    | false =>
      rw [hnew] at hwakes
      simp only [Bool.toNat_false] at hwakes
      exact hthird₀ (by omega)
  · rw [hmove.santa]
    exact hgroup

theorem Balance.alone_in_mutex (h : Balance s) {i j : Fin E} (hi : (s.elf i).inMutex = true)
    (hj : (s.elf j).inMutex = true) : i = j := by
  have hmutex := h.elf_mutex
  have hone : s.inMutex ≤ 1 := by omega
  exact count_le_one (P := fun id => (s.elf id).inMutex) hone hi hj

/-- An elf puts itself into the set. If it is the third, it will call Santa. -/
theorem Calls.elf_insert (h : Calls s) (hbalance : Balance s) (hbalance' : Balance s') {id : Fin E}
    (hnext : elf_next s id = some s') (hp : s.elf id = .insert) (hslot : s.elves_waiting.slots id = false) :
    Calls s' := by
  have hmove := elf_next_frame hnext
  have hle := hbalance'.occupied_le
  -- Nobody else has the mutex: Santa has not begun to take elves, and no other elf is about to call him.
  have hin : 0 < s.inMutex := tally_pos id (by rw [hp]; rfl)
  have hqueueing : 0 < s.queueing := tally_pos id (by rw [hp]; rfl)
  have hneed : ∀ k, s.santa.need ≠ some k := by
    intro k hk
    have hmutex := hbalance.elf_mutex
    have hzero := hbalance.no_queueing hk (by omega)
    omega
  have hquiet : s.tally (fun p _ => p.alerts) = 0 := by
    by_contra hsome
    obtain ⟨j, hj⟩ := count_pos.mp (Nat.pos_of_ne_zero hsome)
    have hinj : (s.elf j).inMutex = true := by cases hp : s.elf j <;> simp_all
    rw [hbalance.alone_in_mutex hinj (j := id) (by rw [hp]; rfl), hp] at hj
    cases hj
  have hherd : s'.herd Reindeer.told = s.herd Reindeer.told := by
    rw [State.herd, State.herd, (elf_next_reindeer hnext).1]
  obtain ⟨hp', hslot', hsleep⟩ : s'.elf id = .insert_signal ∧ s'.elves_waiting.slots id = true ∧
      s'.santa_sleep_mutex = s.santa_sleep_mutex := by
    simp only [elf_next, hp] at hnext
    cases hnext
    exact ⟨update_self .., update_self .., rfl⟩
  have htally := tally_change hmove.elf hmove.slots
  rw [hp, hp', hslot, hslot'] at htally
  have hoccupied : s'.occupied = s.occupied + 1 := htally fun _ slot => slot
  have halerts : s'.tally (fun p _ => p.alerts) = s.tally (fun p _ => p.alerts) + 1 := htally fun p _ => p.alerts
  have hwakes : s'.tally (fun p _ => p.wakes) = s.tally fun p _ => p.wakes := htally fun p _ => p.wakes
  have hnone : s.santa.need = none := Option.eq_none_iff_forall_ne_some.mpr hneed
  obtain ⟨hcalls, hthird, hgroup⟩ := h
  refine ⟨?_, fun hpos => ?_, ?_⟩
  · have hbefore : s.announced = 0 ∧ s.assembled = 0 := by
      simp only [State.announced, State.assembled, hnone, hquiet]
      simp
      omega
    have hafter : s'.announced = s'.assembled := by
      simp only [State.announced, State.assembled, halerts, hquiet, hmove.santa, hnone, Option.isSome_none,
        Bool.false_eq_true, or_false]
    rw [hherd, hsleep, hmove.santa]
    omega
  · rw [hwakes] at hpos
    have hthree := hthird hpos
    omega
  · rw [hmove.santa]
    exact hgroup

theorem Calls.elf_next (h : Calls s) (hbalance : Balance s) (hbalance' : Balance s') (hlocal : Local s) {id : Fin E}
    (hnext : elf_next s id = some s') : Calls s' := by
  have hmoved := hnext
  cases hp : s.elf id with simp only [prob2.elf_next, hp] at hnext
  | counting_wait | mutex_wait | insert_wait | mutex_signal | line_wait | counter_wait | busy_signal | counting_signal
  | counter_signal | insert_signal =>
    obtain ⟨value, -, rfl⟩ := Option.map_eq_some_iff.mp hnext
    exact h.elf_move hmoved hp (update_self ..) rfl (Nat.le_refl _) (by simp)
  | insert =>
    have hfits := hlocal id
    rw [hp] at hfits
    exact h.elf_insert hbalance hbalance' hmoved hp hfits.1
  | test =>
    split at hnext
    · rename_i hthree
      cases hnext
      refine h.elf_move hmoved hp (update_self ..) rfl (Nat.le_refl _) fun _ => .inr ?_
      rw [set_cardinality, hbalance.cardinality] at hthree
      exact Int.ofNat_le.mp (le_of_eq hthree)
    · cases hnext
      refine h.elf_move hmoved hp (update_self ..) rfl ?_ (by simp)
      simp
  | wake =>
    -- The call that was announced is made.
    obtain ⟨value, hvalue, rfl⟩ := Option.map_eq_some_iff.mp hnext
    obtain ⟨rfl, -⟩ := sem_signal_eq_some.mp hvalue
    have hthree := h.third (tally_pos id (by rw [hp]; rfl))
    refine h.elf_move hmoved hp (update_self ..) rfl ?_ (by simp)
    simp [hthree]
  | decrement =>
    cases hnext
    refine h.elf_move hmoved hp (update_self ..) rfl ?_ ?_
    · split <;> exact Nat.le_refl _
    · split <;> simp

/-- Santa moves on. He takes a call before he looks, and has come to the end of it when he has taken the elves out
    of the set or finds nothing to do. -/
theorem Calls.santa_move (h : Calls s) (hmove : HerdMove s s')
    (hslots : s'.elves_waiting.slots = s.elves_waiting.slots)
    (hcall : s'.santa_sleep_mutex + s'.santa.heedsElves.toNat + s.assembled ≤
      s.santa_sleep_mutex + s.santa.heedsElves.toNat + s'.assembled)
    (hgroup : s'.santa.need.isSome = true → s.santa.need.isSome = true ∨ 3 ≤ E) : Calls s' := by
  have htally : ∀ P, s'.tally P = s.tally P := fun P => by rw [State.tally, State.tally, hmove.elf, hslots]
  have hoccupied : s'.occupied = s.occupied := htally _
  have hherd : s'.herd Reindeer.told = s.herd Reindeer.told := by rw [State.herd, State.herd, hmove.reindeer]
  have hannounced : s'.announced = s.announced := by rw [State.announced, State.announced, hoccupied, htally]
  obtain ⟨hcalls, hthird, hgroup₀⟩ := h
  refine ⟨?_, ?_, fun hneed => (hgroup hneed).elim hgroup₀ fun hthree => hthree⟩
  · rw [hherd, hannounced]
    omega
  · rw [htally, hoccupied]
    exact hthird

/-- Santa moves on with the same group, or none, and the same call. -/
theorem Calls.santa_same (h : Calls s) (hnext : santa_next s = some s')
    (hneed : s'.santa.need.isSome = s.santa.need.isSome)
    (hcall : s'.santa_sleep_mutex + s'.santa.heedsElves.toNat ≤ s.santa_sleep_mutex + s.santa.heedsElves.toNat) :
    Calls s' := by
  have hframe := santa_next_frame hnext
  have hassembled : s'.assembled = s.assembled := by
    rw [State.assembled, State.assembled, hframe.counts.1, hneed]
  refine h.santa_move (santa_next_herd hnext) hframe.slots (by omega) fun hsome => .inl ?_
  rwa [← hneed]

theorem Calls.santa_next (h : Calls s) (hbalance : Balance s) (hnext : santa_next s = some s') : Calls s' := by
  have hmoved := hnext
  have hframe := santa_next_frame hnext
  cases hsanta : s.santa with simp only [prob2.santa_next, hsanta] at hnext
  | test_elves =>
    split at hnext
    · rename_i hthree
      cases hnext
      have hfull : 3 ≤ s.occupied := by
        rw [set_cardinality, hbalance.cardinality] at hthree
        omega
      have hle : s.occupied ≤ E := tally_le _
      refine h.santa_move (santa_next_herd hmoved) hframe.slots ?_ fun _ => .inr (by omega)
      rw [State.assembled, State.assembled, if_pos (.inl hfull), if_pos (.inr rfl), hsanta]
      simp
    · cases hnext
      exact h.santa_same hmoved (by simp [hsanta]) (by simp [hsanta])
  | line_signal i elf =>
    obtain ⟨value, -, rfl⟩ := Option.map_eq_some_iff.mp hnext
    by_cases hmore : i.val + 1 < 3
    · exact h.santa_same hmoved (by simp [hsanta, take_loop, hmore]) (by simp [hsanta, take_loop, hmore])
    · -- That was the last elf of the group.
      refine h.santa_move (santa_next_herd hmoved) hframe.slots ?_ fun _ => .inl (by simp [hsanta])
      rw [State.assembled, if_pos (.inr (by simp [hsanta]))]
      simp [hsanta, take_loop, hmore]
  | sleep_wait =>
    obtain ⟨value, hvalue, rfl⟩ := Option.map_eq_some_iff.mp hnext
    obtain ⟨hvalue, -⟩ := sem_wait_eq_some.mp hvalue
    exact h.santa_same hmoved (by simp [hsanta]) (by simp [hsanta, hvalue])
  | lock_sleep =>
    obtain ⟨value, hvalue, rfl⟩ := Option.map_eq_some_iff.mp hnext
    obtain ⟨hvalue, -⟩ := sem_wait_eq_some.mp hvalue
    exact h.santa_same hmoved (by simp [hsanta]) (by simp [hsanta]; omega)
  | take_search i => cases hnext
  | test_reindeer =>
    split at hnext <;> cases hnext <;>
      exact h.santa_same hmoved (by simp [hsanta]) (by simp [hsanta])
  | assign_reindeer | help_assign =>
    cases hnext
    exact h.santa_same hmoved (by simp [hsanta]) (by simp [hsanta])
  | busy_wait | busy_signal | prepare_wait | prepare_signal | lock_busy | help_wait | help_counter_wait
  | help_counter_signal | help_mutex_wait | take_wait _ | take_signal _ _ | help_mutex_signal =>
    obtain ⟨value, -, rfl⟩ := Option.map_eq_some_iff.mp hnext
    exact h.santa_same hmoved (by simp [hsanta, take_loop]) (by simp [hsanta, take_loop])

/-- While Santa takes elves out of the set, no elf is about to call him. -/
theorem Balance.quiet (h : Balance s) (hmutex : s.santa.inMutex = 1) (hneed : s.santa.need.isSome = true) :
    s.announced = 0 ∧ s.assembled = 1 ∧ s.tally (fun p _ => p.wakes) = 0 := by
  have hmutex₀ := h.elf_mutex
  have hnone : ∀ {P : Elf → Bool}, (∀ p, P p = true → p.inMutex = true) → s.tally (fun p _ => P p) = 0 := by
    intro P hP
    have hle : s.tally (fun p _ => P p) ≤ s.inMutex := count_mono fun _ => hP _
    omega
  refine ⟨?_, if_pos (.inr hneed), hnone fun p hp => by cases p <;> simp_all⟩
  rw [State.announced, hnone (P := Elf.alerts) fun p hp => by cases p <;> simp_all, ite_self]

theorem Calls.draw_next (h : Calls s) (hbalance : Balance s) (hbalance' : Balance s') {item : Fin E}
    (hnext : draw_next s item = some s') : Calls s' := by
  cases hsanta : s.santa with simp only [prob2.draw_next, hsanta, reduceCtorEq] at hnext
  | take_search i =>
    split at hnext
    · cases hnext
      obtain ⟨hannounced, hassembled, -⟩ := hbalance.quiet (by rw [hsanta]; rfl) (by rw [hsanta]; rfl)
      obtain ⟨hannounced', hassembled', hwakes⟩ := hbalance'.quiet rfl rfl
      obtain ⟨hcalls, -, hgroup⟩ := h
      refine ⟨?_, fun hpos => by omega, fun _ => hgroup (by rw [hsanta]; rfl)⟩
      rw [hannounced, hassembled, hsanta] at hcalls
      rw [hannounced', hassembled']
      exact hcalls
    · cases hnext
      exact h

/-- The count is right in every reachable state. -/
theorem Calls.of_reachable (h : Reachable next (initial E R) s) : Calls s := by
  suffices hboth : Reachable next (initial E R) s ∧ Calls s from hboth.2
  refine h.invariant (I := fun s => Reachable next (initial E R) s ∧ Calls s) ⟨⟨[], rfl⟩, calls_initial⟩ ?_
  rintro s a s' ⟨hs, hcalls⟩ hnext
  have hs' := hs.step hnext
  obtain ⟨as, hrun⟩ := hs
  obtain ⟨as', hrun'⟩ := hs'
  have hinv := Inv.of_run hrun
  have hinv' := Inv.of_run hrun'
  refine ⟨⟨as', hrun'⟩, ?_⟩
  cases a with
  | santa => exact hcalls.santa_next hinv.balance hnext
  | draw item => exact hcalls.draw_next hinv.balance hinv'.balance hnext
  | elf id => exact hcalls.elf_next hinv.balance hinv'.balance hinv.elves hnext
  | reindeer id => exact hcalls.reindeer_next hnext

end Steps

end cs444.prob2
