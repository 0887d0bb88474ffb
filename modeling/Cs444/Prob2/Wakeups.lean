import Cs444.Prob2.Helping

open interleaving

open Function

namespace cs444.prob2

variable {E R : Nat} {s s' : State E R}

section Counts

/-- Has `write_lock` of the set. -/
@[simp] def Elf.inSet : Elf → Bool
  | .insert | .insert_signal => true
  | _ => false

/-- Is in the set, and still to find out whether it is the third. -/
@[simp] def Elf.alerts : Elf → Bool
  | .insert_signal | .test | .wake => true
  | _ => false

@[simp] def Santa.inSet : Santa E → Nat
  | .take_search _ | .take_signal _ _ => 1
  | _ => 0

/-- Santa has called the reindeer. -/
@[simp] def Santa.away : Santa E → Bool
  | .lock_busy | .lock_sleep => true
  | _ => false

/-- Santa has found that all reindeer are back. -/
@[simp] def Santa.leaving : Santa E → Bool
  | .assign_reindeer | .prepare_wait | .prepare_signal | .lock_busy | .lock_sleep => true
  | _ => false

/-- Santa will not sleep again before he has counted the reindeer. -/
@[simp] def Santa.heedsReindeer : Santa E → Bool
  | .test_reindeer => true
  | santa => santa.leaving

/-- Santa will not sleep again before he has counted the elves, or has left. -/
@[simp] def Santa.heedsElves : Santa E → Bool
  | .test_reindeer | .test_elves => true
  | santa => santa.leaving || santa.need.isSome

/-- Has `reindeer_counter_lock`. -/
@[simp] def Reindeer.inCounter : Reindeer → Bool
  | .increment | .counter_signal | .decrement | .exit | .hitch_signal => true
  | _ => false

/-- Has counted itself. -/
@[simp] def Reindeer.back : Reindeer → Bool
  | .counter_wait | .increment => false
  | _ => true

/-- Has counted itself, and is still to find out whether it is the last. -/
@[simp] def Reindeer.alerts : Reindeer → Bool
  | .counter_signal | .test | .wake => true
  | _ => false

/-- Has been called by Santa. -/
@[simp] def Reindeer.called : Reindeer → Bool
  | .hitch_wait | .decrement | .exit | .hitch_signal | .returned => true
  | _ => false

@[simp] def Reindeer.hitched : Reindeer → Bool
  | .exit | .hitch_signal | .returned => true
  | _ => false

@[simp] def Reindeer.exited : Reindeer → Bool
  | .exit => true
  | _ => false

/-- How many reindeer there are of a kind. -/
def State.herd (s : State E R) (P : Reindeer → Bool) : Nat :=
  count fun id => P (s.reindeer id)

theorem herd_le (P : Reindeer → Bool) : s.herd P ≤ R := by
  have hle := Finset.card_le_univ (Finset.univ.filter fun id => P (s.reindeer id) = true)
  rwa [Fintype.card_fin] at hle

theorem herd_mono {P Q : Reindeer → Bool} (h : ∀ p, P p = true → Q p = true) : s.herd P ≤ s.herd Q :=
  count_mono fun _ => h _

theorem hitched_le_back (s : State E R) : s.herd Reindeer.hitched ≤ s.herd Reindeer.back :=
  herd_mono fun p hp => by cases p <;> simp_all

theorem hitched_le_called (s : State E R) : s.herd Reindeer.hitched ≤ s.herd Reindeer.called :=
  herd_mono fun p hp => by cases p <;> simp_all

theorem herd_update {id : Fin R} {p' : Reindeer} (h : s'.reindeer = update s.reindeer id p')
    (P : Reindeer → Bool) : s'.herd P + (P (s.reindeer id)).toNat = s.herd P + (P p').toNat := by
  unfold State.herd
  rw [h]
  exact count_update s.reindeer id p' P

end Counts

/-- The locks of the set and of the reindeer are with whom they should be, and a full count of
    reindeer or elves is on its way to Santa: somebody is about to find out, a wake-up call is
    pending, or Santa is about to look. -/
structure Alarm (s : State E R) : Prop where
  write_lock : s.elves_waiting.write_lock + s.tally (fun p _ => p.inSet) + s.santa.inSet = 1
  counter_lock : s.reindeer_counter_lock + s.herd Reindeer.inCounter = 1
  waiting : s.num_reindeer_waiting + s.herd Reindeer.hitched = s.herd Reindeer.back
  called : s.reindeer_counting_sem + s.herd Reindeer.called = if s.santa.away then permits R else 0
  leaving : s.santa.leaving = true → s.herd Reindeer.back = R
  exit : s.herd Reindeer.hitched = R → 0 < s.herd Reindeer.exited
  reindeer : R ≤ s.num_reindeer_waiting →
    0 < s.herd Reindeer.alerts ∨ 0 < s.santa_sleep_mutex ∨ s.santa.heedsReindeer = true
  elves : 3 ≤ s.occupied →
    0 < s.tally (fun p _ => p.alerts) ∨ 0 < s.santa_sleep_mutex ∨ s.santa.heedsElves = true

theorem alarm_initial (hR : 1 ≤ R) : Alarm (initial E R) := by
  have hherd : ∀ P : Reindeer → Bool, P .counter_wait = false → (initial E R).herd P = 0 := by
    intro P hP
    simp [State.herd, count, initial, hP]
  refine ⟨?_, ?_, ?_, ?_, fun h => absurd h (by simp [initial]), fun h => ?_, fun h => ?_, fun h => ?_⟩
  · rw [tally_initial rfl]
    rfl
  · rw [hherd _ rfl]
    rfl
  · rw [hherd _ rfl, hherd _ rfl]
    rfl
  · rw [hherd _ rfl]
    rfl
  · rw [hherd _ rfl] at h
    omega
  · simp only [initial] at h
    omega
  · rw [State.occupied, tally_initial rfl] at h
    omega

section ReindeerMoves

variable {id : Fin R} {p p' : Reindeer}

/-- A reindeer moves on. -/
theorem Alarm.reindeer_move (h : Alarm s) (hp : s.reindeer id = p)
    (hreindeer : s'.reindeer = update s.reindeer id p') (hsanta : s'.santa = s.santa)
    (helf : s'.elf = s.elf) (hset : s'.elves_waiting = s.elves_waiting)
    (hlock : s'.reindeer_counter_lock + p'.inCounter.toNat = s.reindeer_counter_lock + p.inCounter.toNat)
    (hnum : s'.num_reindeer_waiting + p'.hitched.toNat + p.back.toNat =
      s.num_reindeer_waiting + p.hitched.toNat + p'.back.toNat)
    (hcalled : s'.reindeer_counting_sem + p'.called.toNat = s.reindeer_counting_sem + p.called.toNat)
    (hback : p.back.toNat ≤ p'.back.toNat) (hstays : p.exited = false)
    (hexit : p'.hitched = p.hitched ∨ s'.num_reindeer_waiting ≠ 0 ∨ p'.exited = true)
    (hsleep : s.santa_sleep_mutex ≤ s'.santa_sleep_mutex)
    (halert : R ≤ s'.num_reindeer_waiting → p'.alerts = true ∨ s.santa_sleep_mutex < s'.santa_sleep_mutex ∨
      p.alerts = false ∧ s'.num_reindeer_waiting ≤ s.num_reindeer_waiting) : Alarm s' := by
  have hherd := herd_update hreindeer
  rw [hp] at hherd
  have hinCounter := hherd Reindeer.inCounter
  have hhitched := hherd Reindeer.hitched
  have hbacks := hherd Reindeer.back
  have hcalls := hherd Reindeer.called
  have halerts := hherd Reindeer.alerts
  have hexited := hherd Reindeer.exited
  have hall : s'.herd Reindeer.back ≤ R := herd_le _
  have hmono := hitched_le_back s'
  have htally : ∀ P, s'.tally P = s.tally P := fun P => by rw [State.tally, State.tally, helf, hset]
  obtain ⟨hwrite₀, hlock₀, hwaiting₀, hcalled₀, hleaving₀, hexit₀, hreindeer₀, helves₀⟩ := h
  refine ⟨?_, ?_, ?_, ?_, fun hleaving => ?_, fun hlast => ?_, fun hfull => ?_, fun hfull => ?_⟩
  · rw [htally, hset, hsanta]
    exact hwrite₀
  · omega
  · omega
  · rw [hsanta, ← hcalled₀]
    omega
  · rw [hsanta] at hleaving
    have hfull := hleaving₀ hleaving
    omega
  · rw [hstays] at hexited
    obtain hsame | hmore | hexits := hexit
    · rw [hsame] at hhitched
      have hpos := hexit₀ (by omega)
      simp only [Bool.toNat_false] at hexited
      omega
    · omega
    · rw [hexits] at hexited
      simp only [Bool.toNat_true, Bool.toNat_false] at hexited
      omega
  · rw [hsanta]
    obtain hnew | hcall | ⟨hold, hle⟩ := halert hfull
    · rw [hnew] at halerts
      have hone := Bool.toNat_le p.alerts
      have hmem : 0 < s'.herd Reindeer.alerts :=
        count_pos.mpr ⟨id, by rw [hreindeer, update_self]; exact hnew⟩
      exact .inl hmem
    · exact .inr (.inl (by omega))
    · rw [hold] at halerts
      obtain hpos | hpos | hheeds := hreindeer₀ (by omega)
      · simp only [Bool.toNat_false] at halerts
        exact .inl (by omega)
      · exact .inr (.inl (by omega))
      · exact .inr (.inr hheeds)
  · rw [htally, hsanta]
    rw [State.occupied, htally] at hfull
    obtain hpos | hpos | hheeds := helves₀ hfull
    · exact .inl hpos
    · exact .inr (.inl (by omega))
    · exact .inr (.inr hheeds)

/-- The reindeer that makes the count full goes on to test it, and so to wake Santa. -/
theorem Alarm.reindeer_next (h : Alarm s) (hnext : reindeer_next s id = some s') : Alarm s' := by
  cases hp : s.reindeer id with simp only [prob2.reindeer_next, hp] at hnext
  | counter_wait | hitch_wait =>
    obtain ⟨value, hvalue, rfl⟩ := Option.map_eq_some_iff.mp hnext
    obtain ⟨hvalue, -⟩ := sem_wait_eq_some.mp hvalue
    exact h.reindeer_move hp rfl rfl rfl rfl (by simp [hvalue]) (by simp) rfl (by simp) rfl (by simp) (Nat.le_refl _)
      (by simp)
  | increment =>
    cases hnext
    exact h.reindeer_move hp rfl rfl rfl rfl (by simp) (by simp) rfl (by simp) rfl (by simp) (Nat.le_refl _) (by simp)
  | counter_signal | hitch_signal =>
    obtain ⟨value, hvalue, rfl⟩ := Option.map_eq_some_iff.mp hnext
    obtain ⟨rfl, -⟩ := sem_signal_eq_some.mp hvalue
    exact h.reindeer_move hp rfl rfl rfl rfl (by simp) (by simp) rfl (by simp) rfl (by simp) (Nat.le_refl _) (by simp)
  | test =>
    split at hnext
    · cases hnext
      exact h.reindeer_move hp rfl rfl rfl rfl (by simp) (by simp) rfl (by simp) rfl (by simp) (Nat.le_refl _)
        (by simp)
    · rename_i hmore
      cases hnext
      exact h.reindeer_move hp rfl rfl rfl rfl (by simp) (by simp) rfl (by simp) rfl (by simp) (Nat.le_refl _)
        (fun hfull => absurd hfull hmore)
  | wake =>
    obtain ⟨value, hvalue, rfl⟩ := Option.map_eq_some_iff.mp hnext
    obtain ⟨rfl, -⟩ := sem_signal_eq_some.mp hvalue
    exact h.reindeer_move hp rfl rfl rfl rfl (by simp) (by simp) rfl (by simp) rfl (by simp) (by simp) (by simp)
  | counting_wait =>
    obtain ⟨value, hvalue, rfl⟩ := Option.map_eq_some_iff.mp hnext
    obtain ⟨hvalue, -⟩ := sem_wait_eq_some.mp hvalue
    exact h.reindeer_move hp rfl rfl rfl rfl (by simp) (by simp) (by simp [hvalue]) (by simp) rfl (by simp)
      (Nat.le_refl _) (by simp)
  | decrement =>
    by_cases hlast : s.num_reindeer_waiting - 1 = 0
    · rw [if_pos hlast] at hnext
      cases hnext
      exact h.reindeer_move hp rfl rfl rfl rfl rfl (by simp) rfl (by simp) rfl (.inr (.inr rfl)) (Nat.le_refl _)
        fun _ => .inr (.inr ⟨rfl, Int.sub_le_self _ (by decide)⟩)
    · rw [if_neg hlast] at hnext
      cases hnext
      exact h.reindeer_move hp rfl rfl rfl rfl rfl (by simp) rfl (by simp) rfl (.inr (.inl hlast)) (Nat.le_refl _)
        fun _ => .inr (.inr ⟨rfl, Int.sub_le_self _ (by decide)⟩)
  | exit | returned => cases hnext

end ReindeerMoves

section ElfMoves

variable {id : Fin E} {p p' : Elf}

/-- What an elf leaves alone of the reindeer. -/
theorem elf_next_reindeer (hnext : elf_next s id = some s') :
    s'.reindeer = s.reindeer ∧ s'.reindeer_counter_lock = s.reindeer_counter_lock ∧
      s'.num_reindeer_waiting = s.num_reindeer_waiting ∧ s'.reindeer_counting_sem = s.reindeer_counting_sem := by
  rw [elf_next] at hnext
  cases hp : s.elf id with simp only [hp] at hnext
  | counting_wait | mutex_wait | insert_wait | insert_signal | wake | mutex_signal | line_wait | counter_wait
  | busy_signal | counting_signal | counter_signal =>
    obtain ⟨value, -, rfl⟩ := Option.map_eq_some_iff.mp hnext
    exact ⟨rfl, rfl, rfl, rfl⟩
  | test => split at hnext <;> cases hnext <;> exact ⟨rfl, rfl, rfl, rfl⟩
  | insert | decrement =>
    cases hnext
    exact ⟨rfl, rfl, rfl, rfl⟩

/-- An elf moves on. -/
theorem Alarm.elf_move (h : Alarm s) (hnext : elf_next s id = some s') (hp : s.elf id = p) (hp' : s'.elf id = p')
    (hwrite : s'.elves_waiting.write_lock + p'.inSet.toNat = s.elves_waiting.write_lock + p.inSet.toNat)
    (hsleep : s.santa_sleep_mutex ≤ s'.santa_sleep_mutex)
    (halert : 3 ≤ s'.occupied → p'.alerts = true ∨ s.santa_sleep_mutex < s'.santa_sleep_mutex ∨
      p.alerts = false ∧ s'.elves_waiting.slots id = s.elves_waiting.slots id) : Alarm s' := by
  have hmove := elf_next_frame hnext
  obtain ⟨hreindeer, hlock, hnum, hcounting⟩ := elf_next_reindeer hnext
  have hherd : ∀ P, s'.herd P = s.herd P := fun P => by rw [State.herd, State.herd, hreindeer]
  have htally := tally_change hmove.elf hmove.slots
  rw [hp, hp'] at htally
  have hinSet := htally fun p _ => p.inSet
  have halerts := htally fun p _ => p.alerts
  have hoccupied := htally fun _ slot => slot
  obtain ⟨hwrite₀, hlock₀, hwaiting₀, hcalled₀, hleaving₀, hexit₀, hreindeer₀, helves₀⟩ := h
  refine ⟨?_, ?_, ?_, ?_, ?_, ?_, fun hfull => ?_, fun hfull => ?_⟩
  · rw [hmove.santa]
    omega
  · rw [hherd, hlock]
    exact hlock₀
  · rw [hherd, hherd, hnum]
    exact hwaiting₀
  · rw [hherd, hcounting, hmove.santa]
    exact hcalled₀
  · rw [hherd, hmove.santa]
    exact hleaving₀
  · rw [hherd, hherd]
    exact hexit₀
  · rw [hherd, hmove.santa]
    rw [hnum] at hfull
    obtain hpos | hpos | hheeds := hreindeer₀ hfull
    · exact .inl hpos
    · exact .inr (.inl (by omega))
    · exact .inr (.inr hheeds)
  · rw [hmove.santa]
    obtain hnew | hcall | ⟨hold, hslot⟩ := halert hfull
    · exact .inl (tally_pos id (by rw [hp']; exact hnew))
    · exact .inr (.inl (by omega))
    · rw [hslot] at hoccupied
      rw [hold] at halerts
      simp only [Bool.toNat_false] at halerts
      rw [State.occupied] at hfull
      have hfull₀ : 3 ≤ s.occupied := by
        rw [State.occupied]
        omega
      obtain hpos | hpos | hheeds := helves₀ hfull₀
      · exact .inl (by omega)
      · exact .inr (.inl (by omega))
      · exact .inr (.inr hheeds)

/-- The three permits of `elf_counting_sem` keep a fourth elf out of the set. -/
theorem Balance.occupied_le (h : Balance s) : s.occupied ≤ 3 := by
  have hcounting := h.counting
  have hhelped := h.helped
  have hhelping := helping_cases s.num_elves_being_helped
  have htogo := s.santa.togo_le
  omega

/-- An elf that has put itself into the set goes on to test the cardinality. The test is for exactly three,
    and by the balance of the permits there are never more. -/
theorem Alarm.elf_next (h : Alarm s) (hbalance : Balance s) (hnext : elf_next s id = some s') : Alarm s' := by
  have hmoved := hnext
  cases hp : s.elf id with simp only [prob2.elf_next, hp] at hnext
  | counting_wait | mutex_wait | mutex_signal | line_wait | counter_wait | busy_signal | counting_signal
  | counter_signal =>
    obtain ⟨value, -, rfl⟩ := Option.map_eq_some_iff.mp hnext
    exact h.elf_move hmoved hp (update_self ..) rfl (Nat.le_refl _) fun _ => .inr (.inr ⟨rfl, rfl⟩)
  | insert_wait =>
    obtain ⟨value, hvalue, rfl⟩ := Option.map_eq_some_iff.mp hnext
    exact h.elf_move hmoved hp (update_self ..) (by simp [sem_wait_eq_some.mp hvalue]) (Nat.le_refl _)
      fun _ => .inr (.inr ⟨rfl, rfl⟩)
  | insert =>
    cases hnext
    exact h.elf_move hmoved hp (update_self ..) rfl (Nat.le_refl _) fun _ => .inl rfl
  | insert_signal =>
    obtain ⟨value, hvalue, rfl⟩ := Option.map_eq_some_iff.mp hnext
    obtain ⟨rfl, -⟩ := sem_signal_eq_some.mp hvalue
    exact h.elf_move hmoved hp (update_self ..) (by simp) (Nat.le_refl _) fun _ => .inl rfl
  | test =>
    split at hnext
    · cases hnext
      exact h.elf_move hmoved hp (update_self ..) rfl (Nat.le_refl _) fun _ => .inl rfl
    · -- Fewer than three elves are in the set.
      rename_i hfewer
      cases hnext
      refine h.elf_move hmoved hp (update_self ..) rfl (Nat.le_refl _) fun hfull => absurd ?_ hfewer
      have hle := hbalance.occupied_le
      have hthree : s.occupied = 3 := Nat.le_antisymm hle hfull
      rw [set_cardinality, hbalance.cardinality, hthree]
  | wake =>
    obtain ⟨value, hvalue, rfl⟩ := Option.map_eq_some_iff.mp hnext
    obtain ⟨rfl, -⟩ := sem_signal_eq_some.mp hvalue
    exact h.elf_move hmoved hp (update_self ..) rfl (by simp) fun _ => .inr (.inl (by simp))
  | decrement =>
    cases hnext
    refine h.elf_move hmoved hp (update_self ..) ?_ (Nat.le_refl _) fun _ => .inr (.inr ⟨rfl, rfl⟩)
    split <;> rfl

end ElfMoves

section SantaMoves

/-- What Santa leaves alone of the elves and the reindeer. -/
structure HerdMove (s s' : State E R) : Prop where
  elf : s'.elf = s.elf
  reindeer : s'.reindeer = s.reindeer
  lock : s'.reindeer_counter_lock = s.reindeer_counter_lock

theorem santa_next_herd (hnext : santa_next s = some s') : HerdMove s s' := by
  rw [santa_next] at hnext
  cases hp : s.santa with simp only [hp] at hnext
  | busy_wait | busy_signal | sleep_wait | prepare_wait | prepare_signal | lock_busy | lock_sleep | help_wait
  | help_counter_wait | help_counter_signal | help_mutex_wait | take_wait _ | take_signal _ _ | line_signal _ _
  | help_mutex_signal =>
    obtain ⟨value, -, rfl⟩ := Option.map_eq_some_iff.mp hnext
    exact ⟨rfl, rfl, rfl⟩
  | test_reindeer | test_elves => split at hnext <;> cases hnext <;> exact ⟨rfl, rfl, rfl⟩
  | take_search _ => cases hnext
  | assign_reindeer | help_assign =>
    cases hnext
    exact ⟨rfl, rfl, rfl⟩

/-- Santa moves on, and does not change the number of reindeer. -/
theorem Alarm.santa_move (h : Alarm s) (hmove : HerdMove s s')
    (hwrite : s'.elves_waiting.write_lock + s'.santa.inSet = s.elves_waiting.write_lock + s.santa.inSet)
    (hnum : s'.num_reindeer_waiting = s.num_reindeer_waiting)
    (hcalled : s'.reindeer_counting_sem + (if s.santa.away then permits R else 0) =
      s.reindeer_counting_sem + if s'.santa.away then permits R else 0)
    (hleaving : s'.santa.leaving = true → s.santa.leaving = true ∨ s.herd Reindeer.back = R)
    (hheedsReindeer : R ≤ s.num_reindeer_waiting → 0 < s.santa_sleep_mutex ∨ s.santa.heedsReindeer = true →
      0 < s'.santa_sleep_mutex ∨ s'.santa.heedsReindeer = true)
    (hheedsElves : s'.santa.heedsElves = true ∨ s'.elves_waiting.slots = s.elves_waiting.slots ∧ (3 ≤ s.occupied →
      0 < s.santa_sleep_mutex ∨ s.santa.heedsElves = true →
      0 < s'.santa_sleep_mutex ∨ s'.santa.heedsElves = true)) : Alarm s' := by
  have hherd : ∀ P, s'.herd P = s.herd P := fun P => by rw [State.herd, State.herd, hmove.reindeer]
  have htally : ∀ P : Elf → Bool, s'.tally (fun p _ => P p) = s.tally fun p _ => P p :=
    fun P => by rw [State.tally, State.tally, hmove.elf]
  obtain ⟨hwrite₀, hlock₀, hwaiting₀, hcalled₀, hleaving₀, hexit₀, hreindeer₀, helves₀⟩ := h
  refine ⟨?_, ?_, ?_, ?_, fun hsanta => ?_, ?_, fun hfull => ?_, fun hfull => ?_⟩
  · rw [htally]
    omega
  · rw [hherd, hmove.lock]
    exact hlock₀
  · rw [hherd, hherd, hnum]
    exact hwaiting₀
  · rw [hherd]
    omega
  · rw [hherd]
    exact (hleaving hsanta).elim hleaving₀ fun hback => hback
  · rw [hherd, hherd]
    exact hexit₀
  · rw [hnum] at hfull
    rw [hherd]
    exact (hreindeer₀ hfull).imp_right (hheedsReindeer hfull)
  · rw [htally]
    obtain hheeds | ⟨hslots, hheeds⟩ := hheedsElves
    · exact .inr (.inr hheeds)
    · rw [State.occupied, State.tally, hslots] at hfull
      exact (helves₀ hfull).imp_right (hheeds hfull)

/-- All reindeer are back when Santa counts them. -/
theorem Alarm.all_back (h : Alarm s) (hfull : R ≤ s.num_reindeer_waiting) : s.herd Reindeer.back = R := by
  have hwaiting := h.waiting
  have hle : s.herd Reindeer.back ≤ R := herd_le _
  omega

/-- Until Santa calls the reindeer none of them is hitched, so that the count he has found full stays so. -/
theorem Alarm.num_of_leaving (h : Alarm s) (hleaving : s.santa.leaving = true) (haway : s.santa.away = false) :
    s.num_reindeer_waiting = R := by
  have hback := h.leaving hleaving
  have hcalled := h.called
  rw [haway] at hcalled
  have hmono := hitched_le_called s
  have hwaiting := h.waiting
  simp only [Bool.false_eq_true, if_false] at hcalled
  omega

theorem take_loop_stays (i : Nat) :
    (take_loop i : Santa E).inSet = 0 ∧ (take_loop i : Santa E).away = false ∧
      (take_loop i : Santa E).leaving = false := by
  rw [take_loop]
  split <;> simp

/-- Santa takes a call and then looks, at the reindeer first and at the elves when not all reindeer are back.
    A count that becomes full behind his back has a call of its own. -/
theorem Alarm.santa_next (h : Alarm s) (hbalance : Balance s) (hnext : santa_next s = some s') : Alarm s' := by
  have hbusy := hbalance.busy
  have hready := hbalance.ready
  have hmove := santa_next_herd hnext
  cases hsanta : s.santa with simp only [prob2.santa_next, hsanta] at hnext
  | lock_busy =>
    -- Santa already holds the only permit.
    obtain ⟨value, hvalue, -⟩ := Option.map_eq_some_iff.mp hnext
    obtain ⟨hvalue, -⟩ := sem_wait_eq_some.mp hvalue
    rw [hsanta] at hbusy
    simp only [Santa.holdsBusy] at hbusy
    omega
  | lock_sleep =>
    rw [hsanta] at hbusy
    simp only [Santa.holdsBusy] at hbusy
    omega
  | take_search i => cases hnext
  | assign_reindeer =>
    have hall : s.num_reindeer_waiting = R := h.num_of_leaving (by rw [hsanta]; rfl) (by rw [hsanta]; rfl)
    cases hnext
    apply h.santa_move hmove <;> simp [hsanta, hall]
  | test_reindeer =>
    split at hnext
    · rename_i hfull
      have hback := h.all_back hfull
      cases hnext
      apply h.santa_move hmove <;> simp [hsanta, hback]
    · rename_i hmore
      cases hnext
      apply h.santa_move hmove <;> simp [hsanta]
      exact fun hfull => absurd hfull hmore
  | test_elves =>
    have hcard := hbalance.cardinality
    split at hnext
    · cases hnext
      apply h.santa_move hmove <;> simp [hsanta]
    · rename_i hfewer
      cases hnext
      rw [set_cardinality, hcard] at hfewer
      apply h.santa_move hmove <;> simp [hsanta]
      intro hfull
      exact absurd (Int.ofNat_le.mpr hfull) hfewer
  | prepare_signal =>
    obtain ⟨value, hvalue, rfl⟩ := Option.map_eq_some_iff.mp hnext
    -- Santa has not called the reindeer yet.
    have hcalled := h.called
    simp only [hsanta, Santa.away, Bool.false_eq_true, if_false, Nat.add_eq_zero_iff] at hcalled
    rw [sem_signal_ntimes, hcalled.1] at hvalue
    have hpermits := sem_signal_index_zero hvalue
    apply h.santa_move hmove <;> simp [hsanta, hcalled.1, hpermits]
  | line_signal i elf =>
    -- At most two elves are left in the set.
    obtain ⟨value, -, rfl⟩ := Option.map_eq_some_iff.mp hnext
    have hleft : s.occupied = 2 - i := hready _ (by rw [hsanta]; rfl)
    obtain ⟨hset, haway, hleaving⟩ := take_loop_stays (E := E) (i + 1)
    refine h.santa_move hmove ?_ rfl ?_ ?_ ?_ (.inr ⟨rfl, fun hfull => ?_⟩)
    · dsimp only
      rw [hset, hsanta]
      rfl
    · dsimp only
      rw [haway, hsanta]
      rfl
    · intro hleaves
      exact absurd hleaves (by rw [hleaving]; simp)
    · intro _ hcall
      simp only [hsanta, Santa.heedsReindeer, Santa.leaving, Bool.false_eq_true, or_false] at hcall
      exact .inl hcall
    · omega
  | help_mutex_wait =>
    obtain ⟨value, -, rfl⟩ := Option.map_eq_some_iff.mp hnext
    apply h.santa_move hmove <;> simp [hsanta, take_loop]
  | sleep_wait =>
    obtain ⟨value, -, rfl⟩ := Option.map_eq_some_iff.mp hnext
    apply h.santa_move hmove <;> simp [hsanta]
  | take_wait i =>
    obtain ⟨value, hvalue, rfl⟩ := Option.map_eq_some_iff.mp hnext
    apply h.santa_move hmove <;> simp [hsanta, sem_wait_eq_some.mp hvalue]
  | take_signal i elf =>
    obtain ⟨value, hvalue, rfl⟩ := Option.map_eq_some_iff.mp hnext
    apply h.santa_move hmove <;> simp [hsanta, sem_signal_eq_some.mp hvalue]
  | busy_wait | busy_signal | prepare_wait | help_wait | help_counter_wait | help_counter_signal
  | help_mutex_signal =>
    obtain ⟨value, -, rfl⟩ := Option.map_eq_some_iff.mp hnext
    apply h.santa_move hmove <;> simp [hsanta]
  | help_assign =>
    cases hnext
    apply h.santa_move hmove <;> simp [hsanta]

theorem Alarm.draw_next (h : Alarm s) {item : Fin E} (hnext : draw_next s item = some s') : Alarm s' := by
  cases hsanta : s.santa with simp only [prob2.draw_next, hsanta, reduceCtorEq] at hnext
  | take_search i =>
    split at hnext
    · rename_i elves_waiting htake
      cases hnext
      have hwrite : elves_waiting.write_lock = s.elves_waiting.write_lock := by
        rw [set_take] at htake
        split at htake
        · rw [← Option.some.inj htake]
        · cases htake
      refine h.santa_move ⟨rfl, rfl, rfl⟩ ?_ rfl ?_ ?_ ?_ (.inl rfl)
      all_goals simp [hsanta, hwrite]
    · cases hnext
      exact h

end SantaMoves

/-- In every reachable state a full count is on its way to Santa. -/
theorem Alarm.of_reachable (hR : 1 ≤ R) (h : Reachable next (initial E R) s) : Alarm s ∧ Balance s ∧ Local s := by
  obtain ⟨as, hrun⟩ := h
  have hinv := Inv.of_run hrun
  refine ⟨?_, hinv.balance, hinv.elves⟩
  have hboth : Inv s (group (trace next event (initial E R) as)) ∧ Alarm s := by
    have hstart : Inv (initial E R) (group []) ∧ Alarm (initial E R) := ⟨inv_initial, alarm_initial hR⟩
    refine trace_invariant event (I := fun s es => Inv s (group es) ∧ Alarm s) ?_ hstart hrun
    rintro s es a s' ⟨hinv, halarm⟩ hnext
    refine ⟨hinv.step_ok hnext, ?_⟩
    cases a with
    | santa => exact halarm.santa_next hinv.balance hnext
    | draw item => exact halarm.draw_next hnext
    | elf id => exact halarm.elf_next hinv.balance hnext
    | reindeer id => exact halarm.reindeer_next hnext
  exact hboth.2

end cs444.prob2
