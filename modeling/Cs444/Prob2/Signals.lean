import Cs444.Prob2.Calls

open interleaving

namespace cs444.prob2

variable {E R : Nat} {s : State E R}

section Bounds

/-- The semaphore Santa sleeps on has room for all reindeer, and for a group of elves if there are that many. -/
structure Fits (E R : Nat) : Prop where
  reindeer : R ≤ SEMVMX
  elves : 3 ≤ E → R < SEMVMX

variable (hfits : Fits E R)
include hfits

theorem Calls.sleep_le (h : Calls s) : s.santa_sleep_mutex ≤ SEMVMX := by
  obtain ⟨hle, hthree⟩ := h.assembled_le
  have hcalls := h.calls
  have htold : s.herd Reindeer.told ≤ R := herd_le _
  obtain ⟨hreindeer, helves⟩ := hfits
  obtain hnone | hone : s.assembled = 0 ∨ s.assembled = 1 := by omega
  · omega
  · have hroom := helves (hthree hone)
    omega

/-- There is room for the call of a reindeer, since it has not been counted for it. -/
theorem Calls.reindeer_wakes (h : Calls s) {id : Fin R} (hp : s.reindeer id = .wake) :
    s.santa_sleep_mutex < SEMVMX := by
  obtain ⟨hle, hthree⟩ := h.assembled_le
  have hcalls := h.calls
  have htold : s.herd Reindeer.told < R := by
    refine lt_of_le_of_ne (herd_le _) fun hall => ?_
    have hid := count_eq_card (hall.trans (Fintype.card_fin R).symm) id
    rw [hp] at hid
    cases hid
  obtain ⟨hreindeer, helves⟩ := hfits
  obtain hnone | hone : s.assembled = 0 ∨ s.assembled = 1 := by omega
  · omega
  · have hroom := helves (hthree hone)
    omega

/-- There is room for the call of an elf, since it was announced. -/
theorem Calls.elf_wakes (h : Calls s) {id : Fin E} (hp : s.elf id = .wake) : s.santa_sleep_mutex < SEMVMX := by
  obtain ⟨hle, -⟩ := h.assembled_le
  have hcalls := h.calls
  have htold : s.herd Reindeer.told ≤ R := herd_le _
  have hfull : s.occupied ≤ E := tally_le _
  have hthree := h.third (tally_pos id (by rw [hp]; rfl))
  have hannounced : 0 < s.announced := by
    rw [State.announced, if_pos hthree]
    exact tally_pos id (by rw [hp]; rfl)
  have hroom := hfits.elves (by omega)
  omega

end Bounds

section Signals

@[simp] def Santa.signals : Santa E → Bool
  | .busy_signal | .prepare_signal | .help_counter_signal | .take_signal _ _ | .line_signal _ _
  | .help_mutex_signal => true
  | _ => false

@[simp] def Elf.signals : Elf → Bool
  | .insert_signal | .wake | .mutex_signal | .busy_signal | .counting_signal | .counter_signal => true
  | _ => false

@[simp] def Reindeer.signals : Reindeer → Bool
  | .counter_signal | .wake | .hitch_signal => true
  | _ => false

/-- A thread that is about to signal a semaphore can do so: `semop` does not make it wait, and does not fail. -/
structure Signals (s : State E R) : Prop where
  santa : s.santa.signals = true → santa_next s ≠ none
  elf : ∀ id, (s.elf id).signals = true → elf_next s id ≠ none
  reindeer : ∀ id, (s.reindeer id).signals = true → reindeer_next s id ≠ none

theorem sem_signal_ne_none {value : Nat} (h : value < SEMVMX) : sem_signal value ≠ none := by
  rw [sem_signal_eq_some.mpr ⟨rfl, h⟩]
  simp

theorem sem_signal_ntimes_ne_none {value n : Nat} (hn : 0 < n) (h : value + n ≤ SEMVMX) :
    sem_signal_ntimes value n ≠ none := by
  rw [sem_signal_ntimes, (sem_signal_index_eq_some (by omega)).mpr ⟨hn, rfl, h⟩]
  simp

/-- The locks are at most one, and the other semaphores have room for what is added to them. -/
theorem Signals.of_counts (hR : 1 ≤ R) (hfits : Fits E R) (hcalls : Calls s) (halarm : Alarm s) (hbalance : Balance s)
    (hlocal : Local s) : Signals s := by
  have hsmall : ∀ {value : Nat}, value ≤ 1 → sem_signal value ≠ none :=
    fun hle => sem_signal_ne_none (lt_of_le_of_lt hle (by decide))
  obtain ⟨hcard, hmutex, hlock, hbusy, hcounting, hhelped, hhelped_le, -, -, -⟩ := hbalance
  have hwrite := halarm.write_lock
  have hcounter := halarm.counter_lock
  have htogo := s.santa.togo_le
  refine ⟨fun hsignals => ?_, fun id hsignals => ?_, fun id hsignals => ?_⟩
  · cases hsanta : s.santa with simp only [hsanta, Santa.signals, Bool.false_eq_true] at hsignals <;>
      simp only [santa_next, hsanta, ne_eq, Option.map_eq_none_iff]
    | busy_signal => exact hsmall (by omega)
    | prepare_signal =>
      have hcalled := halarm.called
      have hmax := hfits.reindeer
      simp only [hsanta, Santa.away, Bool.false_eq_true, if_false] at hcalled
      exact sem_signal_ntimes_ne_none hR (by omega)
    | help_counter_signal => exact hsmall (by omega)
    | take_signal i elf => exact hsmall (by omega)
    | line_signal i elf =>
      refine hsmall ?_
      have hfits := hlocal elf
      cases hp : s.elf elf with simp only [hp, Elf.Fits] at hfits
      | line_wait => split at hfits <;> omega
      | _ => omega
    | help_mutex_signal => exact hsmall (by omega)
  · cases hp : s.elf id with simp only [hp, Elf.signals, Bool.false_eq_true] at hsignals <;>
      simp only [elf_next, hp, ne_eq, Option.map_eq_none_iff]
    | insert_signal => exact hsmall (by omega)
    | wake => exact sem_signal_ne_none (hcalls.elf_wakes hfits hp)
    | mutex_signal => exact hsmall (by omega)
    | busy_signal => exact hsmall (by omega)
    | counting_signal =>
      refine sem_signal_ntimes_ne_none (by decide) ?_
      simp only [SEMVMX, NUM_ELVES_PER_GROUP]
      omega
    | counter_signal => exact hsmall (by omega)
  · cases hp : s.reindeer id with simp only [hp, Reindeer.signals, Bool.false_eq_true] at hsignals <;>
      simp only [reindeer_next, hp, ne_eq, Option.map_eq_none_iff]
    | counter_signal => exact hsmall (by omega)
    | wake => exact sem_signal_ne_none (hcalls.reindeer_wakes hfits hp)
    | hitch_signal => exact hsmall (by omega)

end Signals

end cs444.prob2
