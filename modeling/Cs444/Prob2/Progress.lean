import Cs444.Prob2.Signals

open interleaving

namespace cs444.prob2

variable {E R : Nat} {s : State E R}

/-- Every thread is blocked or has finished. -/
def State.Blocked (s : State E R) : Prop :=
  ∀ a, next s a = none

section Elves

/-- There are no elves of a kind that can always move. -/
theorem Blocked.tally (h : s.Blocked) {P : Elf → Bool → Bool}
    (hmoves : ∀ id, P (s.elf id) (s.elves_waiting.slots id) = true → elf_next s id ≠ none) : s.tally P = 0 := by
  by_contra hsome
  obtain ⟨id, hid⟩ := count_pos.mp (Nat.pos_of_ne_zero hsome)
  exact hmoves id hid (h (.elf id))

theorem Blocked.inCounter (h : s.Blocked) (hsignals : Signals s) : s.inCounter = 0 := by
  refine Blocked.tally h fun id hid => ?_
  cases hp : s.elf id with rw [hp] at hid
  | decrement => simp [elf_next, hp]
  | busy_signal | counting_signal | counter_signal => exact hsignals.elf id (by rw [hp]; rfl)
  | _ => cases hid

theorem Blocked.signalling (h : s.Blocked) (hsignals : Signals s) : s.signalling = 0 := by
  refine Blocked.tally h fun id hid => ?_
  cases hp : s.elf id with rw [hp] at hid
  | busy_signal => exact hsignals.elf id (by rw [hp]; rfl)
  | _ => cases hid

theorem Blocked.inSet (h : s.Blocked) (hsignals : Signals s) : s.tally (fun p _ => p.inSet) = 0 := by
  refine Blocked.tally h fun id hid => ?_
  cases hp : s.elf id with rw [hp] at hid
  | insert => simp [elf_next, hp]
  | insert_signal => exact hsignals.elf id (by rw [hp]; rfl)
  | _ => cases hid

/-- An elf with `elf_mutex` waits for nothing but the lock of the set. -/
theorem Blocked.inMutex (h : s.Blocked) (hsignals : Signals s) (halarm : Alarm s) (hsanta : s.santa.inSet = 0) :
    s.inMutex = 0 := by
  have hwrite := halarm.write_lock
  have hnone := Blocked.inSet h hsignals
  have hfree : s.elves_waiting.write_lock = 1 := by omega
  refine Blocked.tally h fun id hid => ?_
  cases hp : s.elf id with rw [hp] at hid
  | test =>
    rw [elf_next, hp]
    dsimp only
    split <;> simp
  | insert_wait | insert => simp [elf_next, hp, hfree]
  | insert_signal | wake | mutex_signal => exact hsignals.elf id (by rw [hp]; rfl)
  | _ => cases hid

/-- An elf that Santa has signalled waits for nothing but the lock of the counter. -/
theorem Blocked.owing (h : s.Blocked) (hsignals : Signals s) (hbalance : Balance s) (hlocal : Local s)
    (hpending : s.santa.pending = none) (hcounter : s.santa.inCounter = 0) : s.owing = 0 := by
  have hlock := hbalance.elf_counter_lock
  have hnone := Blocked.inCounter h hsignals
  have hfree : s.elf_counter_lock = 1 := by omega
  refine Blocked.tally h fun id hid => ?_
  have hfits := hlocal id
  rw [hpending] at hfits
  cases hp : s.elf id with rw [hp] at hid hfits
  | line_wait =>
    have hslot : s.elves_waiting.slots id = false := by simpa using hid
    rw [hslot] at hfits
    have hline : s.elf_line_set id = 1 := by simpa [Elf.Fits] using hfits
    simp [elf_next, hp, hline]
  | counter_wait | decrement => simp [elf_next, hp, hfree]
  | _ => cases hid

end Elves

section Reindeer

theorem herd_all {P : Reindeer → Bool} (h : ∀ id, P (s.reindeer id) = true) : s.herd P = R := by
  simp [State.herd, count, h]

theorem herd_none {P : Reindeer → Bool} (h : ∀ id, P (s.reindeer id) = false) : s.herd P = 0 := by
  simp [State.herd, count, h]

theorem of_herd_all {P : Reindeer → Bool} (h : s.herd P = R) (id : Fin R) : P (s.reindeer id) = true := by
  have hcard : (Finset.univ.filter fun id => P (s.reindeer id) = true).card = Fintype.card (Fin R) := by
    rw [Fintype.card_fin]
    exact h
  have hmem := Finset.mem_univ id
  rw [← (Finset.card_eq_iff_eq_univ _).mp hcard] at hmem
  simpa using hmem

variable (hmax : R ≤ SEMVMX)
include hmax

/-- Nobody can be called more often than there are reindeer. -/
theorem Alarm.counting_le (halarm : Alarm s) : s.reindeer_counting_sem ≤ SEMVMX := by
  have hcalled := halarm.called
  rw [permits_eq hmax] at hcalled
  split at hcalled <;> omega

/-- A blocked reindeer waits for Santa, unless it has finished. -/
theorem Blocked.reindeer (h : s.Blocked) (hsignals : Signals s) (halarm : Alarm s)
    (hexit : ∀ id, s.reindeer id ≠ .exit) (id : Fin R) :
    s.reindeer id = .returned ∨ s.reindeer id = .counting_wait ∧ s.reindeer_counting_sem = 0 := by
  have hlock := halarm.counter_lock
  have hmoves : ∀ id, reindeer_next s id = none := fun id => h (.reindeer id)
  have hnone : s.herd Reindeer.inCounter = 0 := by
    by_contra hsome
    obtain ⟨id, hid⟩ := count_pos.mp (Nat.pos_of_ne_zero hsome)
    have hmove := hmoves id
    cases hp : s.reindeer id with rw [hp] at hid
    | increment | decrement => simp [reindeer_next, hp] at hmove
    | counter_signal | hitch_signal => exact hsignals.reindeer id (by rw [hp]; rfl) hmove
    | exit => exact hexit id hp
    | _ => cases hid
  have hfree : s.reindeer_counter_lock = 1 := by omega
  have hmove := hmoves id
  have hstays := hexit id
  cases hp : s.reindeer id with
  | test =>
    simp only [reindeer_next, hp] at hmove
    split at hmove <;> cases hmove
  | counting_wait =>
    simp only [reindeer_next, hp, Option.map_eq_none_iff, sem_wait_eq_none (halarm.counting_le hmax)] at hmove
    exact .inr ⟨rfl, hmove⟩
  | returned => exact .inl rfl
  | counter_signal | wake | hitch_signal => exact absurd hmove (hsignals.reindeer id (by rw [hp]; rfl))
  | _ => simp_all [reindeer_next]

/-- Santa has called every reindeer, and the last of them leaves by `exit`. -/
theorem Blocked.not_away (h : s.Blocked) (hsignals : Signals s) (halarm : Alarm s)
    (hexit : ∀ id, s.reindeer id ≠ .exit) : s.santa.away = false := by
  by_contra haway
  have hcalled := halarm.called
  rw [if_pos (by simpa using haway), permits_eq hmax] at hcalled
  have hreturned : ∀ id, s.reindeer id = .returned := by
    intro id
    obtain hdone | ⟨hwait, hzero⟩ := Blocked.reindeer hmax h hsignals halarm hexit id
    · exact hdone
    · have hin := of_herd_all (s := s) (P := Reindeer.called) (by omega) id
      rw [hwait] at hin
      cases hin
  obtain ⟨id, hid⟩ := count_pos.mp (halarm.exit (herd_all fun id => by rw [hreturned id]; rfl))
  rw [hreturned id] at hid
  cases hid

/-- Otherwise all of them are back, and Santa knows or will. -/
theorem Blocked.called (h : s.Blocked) (hsignals : Signals s) (halarm : Alarm s)
    (hexit : ∀ id, s.reindeer id ≠ .exit) : 0 < s.santa_sleep_mutex ∨ s.santa.heedsReindeer = true := by
  have hcalled := halarm.called
  rw [Blocked.not_away hmax h hsignals halarm hexit] at hcalled
  simp only [Bool.false_eq_true, if_false] at hcalled
  have hwait : ∀ id, s.reindeer id = .counting_wait := by
    intro id
    obtain hdone | ⟨hwait, -⟩ := Blocked.reindeer hmax h hsignals halarm hexit id
    · have hpos : 0 < s.herd Reindeer.called := count_pos.mpr ⟨id, by rw [hdone]; rfl⟩
      omega
    · exact hwait
  have hback : s.herd Reindeer.back = R := herd_all fun id => by rw [hwait id]; rfl
  have hhitched : s.herd Reindeer.hitched = 0 := herd_none fun id => by rw [hwait id]; rfl
  have halerts : s.herd Reindeer.alerts = 0 := herd_none fun id => by rw [hwait id]; rfl
  have hwaiting := halarm.waiting
  obtain hpos | hcall := halarm.reindeer (by omega)
  · omega
  · exact hcall

end Reindeer

theorem not_blocked (hfits : Fits E R) (hsignals : Signals s) (hcalls : Calls s) (halarm : Alarm s)
    (hbalance : Balance s) (hlocal : Local s) (hexit : ∀ id, s.reindeer id ≠ .exit) : ¬ s.Blocked := by
  intro h
  have hmove : santa_next s = none := h .santa
  have haway := Blocked.not_away hfits.reindeer h hsignals halarm hexit
  have hcall := Blocked.called hfits.reindeer h hsignals halarm hexit
  have hbusy := hbalance.busy
  have hcounter := Blocked.inCounter h hsignals
  have hsignalling := Blocked.signalling h hsignals
  -- a lock that Santa waits for is zero
  have hzero : ∀ {value : Nat}, value ≤ 1 → sem_wait value = none → value = 0 :=
    fun hle hnone => (sem_wait_eq_none (hle.trans (by decide))).mp hnone
  cases hsanta : s.santa with simp only [santa_next, hsanta, Option.map_eq_none_iff] at hmove
  | busy_wait =>
    -- Santa waits for elves he has signalled.
    have howing := Blocked.owing h hsignals hbalance hlocal (by rw [hsanta]; rfl) (by rw [hsanta]; rfl)
    have hhelped := hbalance.helped
    have hhelping := helping_cases s.num_elves_being_helped
    have hmove := hzero (by omega) hmove
    rw [hsanta] at hbusy hhelped
    simp only [Santa.holdsBusy, Santa.togo] at hbusy hhelped
    omega
  | sleep_wait =>
    rw [hsanta] at hcall
    simp only [Santa.heedsReindeer, Santa.leaving, Bool.false_eq_true, or_false] at hcall
    rw [sem_wait_eq_none (hcalls.sleep_le hfits)] at hmove
    omega
  | prepare_wait | help_wait =>
    obtain ⟨hnone, hquiet⟩ := hbalance.idle (by rw [hsanta]; rfl)
    have hhelping := helping_cases s.num_elves_being_helped
    have hmove := hzero (by omega) hmove
    rw [hsanta] at hbusy
    simp only [Santa.holdsBusy] at hbusy
    omega
  | help_counter_wait =>
    have hlock := hbalance.elf_counter_lock
    have hmove := hzero (by omega) hmove
    rw [hsanta] at hlock
    simp only [Santa.inCounter] at hlock
    omega
  | help_mutex_wait =>
    have hmutex := hbalance.elf_mutex
    have hnone := Blocked.inMutex h hsignals halarm (by rw [hsanta]; rfl)
    have hmove := hzero (by omega) hmove
    rw [hsanta] at hmutex
    simp only [Santa.inMutex] at hmutex
    omega
  | take_wait i =>
    have hwrite := halarm.write_lock
    have hnone := Blocked.inSet h hsignals
    have hmove := hzero (by omega) hmove
    rw [hsanta] at hwrite
    simp only [Santa.inSet] at hwrite
    omega
  | take_search i =>
    -- There is an elf to draw.
    have hleft := hbalance.ready (3 - i) (by rw [hsanta]; rfl)
    have hi : i.val < 3 := i.isLt
    have hpos : 0 < count fun id => s.elves_waiting.slots id := show 0 < s.occupied by omega
    obtain ⟨item, hslot⟩ := count_pos.mp hpos
    have hdraw : draw_next s item = none := h (.draw item)
    simp [draw_next, hsanta, set_take, hslot] at hdraw
  | lock_busy | lock_sleep => exact absurd haway (by rw [hsanta]; simp)
  | test_reindeer | test_elves => split at hmove <;> cases hmove
  | assign_reindeer | help_assign => cases hmove
  | busy_signal | prepare_signal | help_counter_signal | take_signal _ _ | line_signal _ _ | help_mutex_signal =>
    exact hsignals.santa (by rw [hsanta]; rfl) (h .santa)

/-- No wake-up call is lost: while some thread sleeps that should be woken, another is about to wake it, and no
    thread is held up or stopped by a semaphore that it signals. -/
structure Attended (s : State E R) : Prop where
  moves : (∀ id, s.reindeer id ≠ .exit) → ¬ s.Blocked
  signals : Signals s
  reindeer : s.santa = .sleep_wait → s.santa_sleep_mutex = 0 → R ≤ s.num_reindeer_waiting →
    ∃ id, (s.reindeer id).alerts = true
  elves : s.santa = .sleep_wait → s.santa_sleep_mutex = 0 → NUM_ELVES_PER_GROUP ≤ set_cardinality s.elves_waiting →
    ∃ id, (s.elf id).alerts = true

/-- For any number of elves, every schedule, and as many reindeer as the semaphores have room for. Santa has to
    signal all reindeer at once, and all of them and a group of elves may have called him before he wakes up. -/
theorem never_blocked (hR : 1 ≤ R) (hmax : R ≤ SEMVMX) (hgroup : 3 ≤ E → R < SEMVMX)
    (h : Reachable next (initial E R) s) : Attended s := by
  obtain ⟨halarm, hbalance, hlocal⟩ := Alarm.of_reachable hR h
  have hfits : Fits E R := ⟨hmax, hgroup⟩
  have hcalls := Calls.of_reachable h
  have hsignals := Signals.of_counts hR hfits hcalls halarm hbalance hlocal
  refine ⟨not_blocked hfits hsignals hcalls halarm hbalance hlocal, hsignals, fun hsanta hzero hfull => ?_,
    fun hsanta hzero hfull => ?_⟩
  · obtain hpos | hpos | hheeds := halarm.reindeer hfull
    · exact count_pos.mp hpos
    · omega
    · rw [hsanta] at hheeds
      cases hheeds
  · have hcard := hbalance.cardinality
    have hthree : (3 : Int) ≤ s.elves_waiting.cardinality := hfull
    obtain hpos | hpos | hheeds := halarm.elves (by omega)
    · exact count_pos.mp hpos
    · omega
    · rw [hsanta] at hheeds
      cases hheeds

/-- Both reindeer find the full count and call Santa, who has then left for good. -/
def bothCall : List (Move 1 2) :=
  let first := Move.reindeer ⟨0, Nat.two_pos⟩
  let second := Move.reindeer ⟨1, Nat.one_lt_two⟩
  List.replicate 3 first ++ List.replicate 5 second ++ List.replicate 2 first ++ List.replicate 7 Move.santa

theorem never_blocked_bothCall :
    ∃ s, run next (initial 1 2) bothCall = some s ∧ s.santa = .lock_busy ∧ Attended s := by
  have hlast : (run next (initial 1 2) bothCall).map State.santa = some .lock_busy := by decide +kernel
  obtain ⟨s, hrun, hsanta⟩ := Option.map_eq_some_iff.mp hlast
  exact ⟨s, hrun, hsanta, never_blocked (by decide) (by decide) (by decide) ⟨_, hrun⟩⟩

end cs444.prob2
