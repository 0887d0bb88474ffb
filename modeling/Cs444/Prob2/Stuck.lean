import Cs444.Prob2.Progress

open interleaving

open Function

namespace cs444.prob2

variable {E R : Nat} {s : State E R}

/-- An elf is in the set, all reindeer are back, and Santa is about to call them. -/
def stuck (R : Nat) : State 1 R :=
  { initial 1 R with
    santa_busy_mutex := 0
    num_reindeer_waiting := R
    elves_waiting := set_insert (set_alloc 1) ⟨0, Nat.one_pos⟩
    elf_counting_sem := 2
    santa := .prepare_signal
    elf := fun _ => .line_wait
    reindeer := fun _ => .counting_wait }

/-- A reindeer comes back that is not the last one. -/
theorem reindeer_waits (id : Fin R) (hp : s.reindeer id = .counter_wait) (hlock : s.reindeer_counter_lock = 1)
    (hmore : s.num_reindeer_waiting + 1 < R) :
    run next s (List.replicate 4 (.reindeer id)) = some { s with
      num_reindeer_waiting := s.num_reindeer_waiting + 1
      reindeer := update s.reindeer id .counting_wait } := by
  have hnot : ¬ (R : Int) ≤ s.num_reindeer_waiting + 1 := Int.not_le.mpr hmore
  simp [run, next, reindeer_next, hp, hlock, hnot, List.replicate]

/-- The last reindeer comes back, and calls Santa. -/
theorem reindeer_calls (id : Fin R) (hp : s.reindeer id = .counter_wait) (hlock : s.reindeer_counter_lock = 1)
    (hlast : s.num_reindeer_waiting + 1 = R) (hsleep : s.santa_sleep_mutex = 0) :
    run next s (List.replicate 5 (.reindeer id)) = some { s with
      num_reindeer_waiting := R
      santa_sleep_mutex := 1
      reindeer := update s.reindeer id .counting_wait } := by
  simp [run, next, reindeer_next, hp, hlock, hlast, hsleep, List.replicate]

/-- The state with the first `k` reindeer waiting. -/
def gathered (s : State E R) (k : Nat) : State E R :=
  { s with
    num_reindeer_waiting := k
    reindeer := fun id => if id.val < k then .counting_wait else .counter_wait }

theorem gathered_zero (hall : ∀ id, s.reindeer id = .counter_wait) (hnum : s.num_reindeer_waiting = 0) :
    gathered s 0 = s := by
  have hreindeer : (fun _ => .counter_wait) = s.reindeer := funext fun id => (hall id).symm
  have hzero : ((0 : Nat) : Int) = s.num_reindeer_waiting := hnum.symm
  simp only [gathered, Nat.not_lt_zero, if_false, hreindeer, hzero]

theorem gathered_succ (s : State E R) {k : Nat} (hk : k < R) :
    update (gathered s k).reindeer ⟨k, hk⟩ .counting_wait = (gathered s (k + 1)).reindeer := by
  funext id
  simp only [gathered]
  by_cases hid : id = ⟨k, hk⟩
  · rw [hid, update_self, if_pos (Nat.lt_succ_self k)]
  · have hne : id.val ≠ k := fun hval => hid (Fin.ext hval)
    rw [update_of_ne hid]
    exact if_congr (by omega) rfl rfl

/-- All reindeer but the last come back one after the other. -/
theorem reindeer_gather (hall : ∀ id, s.reindeer id = .counter_wait) (hlock : s.reindeer_counter_lock = 1)
    (hnum : s.num_reindeer_waiting = 0) {k : Nat} (hk : k < R) : Reachable next s (gathered s k) := by
  induction k with
  | zero => exact ⟨[], congrArg some (gathered_zero hall hnum).symm⟩
  | succ k ih =>
    have hlt := Nat.lt_of_succ_lt hk
    obtain ⟨ms, hrun⟩ := ih hlt
    refine ⟨ms ++ List.replicate 4 (.reindeer ⟨k, hlt⟩), ?_⟩
    have hnext := reindeer_waits (s := gathered s k) ⟨k, hlt⟩ (by simp [gathered]) hlock
      (by simp only [gathered]; omega)
    rw [run_append, hrun, Option.bind_some, hnext, gathered_succ s hlt]
    rfl

/-- The only elf puts itself into the set, and waits for Santa. -/
theorem elf_waits (R : Nat) :
    run next (initial 1 R) (List.replicate 7 (.elf ⟨0, Nat.one_pos⟩)) = some { initial 1 R with
      elves_waiting := set_insert (set_alloc 1) ⟨0, Nat.one_pos⟩
      elf_counting_sem := 2
      elf := fun _ => .line_wait } := by
  have hcounting : sem_wait NUM_ELVES_PER_GROUP = some 2 := by decide
  have helf : ∀ (f : Fin 1 → Elf) p, update f 0 p = fun _ => p := by
    intro f p
    funext id
    rw [Subsingleton.elim id 0, update_self]
  simp [run, next, elf_next, initial, hcounting, set_insert, set_alloc, set_cardinality, List.replicate, helf]

/-- Santa wakes up and finds that all reindeer are back. -/
theorem santa_finds (hsanta : s.santa = .busy_wait) (hbusy : s.santa_busy_mutex = 1) (hsleep : s.santa_sleep_mutex = 1)
    (hnum : s.num_reindeer_waiting = R) :
    run next s (List.replicate 6 .santa) = some { s with
      santa_busy_mutex := 0
      santa_sleep_mutex := 0
      santa := .prepare_signal } := by
  simp [run, next, santa_next, hsanta, hbusy, hsleep, hnum, List.replicate]

theorem stuck_reachable (hR : 1 ≤ R) : Reachable next (initial 1 R) (stuck R) := by
  obtain ⟨n, rfl⟩ : ∃ n, R = n + 1 := ⟨R - 1, by omega⟩
  have hlast : n < n + 1 := Nat.lt_succ_self n
  obtain ⟨s, helf, hs⟩ : ∃ s, run next (initial 1 (n + 1)) (List.replicate 7 (.elf ⟨0, Nat.one_pos⟩)) = some s ∧ s = _ :=
    ⟨_, elf_waits (n + 1), rfl⟩
  obtain ⟨ms, hgather⟩ := reindeer_gather (s := s) (by simp [hs, initial]) (by simp [hs, initial])
    (by simp [hs, initial]) hlast
  have hcalls := reindeer_calls (s := gathered s n) ⟨n, hlast⟩ (by simp [gathered])
    (by simp [gathered, hs, initial]) (by simp [gathered]) (by simp [gathered, hs, initial])
  have hall : update (gathered s n).reindeer ⟨n, hlast⟩ .counting_wait = fun _ => .counting_wait := by
    rw [gathered_succ s hlast]
    exact funext fun id => if_pos id.isLt
  refine ⟨List.replicate 7 (.elf ⟨0, Nat.one_pos⟩) ++ (ms ++ (List.replicate 5 (.reindeer ⟨n, hlast⟩) ++
    List.replicate 6 .santa)), ?_⟩
  rw [run_append, helf, Option.bind_some, run_append, hgather, Option.bind_some, run_append, hcalls,
    Option.bind_some, hall, santa_finds]
  all_goals simp [hs, gathered, initial, stuck]

theorem stuck_blocked (h : sem_signal_ntimes 0 R = none) : (stuck R).Blocked := by
  intro a
  cases a with
  | santa => simp [next, santa_next, stuck, initial, h]
  | draw item => rfl
  | elf id => simp [next, elf_next, stuck, initial]
  | reindeer id => simp [next, reindeer_next, stuck, initial]

/-- With 32768 reindeer Santa asks for -32768 permits: he waits for them, and everybody else waits for him. -/
theorem blocked_at_32768 :
    Reachable next (initial 1 32768) (stuck 32768) ∧ (∀ id, (stuck 32768).reindeer id ≠ .exit) ∧
      (stuck 32768).Blocked :=
  ⟨stuck_reachable (by decide), fun _ => by simp [stuck], stuck_blocked (by decide)⟩

end cs444.prob2
