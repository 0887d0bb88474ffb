import Mathlib.Algebra.Order.BigOperators.Group.Finset
import Cs444.SchedRt.CpupriSteps

open interleaving cs444.sched_rt

open Function

namespace cs444.sched_cpupri

variable {n : Nat}

section Accesses

variable {s s' : State n} {cpu : Fin n}

/-- What a call does after an access. -/
def SetPhase.succ : SetPhase → SetPhase
  | .idle => .idle
  | .bug => .bug
  | .add_lock old new => .add_mask old new
  | .add_mask old new => .add_count old new
  | .add_count old new => .add_bit old new
  | .add_bit old new => .add_unlock old new
  | .add_unlock old new => added old new
  | .del_lock old new => .del_count old new
  | .del_count old new => .del_bit old new
  | .del_bit old new => .del_mask old new
  | .del_mask old new => .del_unlock old new
  | .del_unlock _ new => .store new
  | .store _ => .idle

/-- What is then recorded for its CPU. -/
def SetPhase.stored (pri : Option Nat) : SetPhase → Option Nat
  | .store new => new
  | _ => pri

/-- An access changes nothing that is kept for another CPU. -/
theorem go_eq (h : s.go cpu = some s') : s.set cpu ≠ .idle ∧ s'.set = update s.set cpu (s.set cpu).succ ∧
    s'.cp.cpu_to_pri =
      update s.cp.cpu_to_pri cpu ((s.set cpu).stored (s.cp.cpu_to_pri cpu)) := by
  have hsame : update s.cp.cpu_to_pri cpu (s.cp.cpu_to_pri cpu) = s.cp.cpu_to_pri := update_eq_self ..
  cases hph : s.set cpu with
  | idle => simp [State.go, hph] at h
  | bug => simp [State.go, hph] at h
  | add_lock old new | del_lock old new =>
    simp only [State.go, hph] at h
    split at h
    · cases h
      exact ⟨SetPhase.noConfusion, rfl, hsame.symm⟩
    · cases h
  | add_bit old new | del_bit old new =>
    simp only [State.go, hph] at h
    cases h
    refine ⟨SetPhase.noConfusion, rfl, Eq.trans ?_ hsame.symm⟩
    rw [State.goto]
    split <;> rfl
  | store new =>
    simp only [State.go, hph] at h
    cases h
    exact ⟨SetPhase.noConfusion, rfl, rfl⟩
  | _ =>
    simp only [State.go, hph] at h
    cases h
    exact ⟨SetPhase.noConfusion, rfl, hsame.symm⟩

theorem next_other {m : Move n} (h : next s m = some s') {c : Fin n} (hc : c ≠ m.cpu) :
    s'.set c = s.set c ∧ s'.cp.cpu_to_pri c = s.cp.cpu_to_pri c := by
  cases m with
  | go cpu =>
    obtain ⟨-, hset, hpri⟩ := go_eq h
    rw [hset, hpri]
    exact ⟨update_of_ne hc .., update_of_ne hc ..⟩
  | cpupri_set cpu prio =>
    rw [next] at h
    split at h
    · cases h
      exact ⟨update_of_ne hc .., rfl⟩
    · cases h

end Accesses

section Table

variable {s : State n} {cpu : Fin n} {idx : Nat}

/-- Where a CPU is to be found, whatever its call has done so far: the old vector until the new one is
    ready. -/
def SetPhase.place (pri : Option Nat) : SetPhase → Option Nat
  | .idle | .bug => pri
  | .add_lock old _ | .add_mask old _ | .add_count old _ | .add_bit old _ | .add_unlock old _ => old
  | .del_lock _ new | .del_count _ new | .del_bit _ new | .del_mask _ new | .del_unlock _ new | .store new => new

def State.place (s : State n) (cpu : Fin n) : Option Nat := (s.set cpu).place (s.cp.cpu_to_pri cpu)

/-- The call is one to `CPUPRI_INVALID`, and takes the CPU out of the table. -/
def SetPhase.removes : SetPhase → Bool
  | .del_lock _ new | .del_count _ new | .del_bit _ new | .del_mask _ new | .del_unlock _ new | .store new =>
    new.isNone
  | _ => false

/-- A CPU that is recorded has a place, unless it is on its way out. -/
theorem Inv.place_ne_none (hi : Inv s) (hpri : s.cp.cpu_to_pri cpu ≠ none) (hkept : (s.set cpu).removes = false) :
    s.place cpu ≠ none := by
  have hwf := hi.wf cpu
  rw [State.place]
  cases hph : s.set cpu with rw [hph] at hwf hkept
  | idle | bug => exact hpri
  | add_lock old new | add_mask old new | add_count old new | add_bit old new | add_unlock old new =>
    rw [hwf.1] at hpri
    exact hpri
  | del_lock old new | del_count old new | del_bit old new | del_mask old new | del_unlock old new | store new =>
    exact Option.isSome_iff_ne_none.mp (Option.isNone_eq_false_iff.mp hkept)

/-- It is there, with its bit set. -/
theorem Inv.placed (hi : Inv s) (hplace : s.place cpu = some idx) :
    (s.cp.pri_to_cpu idx).mask cpu = true ∧ s.cp.pri_active idx = true := by
  rw [hi.mask, hi.active_iff cpu, State.marked, State.shown]
  rw [State.place] at hplace
  cases hph : s.set cpu <;> rw [hph] at hplace <;> simp only [SetPhase.place] at hplace <;>
    simp [SetPhase.marked, SetPhase.shown, hplace]

theorem Inv.place_lt (hi : Inv s) (hplace : s.place cpu = some idx) : idx < CPUPRI_NR_PRIORITIES := by
  have hwf := hi.wf cpu
  rw [State.place] at hplace
  cases hph : s.set cpu with
  | idle =>
    rw [hph] at hwf hplace
    exact hwf idx hplace
  | bug =>
    rw [hph] at hwf
    exact hwf.elim
  | add_lock old new | add_mask old new | add_count old new | add_bit old new | add_unlock old new =>
    rw [hph] at hwf hplace
    exact hwf.2.2.2 idx hplace
  | del_lock old new | del_count old new | del_bit old new | del_mask old new | del_unlock old new =>
    rw [hph] at hwf hplace
    exact hwf.2.2 idx hplace
  | store new =>
    rw [hph] at hwf hplace
    exact hwf idx hplace

/-- Nothing is going on: the table says of each CPU what was recorded for it last. -/
structure Exact (s : State n) : Prop where
  mask : ∀ idx cpu, (s.cp.pri_to_cpu idx).mask cpu = true ↔ s.cp.cpu_to_pri cpu = some idx
  count : ∀ idx, (s.cp.pri_to_cpu idx).count = count fun cpu => decide (s.cp.cpu_to_pri cpu = some idx)
  active : ∀ idx, s.cp.pri_active idx = true ↔ ∃ cpu, s.cp.cpu_to_pri cpu = some idx
  lock : ∀ idx, (s.cp.pri_to_cpu idx).lock = none

theorem Inv.exact (hi : Inv s) (hidle : ∀ cpu, s.set cpu = .idle) : Exact s where
  mask idx cpu := by simp [hi.mask, State.marked, hidle, SetPhase.marked]
  count idx := by simp only [hi.count, State.counted, hidle, SetPhase.counted]
  active idx := by simp [hi.active, State.shown, hidle, SetPhase.shown]
  lock idx := by
    rw [Option.eq_none_iff_forall_ne_some]
    intro cpu hlock
    rw [hi.lock, hidle] at hlock
    cases hlock

/-- The calls of `cpupri_set` for different CPUs may be interleaved in any way. A CPU that is recorded has at
    every moment a place, in whose mask it is and whose bit is set, until a call takes it out of the table; and
    when no call is under way each CPU is in the vector recorded for it alone, with counts and bits to match. -/
theorem cpupri_table (h : Reachable next cpupri_init s) :
    (∀ cpu, s.set cpu ≠ .bug) ∧
      (∀ cpu, s.cp.cpu_to_pri cpu ≠ none → (s.set cpu).removes = false → s.place cpu ≠ none) ∧
      (∀ cpu idx, s.place cpu = some idx → idx < CPUPRI_NR_PRIORITIES ∧
        (s.cp.pri_to_cpu idx).mask cpu = true ∧ s.cp.pri_active idx = true) ∧
      ((∀ cpu, s.set cpu = .idle) → Exact s) := by
  have hi : Inv s := h.invariant cpupri_init_inv fun _ _ _ hi hnext => hi.next hnext
  refine ⟨fun cpu hbug => ?_, fun cpu => hi.place_ne_none, fun cpu idx hplace => ?_, hi.exact⟩
  · have hwf := hi.wf cpu
    rw [hbug] at hwf
    exact hwf
  · exact ⟨hi.place_lt hplace, hi.placed hplace⟩

/-- The first CPU goes from one vector to another, and the second one comes into the vector that the first
    leaves. Both calls are in the middle of their first part. -/
def sampleMoves : List (Move 2) :=
  let first : Fin 2 := ⟨0, Nat.two_pos⟩
  let second : Fin 2 := ⟨1, Nat.one_lt_two⟩
  .cpupri_set first 50 :: List.replicate 6 (.go first) ++ [.cpupri_set second 50, .cpupri_set first 20] ++
    [.go second, .go first, .go second, .go first, .go first]

/-- The accesses that the two calls have left. -/
def sampleRest : List (Fin 2) :=
  let first : Fin 2 := ⟨0, Nat.two_pos⟩
  let second : Fin 2 := ⟨1, Nat.one_lt_two⟩
  [second, first, second, first, second, second] ++ List.replicate 6 first

theorem sampleMoves_run : ∃ s s' : State 2, run next cpupri_init sampleMoves = some s ∧
    s.place ⟨0, Nat.two_pos⟩ = some 51 ∧ run next s (sampleRest.map .go) = some s' ∧ ∀ cpu, s'.set cpu = .idle := by
  have hlast : ((run next cpupri_init sampleMoves).bind fun s => (run next s (sampleRest.map .go)).map fun s' =>
      (s.place ⟨0, Nat.two_pos⟩, s'.set ⟨0, Nat.two_pos⟩, s'.set ⟨1, Nat.one_lt_two⟩)) =
        some (some 51, .idle, .idle) := by
    decide +kernel
  obtain ⟨s, hs, hlast⟩ := Option.bind_eq_some_iff.mp hlast
  obtain ⟨s', hs', hlast⟩ := Option.map_eq_some_iff.mp hlast
  simp only [Prod.mk.injEq] at hlast
  obtain ⟨hplace, hfirst, hsecond⟩ := hlast
  exact ⟨s, s', hs, hplace, hs', Fin.forall_fin_two.mpr ⟨hfirst, hsecond⟩⟩

theorem cpupri_table_sample : ∃ s s' : State 2, run next cpupri_init sampleMoves = some s ∧
    (∀ cpu, s.set cpu ≠ .bug) ∧ s.place ⟨0, Nat.two_pos⟩ = some 51 ∧
    (s.cp.pri_to_cpu 51).mask ⟨0, Nat.two_pos⟩ = true ∧ s.cp.pri_active 51 = true ∧
    run next s (sampleRest.map .go) = some s' ∧ Exact s' := by
  obtain ⟨s, s', hs, hplace, hs', hidle⟩ := sampleMoves_run
  obtain ⟨hbug, -, hplaced, -⟩ := cpupri_table ⟨sampleMoves, hs⟩
  have hlast : run next cpupri_init (sampleMoves ++ sampleRest.map .go) = some s' := by
    rw [run_append, hs]
    exact hs'
  obtain ⟨-, hmask, hactive⟩ := hplaced _ _ hplace
  exact ⟨s, s', hs, hbug, hplace, hmask, hactive, hs', (cpupri_table ⟨_, hlast⟩).2.2.2 hidle⟩

end Table

section Progress

variable {s s' : State n} {cpu : Fin n}

/-- How many accesses a call has to make at most. -/
def SetPhase.left : SetPhase → Nat
  | .idle | .bug => 0
  | .add_lock .. => 11
  | .add_mask .. => 10
  | .add_count .. => 9
  | .add_bit .. => 8
  | .add_unlock .. => 7
  | .del_lock .. => 6
  | .del_count .. => 5
  | .del_bit .. => 4
  | .del_mask .. => 3
  | .del_unlock .. => 2
  | .store _ => 1

theorem left_le (ph : SetPhase) : ph.left ≤ 11 := by
  cases ph <;> simp [SetPhase.left]

theorem left_succ {ph : SetPhase} (hbusy : ph ≠ .idle) (hok : ph ≠ .bug) : ph.succ.left < ph.left := by
  cases ph with
  | idle => exact absurd rfl hbusy
  | bug => exact absurd rfl hok
  | add_unlock old new => cases old <;> simp [SetPhase.succ, added, SetPhase.left]
  | _ => simp [SetPhase.succ, SetPhase.left]

/-- Every access brings a call nearer to its end. -/
theorem go_left (h : s.go cpu = some s') :
    (s'.set cpu).left < (s.set cpu).left ∧ ∀ c, c ≠ cpu → s'.set c = s.set c := by
  obtain ⟨hbusy, hset, -⟩ := go_eq h
  have hok : s.set cpu ≠ .bug := by
    intro hbug
    simp [State.go, hbug] at h
  rw [hset, update_self]
  exact ⟨left_succ hbusy hok, fun c hc => update_of_ne hc ..⟩

/-- Who holds a lock does not wait, and nobody waits for a lock that is free. -/
theorem go_enabled (hbusy : s.set cpu ≠ .idle) (hok : s.set cpu ≠ .bug)
    (hfree : (s.set cpu).locks = none → ∀ idx, (s.cp.pri_to_cpu idx).lock = none) : s.go cpu ≠ none := by
  cases hph : s.set cpu with
  | idle => exact absurd hph hbusy
  | bug => exact absurd hph hok
  | add_lock old new =>
    have hlock := hfree (by rw [hph]; rfl) new
    simp [State.go, hph, hlock]
  | del_lock old new =>
    have hlock := hfree (by rw [hph]; rfl) old
    simp [State.go, hph, hlock]
  | _ => simp [State.go, hph]

theorem Inv.idle_of_stuck (hi : Inv s) (hstuck : ∀ cpu, s.go cpu = none) (cpu : Fin n) : s.set cpu = .idle := by
  have hok : ∀ c, s.set c ≠ .bug := by
    intro c hbug
    have hwf := hi.wf c
    rw [hbug] at hwf
    exact hwf
  -- nobody holds a lock, for the holder could go on
  have hfree : ∀ idx, (s.cp.pri_to_cpu idx).lock = none := by
    intro idx
    rw [Option.eq_none_iff_forall_ne_some]
    intro c hlock
    have hlocks := (hi.lock idx c).mp hlock
    refine go_enabled (fun hidle => ?_) (hok c) (fun hnone => ?_) (hstuck c)
    · rw [hidle] at hlocks
      cases hlocks
    · rw [hlocks] at hnone
      cases hnone
  by_contra hbusy
  exact go_enabled hbusy (hok cpu) (fun _ => hfree) (hstuck cpu)

/-- What a CPU has done and what it still has to do. -/
theorem run_go_left {cpus : List (Fin n)} (h : run next s (cpus.map .go) = some s') (cpu : Fin n) :
    cpus.count cpu + (s'.set cpu).left ≤ (s.set cpu).left := by
  induction cpus generalizing s with
  | nil =>
    cases h
    simp
  | cons c cpus ih =>
    obtain ⟨s₁, hgo, hrun⟩ := Option.bind_eq_some_iff.mp h
    obtain ⟨hless, hother⟩ := go_left hgo
    have hrest := ih hrun
    rw [List.count_cons]
    by_cases hc : cpu = c
    · subst hc
      simp only [beq_self_eq_true, if_true]
      omega
    · rw [hother cpu hc] at hrest
      simpa [Ne.symm hc] using hrest

/-- Calls of `cpupri_set` hold each other up for a while at most. However the CPUs take turns, each of the calls
    under way makes at most eleven accesses, all of them together at most eleven for each CPU, and there is one
    to make until all of them have returned. -/
theorem cpupri_set_completes (h : Reachable next cpupri_init s) {cpus : List (Fin n)}
    (hrun : run next s (cpus.map .go) = some s') :
    (∀ cpu, cpus.count cpu ≤ 11) ∧ cpus.length ≤ 11 * n ∧
      ((∀ cpu, s'.go cpu = none) → ∀ cpu, s'.set cpu = .idle) := by
  have hi : Inv s := h.invariant cpupri_init_inv fun _ _ _ hi hnext => hi.next hnext
  have hi' : Inv s' := run_invariant (fun _ _ _ hi hnext => hi.next hnext) hi hrun
  have hcount : ∀ cpu, cpus.count cpu ≤ 11 := by
    intro cpu
    have hleft := run_go_left hrun cpu
    have hmax := left_le (s.set cpu)
    omega
  refine ⟨hcount, ?_, hi'.idle_of_stuck⟩
  have hsum := Multiset.sum_count_eq_card (s := Finset.univ) (m := (cpus : Multiset (Fin n)))
    fun cpu _ => Finset.mem_univ cpu
  calc cpus.length = ∑ cpu, cpus.count cpu := by simpa using hsum.symm
    _ ≤ ∑ _cpu : Fin n, 11 := Finset.sum_le_sum fun cpu _ => hcount cpu
    _ = 11 * n := by simp [Nat.mul_comm]

theorem cpupri_set_completes_sample : ∃ s s' : State 2, run next cpupri_init sampleMoves = some s ∧
    run next s (sampleRest.map .go) = some s' ∧ (∀ cpu, sampleRest.count cpu ≤ 11) ∧ sampleRest.length ≤ 11 * 2 ∧
    (∀ cpu, s'.go cpu = none) ∧ ∀ cpu, s'.set cpu = .idle := by
  obtain ⟨s, s', hs, -, hs', hidle⟩ := sampleMoves_run
  have hstuck : ∀ cpu, s'.go cpu = none := fun cpu => by simp [State.go, hidle cpu]
  obtain ⟨hcount, hlength, hdone⟩ := cpupri_set_completes ⟨sampleMoves, hs⟩ hs'
  exact ⟨s, s', hs, hs', hcount, hlength, hstuck, hdone hstuck⟩

end Progress

end cs444.sched_cpupri
