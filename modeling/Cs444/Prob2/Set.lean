import Mathlib.Algebra.Ring.Nat
import Mathlib.Data.Fintype.Basic
import Mathlib.Logic.Basic

open Function

namespace cs444.prob2

/-- The largest value of a semaphore. -/
def SEMVMX : Nat := 32767

/-- One operation of `semop`, on a semaphore with this value. `none`: the caller does not go on. It blocks, or
    the value would be above `SEMVMX` and it calls `exit` for the error that `semop` returns. -/
def semop (semval : Nat) (sem_op : Int) : Option Nat :=
  if sem_op = 0 ∧ semval ≠ 0 then none
  else
    let result := semval + sem_op
    if result < 0 then none
    else if SEMVMX < result then none
    else some result.toNat

def sem_wait_index (value : Nat) : Option Nat := semop value (-1)

def sem_wait (value : Nat) : Option Nat := sem_wait_index value

/-- An `int` as it is stored in `sem_op`, which is a `short`. -/
def toShort (n : Int) : Int := n.bmod (2 ^ 16)

/-- `sem_signal_index`, which asserts that it signals at all. -/
def sem_signal_index (value num_signals : Nat) : Option Nat :=
  if 0 < num_signals then semop value (toShort num_signals) else none

def sem_signal_ntimes (value n : Nat) : Option Nat := sem_signal_index value n

def sem_signal (value : Nat) : Option Nat := sem_signal_index value 1

theorem semop_eq_some {semval value : Nat} {sem_op : Int} :
    semop semval sem_op = some value ↔
      (sem_op = 0 → semval = 0) ∧ (value : Int) = semval + sem_op ∧ value ≤ SEMVMX := by
  rw [semop]
  dsimp only
  split_ifs with hzero hneg hlarge
  · simp only [false_iff]
    intro h
    exact hzero.2 (h.1 hzero.1)
  · simp only [false_iff]
    omega
  · simp only [false_iff]
    omega
  · rw [Option.some.injEq]
    omega

theorem sem_wait_eq_some {value value' : Nat} :
    sem_wait value = some value' ↔ value = value' + 1 ∧ value' ≤ SEMVMX := by
  rw [sem_wait, sem_wait_index, semop_eq_some]
  omega

/-- A wait blocks at zero only. (No value is above `SEMVMX`.) -/
theorem sem_wait_eq_none {value : Nat} (h : value ≤ SEMVMX) : sem_wait value = none ↔ value = 0 := by
  constructor
  · intro hnone
    by_contra hpos
    have hsome := sem_wait_eq_some.mpr (⟨by omega, by omega⟩ : value = value - 1 + 1 ∧ value - 1 ≤ SEMVMX)
    exact absurd (hnone.symm.trans hsome) (by simp)
  · rintro rfl
    rfl

/-- What `sem_signal_index` adds to a semaphore that nobody has signalled yet. -/
def permits (n : Nat) : Nat := (toShort n).toNat

theorem toShort_eq {n : Nat} (h : n ≤ SEMVMX) : toShort n = n := by
  rw [SEMVMX] at h
  rw [toShort, Int.bmod_def]
  omega

/-- As long as the count fits into a `short`, the value goes up by it. -/
theorem sem_signal_index_eq_some {value n value' : Nat} (hn : n ≤ SEMVMX) :
    sem_signal_index value n = some value' ↔ 0 < n ∧ value' = value + n ∧ value' ≤ SEMVMX := by
  rw [sem_signal_index]
  split
  · rw [semop_eq_some, toShort_eq hn]
    omega
  · simp only [reduceCtorEq, false_iff]
    omega

theorem permits_eq {n : Nat} (hn : n ≤ SEMVMX) : permits n = n := by
  rw [permits, toShort_eq hn, Int.toNat_natCast]

theorem sem_signal_index_zero {n value : Nat} (h : sem_signal_index 0 n = some value) : value = permits n := by
  rw [sem_signal_index] at h
  split at h
  · have hvalue := (semop_eq_some.mp h).2.1
    rw [permits]
    omega
  · cases h

theorem sem_signal_eq_some {value value' : Nat} :
    sem_signal value = some value' ↔ value' = value + 1 ∧ value < SEMVMX := by
  rw [sem_signal, sem_signal_index_eq_some (by decide)]
  omega

-- the two values of a semaphore that is a lock
@[simp] theorem sem_wait_zero : sem_wait 0 = none := rfl

@[simp] theorem sem_wait_one : sem_wait 1 = some 0 := sem_wait_eq_some.mpr ⟨rfl, Nat.zero_le _⟩

@[simp] theorem sem_signal_zero : sem_signal 0 = some 1 := sem_signal_eq_some.mpr ⟨rfl, by decide⟩

/-- `struct set`. Only items that have a slot can be named. -/
structure set_t (num_slots : Nat) where
  write_lock : Nat
  slots : Fin num_slots → Bool
  cardinality : Int

variable {num_slots : Nat}

def set_alloc (num_slots : Nat) : set_t num_slots where
  write_lock := 1
  slots _ := false
  cardinality := 0

/-- What `set_insert` does under the lock. -/
def set_insert (t : set_t num_slots) (item : Fin num_slots) : set_t num_slots where
  write_lock := t.write_lock
  slots := update t.slots item true
  cardinality := if t.cardinality < num_slots then t.cardinality + 1 else t.cardinality

/-- What `set_take` does under the lock when `item` has been drawn. `none`: it draws again. -/
def set_take (t : set_t num_slots) (item : Fin num_slots) : Option (set_t num_slots) :=
  if t.slots item then
    some { t with slots := update t.slots item false, cardinality := t.cardinality - 1 }
  else none

def set_cardinality (t : set_t num_slots) : Int := t.cardinality

end cs444.prob2
