import Mathlib.Algebra.Ring.Int.Defs
import Mathlib.Algebra.Ring.Nat
import Mathlib.Logic.Basic
import Mathlib.Tactic.Linarith
import Mathlib.Tactic.Positivity
import Mathlib.Tactic.Ring

/-! A memory of signed cells of `w` bytes each, read and written by bytes, the lowest first. -/

open Function

namespace bytes

section Digits

/-- A byte of a cell. -/
def digit (x : Int) (k : Nat) : Int := x / 256 ^ k % 256

variable {x c : Int} {j k w : Nat}

/-- What is added above a byte does not change it. -/
theorem digit_add_mul_of_lt (hjk : j < k) : digit (x + c * 256 ^ k) j = digit x j := by
  obtain ⟨d, rfl⟩ := Nat.exists_eq_add_of_lt hjk
  have hsplit : x + c * 256 ^ (j + d + 1) = x + 256 ^ j * (256 * (c * 256 ^ d)) := by ring
  rw [digit, digit, hsplit, Int.add_mul_ediv_left _ _ (by positivity), Int.add_mul_emod_self_left]

theorem digit_add_mul_self : digit (x + c * 256 ^ k) k = (digit x k + c) % 256 := by
  rw [digit, digit, Int.add_mul_ediv_right _ _ (by positivity), Int.emod_add_emod]

/-- Exchanging a byte does not change those above it. -/
theorem digit_exchange_of_gt (hkj : k < j) (hc : 0 ≤ c) (hc' : c < 256) :
    digit (x + (c - digit x k) * 256 ^ k) j = digit x j := by
  obtain ⟨d, rfl⟩ := Nat.exists_eq_add_of_lt hkj
  have hpos : (0 : Int) < 256 ^ k := by positivity
  -- Above the byte `k` is the same quotient.
  have hquotient : (x + (c - digit x k) * 256 ^ k) / 256 ^ k / 256 = x / 256 ^ k / 256 := by
    rw [Int.add_mul_ediv_right _ _ hpos.ne', digit]
    omega
  have hnested (y : Int) : y / 256 ^ (k + d + 1) = y / 256 ^ k / 256 / 256 ^ d := by
    rw [Int.ediv_ediv_of_nonneg hpos.le, Int.ediv_ediv_of_nonneg (by positivity)]
    congr 1
    ring
  rw [digit.eq_def _ (k + d + 1), digit.eq_def _ (k + d + 1), hnested, hnested, hquotient]

/-- A cell has the bytes of the number it is cut from. -/
theorem digit_bmod (hk : k < w) : digit (x.bmod (256 ^ w)) k = digit x k := by
  have hbmod : x.bmod (256 ^ w) = x + -(x.bdiv (256 ^ w)) * 256 ^ w := by
    have hdiv := Int.bmod_add_bdiv x (256 ^ w)
    push_cast at hdiv
    linarith
  rw [hbmod, digit_add_mul_of_lt hk]

end Digits

variable (w : Nat)

/-- The byte at an address. -/
def byte (mem : Nat → Int) (a : Nat) : Nat := (digit (mem (a / w)) (a % w)).toNat

/-- Write the byte at an address. -/
def setByte (mem : Nat → Int) (a v : Nat) : Nat → Int :=
  update mem (a / w) ((mem (a / w) + (v - digit (mem (a / w)) (a % w)) * 256 ^ (a % w)).bmod (256 ^ w))

/-- The number in the `n` bytes from an address on. -/
def load (mem : Nat → Int) : Nat → Nat → Nat
  | _, 0 => 0
  | a, n + 1 => byte w mem a + 256 * load mem (a + 1) n

/-- Write a number to the `n` bytes from an address on. -/
def store (mem : Nat → Int) : Nat → Nat → Nat → Nat → Int
  | _, 0, _ => mem
  | a, n + 1, v => setByte w (store mem (a + 1) n (v / 256)) a (v % 256)

variable {w} {mem mem' : Nat → Int} {a a' n v u : Nat}

/-- A byte is in its cell. -/
theorem byte_congr (h : mem' (a / w) = mem (a / w)) : byte w mem' a = byte w mem a := by
  rw [byte, byte, h]

theorem byte_setByte_self (hw : 0 < w) (hv : v < 256) : byte w (setByte w mem a v) a = v := by
  rw [byte, setByte, update_self, digit_bmod (Nat.mod_lt _ hw), digit_add_mul_self]
  have hsum : digit (mem (a / w)) (a % w) + ((v : Int) - digit (mem (a / w)) (a % w)) = v := by ring
  rw [hsum]
  omega

theorem byte_setByte_of_ne (hw : 0 < w) (hv : v < 256) (hne : a' ≠ a) :
    byte w (setByte w mem a v) a' = byte w mem a' := by
  by_cases hcell : a' / w = a / w
  · rw [byte, byte, setByte, hcell, update_self, digit_bmod (Nat.mod_lt _ hw)]
    have hplace : a' % w ≠ a % w := fun hsame => hne (by rw [← Nat.div_add_mod a' w, hcell, hsame, Nat.div_add_mod])
    obtain hbelow | habove := Nat.lt_or_gt_of_ne hplace
    · rw [digit_add_mul_of_lt hbelow]
    · rw [digit_exchange_of_gt habove (by omega) (by omega)]
  · exact byte_congr (update_of_ne hcell _ _)

/-- Only the cell of the byte is written. -/
theorem setByte_of_ne (hu : u ≠ a / w) : setByte w mem a v u = mem u :=
  update_of_ne hu _ _

/-- A byte that is not written stays. -/
theorem byte_store_of_not_mem (hw : 0 < w) (ha' : a' < a ∨ a + n ≤ a') :
    byte w (store w mem a n v) a' = byte w mem a' := by
  induction n generalizing a v with
  | zero => rfl
  | succ n ih =>
    rw [store, byte_setByte_of_ne hw (Nat.mod_lt _ (by decide)) (by omega)]
    exact ih (by omega)

/-- A cell none of whose bytes is written stays. -/
theorem store_of_forall_ne (hu : ∀ b, a ≤ b → b < a + n → b / w ≠ u) : store w mem a n v u = mem u := by
  induction n generalizing a v with
  | zero => rfl
  | succ n ih =>
    rw [store, setByte_of_ne (hu a (Nat.le_refl _) (by omega)).symm]
    exact ih fun b hb hb' => hu b (by omega) (by omega)

theorem load_congr (h : ∀ b, a ≤ b → b < a + n → byte w mem' b = byte w mem b) :
    load w mem' a n = load w mem a n := by
  induction n generalizing a with
  | zero => rfl
  | succ n ih =>
    rw [load, load, h a (Nat.le_refl _) (by omega)]
    rw [ih fun b hb hb' => h b (by omega) (by omega)]

/-- What is written elsewhere is not read. -/
theorem load_store_of_disjoint {m : Nat} (hw : 0 < w) (h : a' + m ≤ a ∨ a + n ≤ a') :
    load w (store w mem a n v) a' m = load w mem a' m :=
  load_congr fun _ _ _ => byte_store_of_not_mem hw (by omega)

/-- What was written is read back. -/
theorem load_store (hw : 0 < w) (hv : v < 256 ^ n) : load w (store w mem a n v) a n = v := by
  induction n generalizing a v with
  | zero => simp_all [load]
  | succ n ih =>
    have hrest : load w (store w mem a (n + 1) v) (a + 1) n = v / 256 := by
      refine (load_congr fun b hb _ => ?_).trans (ih (Nat.div_lt_of_lt_mul (by rwa [Nat.pow_succ'] at hv)))
      exact byte_setByte_of_ne hw (Nat.mod_lt _ (by decide)) (by omega)
    rw [load, hrest, store, byte_setByte_self hw (Nat.mod_lt _ (by decide))]
    exact Nat.mod_add_div v 256

end bytes
