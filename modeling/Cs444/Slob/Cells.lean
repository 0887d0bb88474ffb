import Mathlib.Data.Nat.Log
import Mathlib.Tactic.Common
import Mathlib.Tactic.Linarith
import Mathlib.Tactic.NormNum
import Cs444.Lib.IntervalSet

open interval

open Function

namespace cs444.slob

/-- The page size the kernel is configured with. Everything below is stated for
    every power of two whose pages fit in an `int` and reach past `ZERO_SIZE_PTR`. -/
structure Geometry where
  PAGE_SHIFT : Nat
  hpos : 5 ≤ PAGE_SHIFT
  hbound : PAGE_SHIFT ≤ 30

/-- The memory the allocator writes its headers to: one `slobidx_t` per unit,
    indexed by unit address (the byte address divided by `SLOB_UNIT`). -/
abbrev Mem := Nat → Int

namespace Geometry

variable (g : Geometry)

def PAGE_SIZE : Nat := 2 ^ g.PAGE_SHIFT

/-- `slobidx_t` is `s16` on pages of at most `32767 * 2` bytes and `s32` on larger ones. -/
def slobidxBits : Nat := if g.PAGE_SIZE ≤ 32767 * 2 then 16 else 32

/-- `sizeof(slob_t)` in bytes. -/
def SLOB_UNIT : Nat := g.slobidxBits / 8

def SLOB_UNITS (size : Nat) : Nat := (size + g.SLOB_UNIT - 1) / g.SLOB_UNIT

/-- `SLOB_UNITS(PAGE_SIZE)`. -/
def pageUnits : Nat := g.SLOB_UNITS g.PAGE_SIZE

/-- Conversion to `slobidx_t`. -/
def slobidx (x : Int) : Int := x.bmod (2 ^ g.slobidxBits)

/-- `s & PAGE_MASK` on unit addresses. -/
def pageBase (s : Nat) : Nat := s - s % g.pageUnits

/-- Encode the given size and next pointer into a free block. -/
def set_slob (mem : Mem) (s : Nat) (size : Int) (next : Nat) : Mem :=
  let offset := g.slobidx ((next : Int) - g.pageBase s)
  if g.slobidx size > 1 then
    update (update mem s (g.slobidx size)) (s + 1) offset
  else
    update mem s (g.slobidx (-offset))

/-- The size of a free block. -/
def slob_units (mem : Mem) (s : Nat) : Int :=
  if mem s > 0 then mem s else 1

/-- The next free block after this one. -/
def slob_next (mem : Mem) (s : Nat) : Nat :=
  let next := if mem s < 0 then g.slobidx (-mem s) else mem (s + 1)
  ((g.pageBase s : Int) + next).toNat

/-- True if `s` is the last free block in its page. -/
def slob_last (mem : Mem) (s : Nat) : Bool :=
  g.slob_next mem s % g.pageUnits == 0

theorem slobidxBits_cases :
    (g.slobidxBits = 16 ∧ g.PAGE_SIZE ≤ 65534) ∨ (g.slobidxBits = 32 ∧ 65534 < g.PAGE_SIZE) := by
  unfold slobidxBits
  split
  · exact .inl ⟨rfl, by omega⟩
  · exact .inr ⟨rfl, by omega⟩

theorem PAGE_SIZE_le : g.PAGE_SIZE ≤ 2 ^ 30 :=
  Nat.pow_le_pow_right (by decide) g.hbound

theorem lt_PAGE_SIZE : 16 < g.PAGE_SIZE :=
  lt_of_lt_of_le (by decide) (Nat.pow_le_pow_right (by decide) g.hpos)

theorem SLOB_UNIT_cases : g.SLOB_UNIT = 2 ∨ g.SLOB_UNIT = 4 := by
  unfold SLOB_UNIT
  obtain ⟨h, -⟩ | ⟨h, -⟩ := g.slobidxBits_cases
  · exact .inl (by rw [h])
  · exact .inr (by rw [h])

theorem SLOB_UNIT_pos : 0 < g.SLOB_UNIT := by
  obtain h | h := g.SLOB_UNIT_cases <;> omega

theorem SLOB_UNIT_dvd : g.SLOB_UNIT ∣ g.PAGE_SIZE := by
  unfold SLOB_UNIT
  obtain ⟨h, -⟩ | ⟨h, -⟩ := g.slobidxBits_cases
  · rw [h]
    exact dvd_pow_self 2 (by have := g.hpos; omega)
  · rw [h]
    exact pow_dvd_pow 2 (show 2 ≤ g.PAGE_SHIFT by have := g.hpos; omega)

theorem SLOB_UNITS_of_dvd {size : Nat} (h : g.SLOB_UNIT ∣ size) :
    g.SLOB_UNITS size = size / g.SLOB_UNIT := by
  obtain ⟨k, rfl⟩ := h
  have hpos := g.SLOB_UNIT_pos
  rw [SLOB_UNITS, Nat.mul_div_cancel_left _ hpos, Nat.add_sub_assoc hpos,
    Nat.mul_add_div hpos, Nat.div_eq_of_lt (by omega), Nat.add_zero]

/-- A page is a whole number of units. -/
theorem pageUnits_mul : g.pageUnits * g.SLOB_UNIT = g.PAGE_SIZE := by
  rw [pageUnits, g.SLOB_UNITS_of_dvd g.SLOB_UNIT_dvd, Nat.div_mul_cancel g.SLOB_UNIT_dvd]

theorem pageUnits_pos : 0 < g.pageUnits := by
  have hsize : 0 < g.PAGE_SIZE := Nat.pow_pos (by decide)
  rw [← g.pageUnits_mul] at hsize
  exact Nat.pos_of_mul_pos_right hsize

/-- Every offset in a page, including the one past its end, is a `slobidx_t`. -/
theorem pageUnits_lt : 2 * (g.pageUnits : Int) < 2 ^ g.slobidxBits := by
  have hmul := g.pageUnits_mul
  unfold SLOB_UNIT at hmul
  obtain ⟨h, hsize⟩ | ⟨h, -⟩ := g.slobidxBits_cases
  · rw [h] at hmul ⊢
    norm_num at hmul ⊢
    omega
  · have hsize := g.PAGE_SIZE_le
    rw [h] at hmul ⊢
    norm_num at hmul hsize ⊢
    omega

theorem slobidx_eq {x : Int} (hlo : -(g.pageUnits : Int) ≤ x) (hhi : x ≤ g.pageUnits) :
    g.slobidx x = x := by
  have hbits := g.pageUnits_lt
  apply Int.bmod_eq_of_le_mul_two <;> push_cast <;> omega

theorem SLOB_UNITS_pos {size : Nat} (h : 0 < size) : 0 < g.SLOB_UNITS size := by
  have hpos := g.SLOB_UNIT_pos
  exact Nat.div_pos (by omega) hpos

theorem SLOB_UNITS_mono {size size' : Nat} (h : size ≤ size') : g.SLOB_UNITS size ≤ g.SLOB_UNITS size' :=
  Nat.div_le_div_right (by omega)

theorem SLOB_UNITS_le {size : Nat} (h : size ≤ g.PAGE_SIZE) : g.SLOB_UNITS size ≤ g.pageUnits :=
  g.SLOB_UNITS_mono h

theorem pageBase_eq {base s : Nat} (hbase : g.pageUnits ∣ base) (hlo : base ≤ s)
    (hhi : s < base + g.pageUnits) : g.pageBase s = base := by
  obtain ⟨k, rfl⟩ := hbase
  have hmod : s % g.pageUnits = s - g.pageUnits * k := by
    have hs : s = (s - g.pageUnits * k) + g.pageUnits * k := by omega
    conv_lhs => rw [hs, Nat.add_mul_mod_self_left, Nat.mod_eq_of_lt (by omega)]
  rw [pageBase, hmod]
  omega

section Encoding

/-- The cells of a free block hold its size and the offset of the next one, in
    the two formats of the allocator: one unit stores only a negated offset. -/
def Encoded (mem : Mem) (b : Interval) (next : Nat) : Prop :=
  if 1 < b.len then
    mem b.start = b.len ∧ mem (b.start + 1) = (next : Int) - g.pageBase b.start
  else mem b.start = -((next : Int) - g.pageBase b.start)

variable {g} {base : Nat} {mem mem' : Mem} {b : Interval} {next : Nat}

theorem set_slob_encoded (mem : Mem) (hbase : g.pageUnits ∣ base) (hlo : base ≤ b.start)
    (hlen : 0 < b.len) (hhi : b.start + b.len ≤ base + g.pageUnits) (hnext : b.start < next)
    (hend : next ≤ base + g.pageUnits) :
    g.Encoded (g.set_slob mem b.start b.len next) b next := by
  have hpage : g.pageBase b.start = base := g.pageBase_eq hbase hlo (by omega)
  have hsize : g.slobidx b.len = b.len := g.slobidx_eq (by omega) (by omega)
  have hoff : g.slobidx ((next : Int) - base) = (next : Int) - base :=
    g.slobidx_eq (by omega) (by omega)
  have hneg : g.slobidx (-((next : Int) - base)) = -((next : Int) - base) :=
    g.slobidx_eq (by omega) (by omega)
  unfold Encoded set_slob
  rw [hpage, hsize, hoff, hneg]
  by_cases hone : 1 < b.len
  · rw [if_pos hone, if_pos (by omega)]
    simp
  · rw [if_neg hone, if_neg (by omega)]
    simp

theorem set_slob_frame (mem : Mem) (hbound : b.len ≤ g.pageUnits) {u : Nat} (hu : ¬ b.Covers u)
    (hlen : 0 < b.len) : g.set_slob mem b.start b.len next u = mem u := by
  have hsize : g.slobidx b.len = b.len := g.slobidx_eq (by omega) (by omega)
  have hne : u ≠ b.start := by
    rintro rfl
    exact hu ⟨le_refl _, by omega⟩
  unfold set_slob
  rw [hsize]
  split
  · rename_i hone
    have hne' : u ≠ b.start + 1 := by
      rintro rfl
      exact hu ⟨by omega, by omega⟩
    simp [update_of_ne hne, update_of_ne hne']
  · simp [update_of_ne hne]

/-- Decoding depends only on the cells of the block itself. -/
theorem Encoded.frame (h : g.Encoded mem b next) (hlen : 0 < b.len)
    (hsame : ∀ u, b.Covers u → mem' u = mem u) : g.Encoded mem' b next := by
  have hfirst : mem' b.start = mem b.start := hsame _ ⟨le_refl _, by omega⟩
  unfold Encoded at h ⊢
  split
  · rename_i hone
    rw [if_pos hone] at h
    rw [hfirst, hsame _ ⟨by omega, by omega⟩]
    exact h
  · rename_i hone
    rw [if_neg hone] at h
    rw [hfirst]
    exact h

theorem Encoded.slob_units_eq (h : g.Encoded mem b next) (hlen : 0 < b.len)
    (hnext : g.pageBase b.start < next) : slob_units mem b.start = b.len := by
  unfold Encoded at h
  unfold slob_units
  split at h
  · rw [h.1, if_pos (by omega)]
  · rw [h, if_neg (by omega)]
    omega

theorem Encoded.slob_next_eq (h : g.Encoded mem b next)
    (hnext : g.pageBase b.start < next) (hend : next ≤ g.pageBase b.start + g.pageUnits) :
    g.slob_next mem b.start = next := by
  unfold Encoded at h
  unfold slob_next
  split at h
  · rw [if_neg (by omega), h.2]
    dsimp only
    omega
  · rw [if_pos (by omega), h, neg_neg, g.slobidx_eq (by omega) (by omega)]
    dsimp only
    omega

/-- The unit address at which a list of free blocks starts, `e` when it is empty. -/
def headAddr (e : Nat) : List Interval → Nat
  | [] => e
  | b :: _ => b.start

/-- The cells decode to the list of free blocks `l`, whose last next pointer is `e`. -/
def Chain (g : Geometry) (mem : Mem) (e : Nat) : List Interval → Prop
  | [] => True
  | b :: l => g.Encoded mem b (headAddr e l) ∧ Chain g mem e l

@[simp] theorem headAddr_nil (e : Nat) : headAddr e [] = e := rfl

@[simp] theorem headAddr_cons (e : Nat) (b : Interval) (l : List Interval) :
    headAddr e (b :: l) = b.start := rfl

theorem headAddr_append (e : Nat) (l₁ l₂ : List Interval) :
    headAddr e (l₁ ++ l₂) = headAddr (headAddr e l₂) l₁ := by
  cases l₁ <;> rfl

theorem headAddr_bounds {k lo hi : Nat} {l : List Interval} (h : Spaced k hi lo l) (hle : lo ≤ hi) :
    lo ≤ headAddr hi l ∧ headAddr hi l ≤ hi := by
  cases l with
  | nil => exact ⟨hle, le_refl _⟩
  | cons b l => exact ⟨h.1, (Nat.le_add_right _ _).trans h.2.2.1⟩

theorem Chain.append_iff {e : Nat} {l₁ l₂ : List Interval} :
    g.Chain mem e (l₁ ++ l₂) ↔ g.Chain mem (headAddr e l₂) l₁ ∧ g.Chain mem e l₂ := by
  induction l₁ with
  | nil => simp [Chain]
  | cons b l₁ ih => simp only [List.cons_append, Chain, ih, headAddr_append, and_assoc]

theorem Chain.frame {e k lo hi : Nat} {l : List Interval} (h : g.Chain mem e l)
    (hgap : Spaced k hi lo l) (hsame : ∀ u, covers l u → mem' u = mem u) : g.Chain mem' e l := by
  induction l generalizing lo with
  | nil => trivial
  | cons b l ih =>
    refine ⟨h.1.frame hgap.2.1 fun u hu => hsame u ?_, ih h.2 hgap.2.2.2 fun u hu => hsame u ?_⟩
    · exact (covers_cons b l u).mpr (.inl hu)
    · exact (covers_cons b l u).mpr (.inr hu)

end Encoding

end Geometry

end cs444.slob
