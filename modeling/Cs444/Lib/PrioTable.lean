import Mathlib.Data.List.Nodup
import Mathlib.Data.List.Perm.Basic
import Mathlib.Logic.Basic
import Mathlib.Order.MinMax
import Mathlib.Tactic.Common

open Function

namespace priotable

/-- Queues of entries by priority, where a lower number is a higher priority, and a bitmap
    of the priorities in use. -/
structure Table (α : Type) where
  bitmap : Nat → Bool
  queue : Nat → List α

namespace Table

section Basic

variable {α : Type}

/-- Add an entry at the head or the tail of a queue, and set its bit. -/
def put (t : Table α) (head : Bool) (i : Nat) (x : α) : Table α where
  bitmap := update t.bitmap i true
  queue := update t.queue i (if head then x :: t.queue i else t.queue i ++ [x])

/-- All entries below priority `n`. -/
def entries (n : Nat) (t : Table α) : List α :=
  (List.range n).flatMap t.queue

/-- The first bit that is set below `n`, or else `n`. -/
def first (n : Nat) (t : Table α) : Nat :=
  ((List.range n).find? t.bitmap).getD n

/-- The bits below `n` are those of the queues in use. -/
def Marked (n : Nat) (t : Table α) : Prop :=
  ∀ i < n, t.bitmap i = true ↔ t.queue i ≠ []

/-- The first queue in use below `n` is `m`, or `m` is `n` and there is none. -/
structure Least (n : Nat) (t : Table α) (m : Nat) : Prop where
  le : m ≤ n
  before : ∀ j < m, t.queue j = []
  used : m < n → t.queue m ≠ []

/-- An entry is on queue `i` and on no other. -/
structure Only (t : Table α) (i : Nat) (x : α) : Prop where
  mem : x ∈ t.queue i
  eq : ∀ j, x ∈ t.queue j → j = i

variable {t : Table α} {n i j m : Nat} {x y : α}

theorem mem_entries : x ∈ t.entries n ↔ ∃ i < n, x ∈ t.queue i := by
  simp [entries]

theorem queue_put_of_ne (head : Bool) (h : j ≠ i) : (t.put head i x).queue j = t.queue j :=
  update_of_ne h _ _

theorem mem_queue_put (head : Bool) : y ∈ (t.put head i x).queue j ↔ y ∈ t.queue j ∨ (j = i ∧ y = x) := by
  obtain rfl | hj := eq_or_ne j i
  · cases head <;> simp [put, or_comm]
  · simp [queue_put_of_ne head hj, hj]

/-- Replacing one queue by one with an entry more adds that entry. -/
theorem flatMap_update {q : Nat → List α} {l : List α} (hi : i < n) (hl : l.Perm (x :: q i)) :
    ((List.range n).flatMap (update q i l)).Perm (x :: (List.range n).flatMap q) := by
  induction n with
  | zero => omega
  | succ n ih =>
    rw [List.range_succ, List.flatMap_append, List.flatMap_append, List.flatMap_singleton, List.flatMap_singleton]
    obtain rfl | hlt := Nat.eq_or_lt_of_le (Nat.lt_succ_iff.mp hi)
    · have hrest : (List.range i).flatMap (update q i l) = (List.range i).flatMap q := by
        apply List.flatMap_congr
        intro j hj
        rw [update_of_ne (List.mem_range.mp hj).ne]
      rw [hrest, update_self]
      exact (hl.append_left _).trans List.perm_middle
    · rw [update_of_ne (by omega)]
      exact (ih hlt).append_right _

theorem entries_put (head : Bool) (hi : i < n) : ((t.put head i x).entries n).Perm (x :: t.entries n) := by
  apply flatMap_update hi
  cases head with
  | true => exact .refl _
  | false => exact List.perm_append_singleton _ _

theorem Marked.put (h : t.Marked n) (head : Bool) : (t.put head i x).Marked n := by
  intro j hj
  obtain rfl | hne := eq_or_ne j i
  · cases head <;> simp [Table.put]
  · simp only [Table.put, update_of_ne hne]
    exact h j hj

theorem Least.of_entries_nil (h : t.entries n = []) : t.Least n n := by
  refine ⟨le_refl n, fun j hj => ?_, fun hlt => absurd hlt (lt_irrefl n)⟩
  rw [entries, List.flatMap_eq_nil_iff] at h
  exact h j (List.mem_range.mpr hj)

theorem Least.lt_iff (h : t.Least n m) : m < n ↔ t.entries n ≠ [] := by
  constructor
  · intro hlt hnil
    obtain ⟨x, hx⟩ := List.exists_mem_of_ne_nil _ (h.used hlt)
    have hmem : x ∈ t.entries n := mem_entries.mpr ⟨m, hlt, hx⟩
    rw [hnil] at hmem
    cases hmem
  · intro hne
    by_contra hge
    obtain rfl : m = n := Nat.le_antisymm h.le (Nat.not_lt.mp hge)
    apply hne
    rw [entries, List.flatMap_eq_nil_iff]
    exact fun j hj => h.before j (List.mem_range.mp hj)

theorem Least.le_of_mem (h : t.Least n m) (hx : x ∈ t.queue i) : m ≤ i := by
  by_contra hlt
  rw [h.before i (Nat.not_le.mp hlt)] at hx
  cases hx

theorem Least.unique {m' : Nat} (h : t.Least n m) (h' : t.Least n m') : m = m' := by
  obtain hlt | heq | hlt := lt_trichotomy m m'
  · exact absurd (h'.before m hlt) (h.used (hlt.trans_le h'.le))
  · exact heq
  · exact absurd (h.before m' hlt) (h'.used (hlt.trans_le h.le))

/-- Searching the bitmap finds the first queue in use. -/
theorem Marked.least (h : t.Marked n) : t.Least n (t.first n) := by
  rw [first]
  cases hfind : (List.range n).find? t.bitmap with
  | none =>
    rw [List.find?_eq_none] at hfind
    refine ⟨le_refl n, fun j hj => ?_, fun hlt => absurd hlt (lt_irrefl n)⟩
    by_contra hne
    exact hfind j (List.mem_range.mpr hj) ((h j hj).mpr hne)
  | some m =>
    obtain ⟨hbit, hm, hbefore⟩ := List.find?_range_eq_some.mp hfind
    have hlt := List.mem_range.mp hm
    refine ⟨hlt.le, fun j hj => ?_, fun _ => (h m hlt).mp hbit⟩
    by_contra hne
    have hbit' := (h j (hj.trans hlt)).mpr hne
    simpa [hbit'] using hbefore j hj

theorem Least.put (h : t.Least n m) (head : Bool) (hi : i < n) : (t.put head i x).Least n (min i m) := by
  refine ⟨(min_le_left i m).trans hi.le, fun j hj => ?_, fun hlt => ?_⟩
  · rw [lt_min_iff] at hj
    rw [queue_put_of_ne head hj.1.ne, h.before j hj.2]
  · obtain hmi | him := lt_or_ge m i
    · rw [min_eq_right hmi.le, queue_put_of_ne head hmi.ne]
      exact h.used (hmi.trans hi)
    · rw [min_eq_left him]
      exact List.ne_nil_of_mem ((mem_queue_put head).mpr (.inr ⟨rfl, rfl⟩))

end Basic

section Unlink

variable {α : Type} [DecidableEq α] {t : Table α} {n i j m : Nat} {x y : α}

/-- What is left of a queue when an entry is unlinked. -/
def unlink (t : Table α) (x : α) (i : Nat) : List α :=
  (t.queue i).filter (· ≠ x)

/-- Unlink an entry, and clear the bit of queue `i` if this leaves it empty. -/
def take (t : Table α) (i : Nat) (x : α) : Table α where
  bitmap := if t.unlink x i = [] then update t.bitmap i false else t.bitmap
  queue := t.unlink x

/-- Unlink an entry and add it to queue `i`; the bitmap stays. -/
def move (t : Table α) (head : Bool) (i : Nat) (x : α) : Table α where
  bitmap := t.bitmap
  queue := update (t.unlink x) i (if head then x :: t.unlink x i else t.unlink x i ++ [x])

theorem mem_unlink : y ∈ t.unlink x i ↔ y ∈ t.queue i ∧ y ≠ x := by
  simp [unlink]

theorem unlink_of_notMem (h : x ∉ t.queue i) : t.unlink x i = t.queue i := by
  apply List.filter_eq_self.mpr
  intro y hy
  simp only [decide_eq_true_eq]
  rintro rfl
  exact h hy

theorem Only.unlink_of_ne (h : t.Only i x) (hne : j ≠ i) : t.unlink x j = t.queue j :=
  unlink_of_notMem fun hmem => hne (h.eq j hmem)

theorem queue_move_of_ne (head : Bool) (h : j ≠ i) : (t.move head i x).queue j = t.unlink x j :=
  update_of_ne h _ _

theorem mem_queue_move (head : Bool) :
    y ∈ (t.move head i x).queue j ↔ y ∈ t.unlink x j ∨ (j = i ∧ y = x) := by
  obtain rfl | hj := eq_or_ne j i
  · cases head <;> simp [move, or_comm]
  · simp [queue_move_of_ne head hj, hj]

theorem entries_take : (t.take i x).entries n = (t.entries n).filter (· ≠ x) := by
  rw [entries, entries, List.filter_flatMap]
  rfl

theorem entries_take_perm (hnodup : (t.entries n).Nodup) (hx : x ∈ t.entries n) :
    (t.entries n).Perm (x :: (t.take i x).entries n) := by
  have herase : (t.entries n).filter (· ≠ x) = (t.entries n).erase x := by
    rw [hnodup.erase_eq_filter]
    apply List.filter_congr
    intro y _
    by_cases hy : y = x <;> simp [hy]
  rw [entries_take, herase]
  exact List.perm_cons_erase hx

theorem entries_move (head : Bool) (hnodup : (t.entries n).Nodup) (hi : i < n) (hx : x ∈ t.queue i) :
    ((t.move head i x).entries n).Perm (t.entries n) := by
  have hadd : ((t.move head i x).entries n).Perm (x :: (t.take i x).entries n) := by
    apply flatMap_update hi
    cases head with
    | true => exact .refl _
    | false => exact List.perm_append_singleton _ _
  exact hadd.trans (entries_take_perm hnodup (mem_entries.mpr ⟨i, hi, hx⟩)).symm

theorem Marked.take (h : t.Marked n) (hx : t.Only i x) : (t.take i x).Marked n := by
  intro j hj
  obtain rfl | hne := eq_or_ne j i
  · by_cases hempty : t.unlink x j = []
    · simp [Table.take, hempty]
    · have hbit := (h j hj).mpr (List.ne_nil_of_mem hx.mem)
      simp [Table.take, hempty, hbit]
  · have hbit : (t.take i x).bitmap j = t.bitmap j := by
      simp only [Table.take]
      split
      · rw [update_of_ne hne]
      · rfl
    have hqueue : (t.take i x).queue j = t.queue j := hx.unlink_of_ne hne
    rw [hbit, hqueue]
    exact h j hj

theorem Marked.move (h : t.Marked n) (hx : t.Only i x) (head : Bool) : (t.move head i x).Marked n := by
  intro j hj
  have hbit : (t.move head i x).bitmap j = t.bitmap j := rfl
  rw [hbit, h j hj]
  obtain rfl | hne := eq_or_ne j i
  · exact iff_of_true (List.ne_nil_of_mem hx.mem)
      (List.ne_nil_of_mem ((mem_queue_move head).mpr (.inr ⟨rfl, rfl⟩)))
  · rw [queue_move_of_ne head hne, hx.unlink_of_ne hne]

theorem Least.take (h : t.Least n m) (hx : t.Only i x) (hne : i ≠ m) : (t.take i x).Least n m := by
  refine ⟨h.le, fun j hj => ?_, fun hlt => ?_⟩
  · have hnil : t.unlink x j = [] := by rw [unlink, h.before j hj, List.filter_nil]
    exact hnil
  · have hqueue : (t.take i x).queue m = t.queue m := hx.unlink_of_ne hne.symm
    rw [hqueue]
    exact h.used hlt

theorem Least.move (h : t.Least n m) (hx : t.Only i x) (head : Bool) : (t.move head i x).Least n m := by
  refine ⟨h.le, fun j hj => ?_, fun hlt => ?_⟩
  · have hne : j ≠ i := by
      rintro rfl
      exact absurd (h.le_of_mem hx.mem) (Nat.not_le.mpr hj)
    rw [queue_move_of_ne head hne, unlink, h.before j hj, List.filter_nil]
  · obtain rfl | hne := eq_or_ne m i
    · exact List.ne_nil_of_mem ((mem_queue_move head).mpr (.inr ⟨rfl, rfl⟩))
    · rw [queue_move_of_ne head hne, hx.unlink_of_ne hne]
      exact h.used hlt

end Unlink

end Table

end priotable
