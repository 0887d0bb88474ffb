import Mathlib.Algebra.Ring.Nat
import Mathlib.Logic.Nontrivial.Basic
import Mathlib.Tactic.Common

namespace blockwise

variable {β : Type} {w : Nat}

/-- The block of `w` cells at address `a`. -/
def get (m : Nat → β) (a : Nat) : Fin w → β :=
  fun j => m (a + j)

/-- Store a block at address `a`. -/
def set (m : Nat → β) (a : Nat) (b : Fin w → β) : Nat → β :=
  fun x => if h : a ≤ x ∧ x < a + w then b ⟨x - a, by omega⟩ else m x

/-- Copy `n` cells from address `s` of one memory to address `d` of another. -/
def copy (src dst : Nat → β) (s d n : Nat) : Nat → β :=
  fun x => if d ≤ x ∧ x < d + n then src (s + (x - d)) else dst x

/-- Apply a function to `n` successive blocks on their way from one memory to another. -/
def mapBlocks (f : (Fin w → β) → Fin w → β) (src dst : Nat → β) (s d : Nat) : Nat → Nat → β
  | 0 => dst
  | n + 1 => set (mapBlocks f src dst s d n) (d + w * n) (f (get src (s + w * n)))

/-- A memory seen through a function on its aligned blocks. -/
def view [NeZero w] (f : (Fin w → β) → Fin w → β) (m : Nat → β) : Nat → β :=
  fun x => f (get m (w * (x / w))) ⟨x % w, Nat.mod_lt x (Nat.pos_of_neZero w)⟩

theorem copy_of_mem {src dst : Nat → β} {s d n x : Nat} (h : d ≤ x ∧ x < d + n) :
    copy src dst s d n x = src (s + (x - d)) :=
  if_pos h

theorem copy_of_not_mem {src dst : Nat → β} {s d n x : Nat} (h : ¬ (d ≤ x ∧ x < d + n)) :
    copy src dst s d n x = dst x :=
  if_neg h

@[simp] theorem copy_zero (src dst : Nat → β) (s d : Nat) : copy src dst s d 0 = dst := by
  funext x
  exact copy_of_not_mem (by omega)

/-- A copy in two pieces is one copy. -/
theorem copy_copy (src dst : Nat → β) (s d n k : Nat) :
    copy src (copy src dst s d n) (s + n) (d + n) k = copy src dst s d (n + k) := by
  funext x
  by_cases h₁ : d + n ≤ x ∧ x < d + n + k
  · rw [copy_of_mem h₁, copy_of_mem (by omega)]
    congr 1
    omega
  · rw [copy_of_not_mem h₁]
    by_cases h₂ : d ≤ x ∧ x < d + n
    · rw [copy_of_mem h₂, copy_of_mem (by omega)]
    · rw [copy_of_not_mem h₂, copy_of_not_mem (by omega)]

section View

variable [NeZero w] {f g : (Fin w → β) → Fin w → β}

theorem div_eq_iff_block {x k : Nat} : x / w = k ↔ w * k ≤ x ∧ x < w * k + w := by
  rw [Nat.div_eq_iff (Nat.pos_of_neZero w), Nat.mul_comm]
  have := Nat.pos_of_neZero w
  omega

theorem view_eq {m : Nat → β} {k : Nat} (j : Fin w) : view f m (w * k + j) = f (get m (w * k)) j := by
  have hdiv : (w * k + j) / w = k := div_eq_iff_block.mpr ⟨by omega, by omega⟩
  have hmod : (w * k + j) % w = j := by
    rw [Nat.mul_add_mod, Nat.mod_eq_of_lt j.isLt]
  simp only [view, hdiv, hmod]

/-- Storing an aligned block changes the view of that block only. -/
theorem view_set {m : Nat → β} {k : Nat} (b : Fin w → β) (x : Nat) :
    view f (set m (w * k) b) x =
      if x / w = k then f b ⟨x % w, Nat.mod_lt x (Nat.pos_of_neZero w)⟩ else view f m x := by
  rw [view]
  split
  · rename_i hk
    congr 1
    funext j
    have hj := j.isLt
    rw [get, hk, set, dif_pos (by omega)]
    congr 1
    apply Fin.ext
    simp
  · rename_i hk
    rw [view]
    congr 1
    funext j
    have hj := j.isLt
    have hblock := div_eq_iff_block.mp (rfl : x / w = x / w)
    have hout : ¬ (w * k ≤ w * (x / w) + j ∧ w * (x / w) + j < w * k + w) := by
      intro hin
      have h₁ : (w * (x / w) + j) / w = k := div_eq_iff_block.mpr hin
      have h₂ : (w * (x / w) + j) / w = x / w := div_eq_iff_block.mpr ⟨by omega, by omega⟩
      exact hk (h₂.symm.trans h₁)
    rw [get, get, set, dif_neg hout]

/-- Mapping blocks out of a memory, from an aligned address, copies its view. -/
theorem mapBlocks_eq_copy (src dst : Nat → β) {s d : Nat} (hs : w ∣ s) (n : Nat) :
    mapBlocks f src dst s d n = copy (view f src) dst s d (w * n) := by
  obtain ⟨q, rfl⟩ := hs
  induction n with
  | zero => rw [mapBlocks, Nat.mul_zero, copy_zero]
  | succ n ih =>
    rw [mapBlocks, ih, Nat.mul_add_one, ← copy_copy]
    funext x
    by_cases hx : d + w * n ≤ x ∧ x < d + w * n + w
    · rw [set, dif_pos hx, copy_of_mem hx, ← Nat.mul_add]
      exact (view_eq ⟨x - (d + w * n), by omega⟩).symm
    · rw [set, dif_neg hx, copy_of_not_mem hx]

/-- Mapping blocks into a memory, to an aligned address, is a plain copy in the view
    through the inverse function. -/
theorem view_mapBlocks (hinv : ∀ b, g (f b) = b) (src dst : Nat → β) {s d : Nat} (hd : w ∣ d) (n : Nat) :
    view g (mapBlocks f src dst s d n) = copy src (view g dst) s d (w * n) := by
  obtain ⟨q, rfl⟩ := hd
  induction n with
  | zero => rw [mapBlocks, Nat.mul_zero, copy_zero]
  | succ n ih =>
    rw [mapBlocks, ← Nat.mul_add, Nat.mul_add_one, ← copy_copy, ← ih]
    funext x
    have hblock := div_eq_iff_block (w := w) (x := x) (k := q + n)
    rw [Nat.mul_add] at hblock
    rw [view_set, hinv]
    by_cases hx : w * q + w * n ≤ x ∧ x < w * q + w * n + w
    · rw [if_pos (hblock.mpr hx), copy_of_mem hx, get]
      congr 1
      have hmod := Nat.div_add_mod x w
      rw [hblock.mpr hx, Nat.mul_add] at hmod
      dsimp only
      omega
    · rw [if_neg fun hk => hx (hblock.mp hk), copy_of_not_mem hx]

/-- Views through inverse functions undo each other. -/
theorem view_view (hinv : ∀ b, g (f b) = b) (m : Nat → β) : view g (view f m) = m := by
  funext x
  have hget : (get (view f m) (w * (x / w)) : Fin w → β) = f (get m (w * (x / w))) := by
    funext j
    exact view_eq j
  rw [view, hget, hinv, get]
  dsimp only
  rw [Nat.div_add_mod]

end View

section Moves

/-- A copy of `len` cells from address `src` to address `dst`. -/
structure Move where
  src : Nat
  dst : Nat
  len : Nat

/-- The move overwrites the cell. -/
def Move.Covers (o : Move) (x : Nat) : Prop :=
  o.dst ≤ x ∧ x < o.dst + o.len

instance (o : Move) (x : Nat) : Decidable (o.Covers x) :=
  inferInstanceAs (Decidable (_ ∧ _))

/-- A sequence of moves from one memory to another. -/
def moves (src : Nat → β) (m : Nat → β) (l : List Move) : Nat → β :=
  l.foldl (fun m o => copy src m o.src o.dst o.len) m

/-- Where a cell comes from after a sequence of moves; `none` if it keeps its value. -/
def origin : List Move → Nat → Option Nat
  | [], _ => none
  | o :: l, x => (origin l x).or (if o.Covers x then some (o.src + (x - o.dst)) else none)

theorem moves_append (src m : Nat → β) (l₁ l₂ : List Move) :
    moves src m (l₁ ++ l₂) = moves src (moves src m l₁) l₂ :=
  List.foldl_append

theorem moves_apply (src m : Nat → β) (l : List Move) (x : Nat) :
    moves src m l x = ((origin l x).map src).getD (m x) := by
  induction l generalizing m with
  | nil => rfl
  | cons o l ih =>
    rw [moves, List.foldl_cons, ← moves, ih, origin]
    cases origin l x with
    | some y => rfl
    | none =>
      by_cases h : o.Covers x
      · simp only [Option.map_none, Option.getD_none, Option.none_or, if_pos h, Option.map_some,
          Option.getD_some]
        exact copy_of_mem h
      · simp only [Option.map_none, Option.getD_none, Option.none_or, if_neg h]
        exact copy_of_not_mem h

theorem origin_append (l₁ l₂ : List Move) (x : Nat) :
    origin (l₁ ++ l₂) x = (origin l₂ x).or (origin l₁ x) := by
  induction l₁ with
  | nil => simp [origin]
  | cons o l₁ ih => rw [List.cons_append, origin, origin, ih, Option.or_assoc]

theorem origin_eq_none {l : List Move} {x : Nat} : origin l x = none ↔ ∀ o ∈ l, ¬ o.Covers x := by
  induction l with
  | nil => simp [origin]
  | cons o l ih => simp [origin, Option.or_eq_none_iff, ih, and_comm]

theorem mem_of_origin_eq_some {l : List Move} {x y : Nat} (h : origin l x = some y) :
    ∃ o ∈ l, o.Covers x ∧ y = o.src + (x - o.dst) := by
  induction l with
  | nil => simp [origin] at h
  | cons o l ih =>
    rw [origin, Option.or_eq_some_iff] at h
    obtain h | ⟨-, h⟩ := h
    · obtain ⟨o', ho', hcov, hy⟩ := ih h
      exact ⟨o', List.mem_cons_of_mem _ ho', hcov, hy⟩
    · split at h
      · rename_i hcov
        exact ⟨o, List.mem_cons_self, hcov, (Option.some.inj h).symm⟩
      · cases h

/-- The origin of a cell on which all moves that cover it agree. -/
theorem origin_eq_some_of_unique {l : List Move} {o : Move} {x : Nat} (ho : o ∈ l) (hcov : o.Covers x)
    (huniq : ∀ o' ∈ l, o'.Covers x → o' = o) : origin l x = some (o.src + (x - o.dst)) := by
  cases h : origin l x with
  | none => exact absurd hcov (origin_eq_none.mp h o ho)
  | some y =>
    obtain ⟨o', ho', hcov', rfl⟩ := mem_of_origin_eq_some h
    rw [huniq o' ho' hcov']

/-- Two sequences of moves treat a cell alike on all memories exactly if it has the
    same origin under both. -/
theorem moves_eq_iff_origin [Nontrivial β] {l l' : List Move} {x : Nat} :
    (∀ src m : Nat → β, moves src m l x = moves src m l' x) ↔ origin l x = origin l' x := by
  constructor
  · intro h
    obtain ⟨a, b, hab⟩ := exists_pair_ne β
    -- mark one source cell, or the whole of the source, to tell the origins apart
    simp only [moves_apply] at h
    cases hl : origin l x with
    | none =>
      cases hl' : origin l' x with
      | none => rfl
      | some y => exact absurd (by simpa [hl, hl'] using h (fun _ => a) fun _ => b) (Ne.symm hab)
    | some y =>
      cases hl' : origin l' x with
      | none => exact absurd (by simpa [hl, hl'] using h (fun _ => a) fun _ => b) hab
      | some z =>
        by_contra hne
        have hyz : z ≠ y := fun hzy => hne (by rw [hzy])
        have hmark := h (fun u => if u = y then a else b) fun _ => b
        simp only [hl, hl', Option.map_some, Option.getD_some, if_true, if_neg hyz] at hmark
        exact hab hmark
  · intro h src m
    rw [moves_apply, moves_apply, h]

end Moves

end blockwise
