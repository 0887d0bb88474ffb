import Mathlib.Data.List.Rotate
import Mathlib.Tactic.Common

namespace ring

variable {α : Type} [DecidableEq α]

/-- A circular list with a head is the list of its entries from the head on. A
    position on it is an entry, or `none` for the head itself. -/
def before (a : α) (l : List α) : List α :=
  l.takeWhile (fun b => decide (b ≠ a))

/-- The entries from `a` on. -/
def starting (a : α) (l : List α) : List α :=
  l.dropWhile (fun b => decide (b ≠ a))

/-- The position after a given one. -/
def next (l : List α) : Option α → Option α
  | none => l.head?
  | some a => (starting a l).tail.head?

/-- The position before a given one. -/
def prev (l : List α) : Option α → Option α
  | none => l.getLast?
  | some a => (before a l).getLast?

/-- Insert an entry behind a given position. -/
def addAfter (l : List α) (x : α) : Option α → List α
  | none => x :: l
  | some a => before a l ++ (starting a l).take 1 ++ x :: (starting a l).tail

/-- Move the head to just before the given entry. -/
def moveHead (l : List α) : Option α → List α
  | none => l
  | some a => starting a l ++ before a l

theorem before_append_starting (a : α) (l : List α) : before a l ++ starting a l = l :=
  List.takeWhile_append_dropWhile

theorem before_eq {a : α} {pre post : List α} (h : a ∉ pre) : before a (pre ++ a :: post) = pre := by
  have hall : ∀ b ∈ pre, decide (b ≠ a) = true := by
    intro b hb
    simp only [decide_eq_true_eq]
    rintro rfl
    exact h hb
  rw [before, List.takeWhile_append_of_pos hall, List.takeWhile_cons_of_neg (by simp), List.append_nil]

theorem starting_eq {a : α} {pre post : List α} (h : a ∉ pre) :
    starting a (pre ++ a :: post) = a :: post := by
  have happ := before_append_starting a (pre ++ a :: post)
  rw [before_eq h] at happ
  exact List.append_cancel_left happ

theorem next_eq {a : α} {pre post : List α} (h : a ∉ pre) :
    next (pre ++ a :: post) (some a) = post.head? := by
  rw [next, starting_eq h, List.tail_cons]

theorem prev_eq {a : α} {pre post : List α} (h : a ∉ pre) :
    prev (pre ++ a :: post) (some a) = pre.getLast? := by
  rw [prev, before_eq h]

theorem next_cons_self (a : α) (l : List α) : next (a :: l) (some a) = l.head? := by
  simp [next, starting]

/-- The head is before the first entry. -/
theorem prev_cons_self (a : α) (l : List α) : prev (a :: l) (some a) = none := by
  simp [prev, before]

theorem erase_eq {a : α} {pre post : List α} (h : a ∉ pre) : (pre ++ a :: post).erase a = pre ++ post := by
  rw [List.erase_append_right _ h, List.erase_cons_head]

/-- The neighbours of an entry stay on the ring when the entry leaves it. -/
theorem next_mem_erase {a b : α} {l : List α} (ha : a ∈ l) (hb : next l (some a) = some b) :
    b ∈ l.erase a := by
  obtain ⟨pre, post, rfl, hnot⟩ := List.eq_append_cons_of_mem ha
  rw [next_eq hnot] at hb
  rw [erase_eq hnot]
  exact List.mem_append_right _ (List.mem_of_mem_head? hb)

theorem prev_mem_erase {a b : α} {l : List α} (ha : a ∈ l) (hb : prev l (some a) = some b) :
    b ∈ l.erase a := by
  obtain ⟨pre, post, rfl, hnot⟩ := List.eq_append_cons_of_mem ha
  rw [prev_eq hnot] at hb
  rw [erase_eq hnot]
  exact List.mem_append_left _ (List.mem_of_mem_getLast? hb)

theorem addAfter_eq {a : α} {pre post : List α} (x : α) (h : a ∉ pre) :
    addAfter (pre ++ a :: post) x (some a) = pre ++ a :: x :: post := by
  rw [addAfter, before_eq h, starting_eq h]
  simp

/-- Adding an entry behind a position of the ring changes nothing else. -/
theorem addAfter_perm {l : List α} (x : α) {pos : Option α} (h : ∀ a, pos = some a → a ∈ l) :
    (addAfter l x pos).Perm (x :: l) := by
  cases pos with
  | none => exact List.Perm.refl _
  | some a =>
    obtain ⟨pre, post, rfl, hnot⟩ := List.eq_append_cons_of_mem (h a rfl)
    rw [addAfter_eq x hnot]
    have hswap : (pre ++ a :: x :: post).Perm (pre ++ x :: a :: post) :=
      List.Perm.append_left _ (List.Perm.swap x a post)
    exact hswap.trans List.perm_middle

/-- Moving the head only rotates the entries. -/
theorem moveHead_isRotated (l : List α) (pos : Option α) : moveHead l pos ~r l := by
  cases pos with
  | none => exact List.IsRotated.refl l
  | some a =>
    have hrot : starting a l ++ before a l ~r before a l ++ starting a l := List.isRotated_append
    rwa [before_append_starting] at hrot

theorem mem_moveHead {l : List α} {pos : Option α} {a : α} : a ∈ moveHead l pos ↔ a ∈ l :=
  (moveHead_isRotated l pos).mem_iff

theorem nodup_moveHead {l : List α} {pos : Option α} : (moveHead l pos).Nodup ↔ l.Nodup :=
  (moveHead_isRotated l pos).nodup_iff

end ring
