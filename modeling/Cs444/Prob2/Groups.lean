import Cs444.Prob2.Santa
import Mathlib.Data.Fintype.Card

open interleaving

namespace cs444.prob2

variable {E R : Nat} {s s' : State E R}

section Events

/-- What happens to the groups of elves. -/
inductive Event (E : Nat) where
  | help_elves
  | prepare_sleigh
  | take (elf : Fin E)
  | decrement (elf : Fin E)
deriving DecidableEq

/-- Santa calls `help_elves` or `prepare_sleigh`, `set_take` returns an elf to him, or an elf
    decrements `num_elves_being_helped`. -/
def event (s : State E R) : Move E R → Option (Event E)
  | .santa =>
    match s.santa with
    | .test_elves => if 3 ≤ set_cardinality s.elves_waiting then some .help_elves else none
    | .assign_reindeer => some .prepare_sleigh
    | _ => none
  | .draw item =>
    match s.santa with
    | .take_search _ => if s.elves_waiting.slots item then some (.take item) else none
    | _ => none
  | .elf id => if s.elf id = .decrement then some (.decrement id) else none
  | .reindeer _ => none

/-- The elves that the last call of `help_elves` has taken so far, and the elves that have
    decremented the counter since that call. -/
structure Group (E : Nat) where
  taken : List (Fin E)
  decremented : List (Fin E)
deriving DecidableEq

def Group.record (g : Group E) : Event E → Group E
  | .help_elves => ⟨[], []⟩
  | .prepare_sleigh => g
  | .take elf => { g with taken := g.taken ++ [elf] }
  | .decrement elf => { g with decremented := g.decremented ++ [elf] }

def group (es : List (Event E)) : Group E :=
  es.foldl Group.record ⟨[], []⟩

theorem group_append (es : List (Event E)) (e : Option (Event E)) :
    group (es ++ e.toList) = e.elim (group es) (group es).record := by
  cases e <;> simp [group]

end Events

section Counts

/-- The elf has a permit to queue and is not in the set yet. -/
@[simp] def Elf.queueing : Elf → Bool
  | .mutex_wait | .insert_wait | .insert => true
  | _ => false

@[simp] def Elf.inMutex : Elf → Bool
  | .insert_wait | .insert | .insert_signal | .test | .wake | .mutex_signal => true
  | _ => false

@[simp] def Elf.inCounter : Elf → Bool
  | .decrement | .busy_signal | .counting_signal | .counter_signal => true
  | _ => false

/-- The elf was the last of its group, and has not yet let others queue. -/
@[simp] def Elf.finishing : Elf → Bool
  | .busy_signal | .counting_signal => true
  | _ => false

@[simp] def Elf.signalling : Elf → Bool
  | .busy_signal => true
  | _ => false

/-- The elf was taken out of its slot and has not yet decremented the counter. -/
@[simp] def Elf.owing (p : Elf) (slot : Bool) : Bool :=
  match p with
  | .line_wait => !slot
  | .counter_wait | .decrement => true
  | _ => false

@[simp] def Santa.inMutex : Santa E → Nat
  | .take_wait _ | .take_search _ | .take_signal _ _ | .line_signal _ _ | .help_mutex_signal => 1
  | _ => 0

@[simp] def Santa.inCounter : Santa E → Nat
  | .help_assign | .help_counter_signal => 1
  | _ => 0

/-- How often Santa has waited for `santa_busy_mutex` without passing it on. -/
@[simp] def Santa.holdsBusy : Santa E → Nat
  | .busy_signal | .prepare_signal | .lock_busy | .help_counter_wait | .help_assign => 1
  | .lock_sleep => 2
  | _ => 0

/-- How many elves Santa still has to take after he has set the counter. -/
@[simp] def Santa.togo : Santa E → Nat
  | .help_counter_signal | .help_mutex_wait => 3
  | .take_wait i | .take_search i => 3 - i
  | .take_signal i _ | .line_signal i _ => 2 - i
  | _ => 0

/-- Santa has passed the top of his loop and does not hold `santa_busy_mutex`. -/
@[simp] def Santa.idle : Santa E → Bool
  | .sleep_wait | .test_reindeer | .assign_reindeer | .prepare_wait | .test_elves | .help_wait => true
  | _ => false

/-- How many elves must be in the set for `help_elves` to find them all. -/
@[simp] def Santa.need : Santa E → Option Nat
  | .help_wait | .help_counter_wait | .help_assign | .help_counter_signal | .help_mutex_wait => some 3
  | .take_wait i | .take_search i => some (3 - i)
  | .take_signal i _ | .line_signal i _ => some (2 - i)
  | _ => none

/-- The elf that Santa has taken and not yet signalled. -/
@[simp] def Santa.pending : Santa E → Option (Fin E)
  | .take_signal _ elf | .line_signal _ elf => some elf
  | _ => none

/-- How many elves there are of a kind, which may depend on whether the elf is in its slot. -/
def State.tally (s : State E R) (P : Elf → Bool → Bool) : Nat :=
  count fun id => P (s.elf id) (s.elves_waiting.slots id)

def State.occupied (s : State E R) : Nat := s.tally fun _ slot => slot

def State.queueing (s : State E R) : Nat := s.tally fun p _ => p.queueing

def State.inMutex (s : State E R) : Nat := s.tally fun p _ => p.inMutex

def State.inCounter (s : State E R) : Nat := s.tally fun p _ => p.inCounter

def State.finishing (s : State E R) : Nat := s.tally fun p _ => p.finishing

def State.signalling (s : State E R) : Nat := s.tally fun p _ => p.signalling

def State.owing (s : State E R) : Nat := s.tally Elf.owing

theorem tally_pos {P : Elf → Bool → Bool} (id : Fin E) (h : P (s.elf id) (s.elves_waiting.slots id) = true) :
    0 < s.tally P :=
  count_pos.mpr ⟨id, h⟩

theorem tally_le (P : Elf → Bool → Bool) : s.tally P ≤ E := by
  have hle := Finset.card_le_univ (Finset.univ.filter fun id => P (s.elf id) (s.elves_waiting.slots id) = true)
  rwa [Fintype.card_fin] at hle

theorem tally_change {id : Fin E} (helf : ∀ j, j ≠ id → s'.elf j = s.elf j)
    (hslots : ∀ j, j ≠ id → s'.elves_waiting.slots j = s.elves_waiting.slots j) (P : Elf → Bool → Bool) :
    s'.tally P + (P (s.elf id) (s.elves_waiting.slots id)).toNat =
      s.tally P + (P (s'.elf id) (s'.elves_waiting.slots id)).toNat := by
  have hothers : ∀ j, j ≠ id → (fun j => P (s'.elf j) (s'.elves_waiting.slots j)) j =
      (fun j => P (s.elf j) (s.elves_waiting.slots j)) j := by
    intro j hj
    dsimp only
    rw [helf j hj, hslots j hj]
  exact count_change hothers

/-- The counts of two states that differ in one elf and its slot. -/
theorem counts_change {id : Fin E} {p p' : Elf} {slot slot' : Bool} (helf : ∀ j, j ≠ id → s'.elf j = s.elf j)
    (hslots : ∀ j, j ≠ id → s'.elves_waiting.slots j = s.elves_waiting.slots j)
    (hp : s.elf id = p) (hp' : s'.elf id = p')
    (hslot : s.elves_waiting.slots id = slot) (hslot' : s'.elves_waiting.slots id = slot') :
    s'.occupied + slot.toNat = s.occupied + slot'.toNat ∧
    s'.queueing + p.queueing.toNat = s.queueing + p'.queueing.toNat ∧
    s'.inMutex + p.inMutex.toNat = s.inMutex + p'.inMutex.toNat ∧
    s'.inCounter + p.inCounter.toNat = s.inCounter + p'.inCounter.toNat ∧
    s'.finishing + p.finishing.toNat = s.finishing + p'.finishing.toNat ∧
    s'.signalling + p.signalling.toNat = s.signalling + p'.signalling.toNat ∧
    s'.owing + (p.owing slot).toNat = s.owing + (p'.owing slot').toNat := by
  have htally := tally_change helf hslots
  rw [hp, hp', hslot, hslot'] at htally
  exact ⟨htally _, htally _, htally _, htally _, htally _, htally _, htally _⟩

/-- One while elves are being helped. -/
def helping (n : Int) : Nat := if 0 < n then 1 else 0

theorem helping_cases (n : Int) : 0 < n ∧ helping n = 1 ∨ n ≤ 0 ∧ helping n = 0 := by
  rw [helping]
  split <;> omega

/-- The semaphores and counters agree with where the threads are. -/
structure Balance (s : State E R) : Prop where
  cardinality : s.elves_waiting.cardinality = s.occupied
  elf_mutex : s.elf_mutex + s.inMutex + s.santa.inMutex = 1
  elf_counter_lock : s.elf_counter_lock + s.inCounter + s.santa.inCounter = 1
  busy : s.santa_busy_mutex + s.santa.holdsBusy + helping s.num_elves_being_helped + s.signalling = 1
  counting : s.elf_counting_sem + s.queueing + s.occupied + 3 * helping s.num_elves_being_helped +
    3 * s.finishing = 3 + s.santa.togo
  helped : s.num_elves_being_helped = s.owing + s.santa.togo
  helped_le : s.num_elves_being_helped ≤ 3
  finishing : 0 < s.finishing → s.num_elves_being_helped = 0
  idle : s.santa.idle = true → s.num_elves_being_helped = 0 ∧ s.signalling = 0
  ready : ∀ k, s.santa.need = some k → s.occupied = k

end Counts

section Elves

/-- An elf that has queued is in its slot until Santa takes it, and then has its semaphore
    signalled once. -/
def Elf.Fits (p : Elf) (slot : Bool) (line : Nat) (pending : Bool) : Prop :=
  match p with
  | .line_wait => if slot then line = 0 ∧ pending = false else line + pending.toNat = 1
  | .insert_signal | .test | .wake | .mutex_signal => slot = true ∧ line = 0 ∧ pending = false
  | _ => slot = false ∧ line = 0 ∧ pending = false

def Local (s : State E R) : Prop :=
  ∀ id, (s.elf id).Fits (s.elves_waiting.slots id) (s.elf_line_set id) (decide (s.santa.pending = some id))

/-- How many elves Santa has taken in the last call of `help_elves`, by where he is. -/
@[simp] def Santa.Took (taken : Nat) : Santa E → Prop
  | .help_wait | .help_counter_wait | .help_assign | .help_counter_signal | .help_mutex_wait => taken = 0
  | .take_wait i | .take_search i => taken = i
  | .take_signal i _ | .line_signal i _ => taken = i + 1
  | .help_mutex_signal => taken = 3
  | _ => taken = 0 ∨ taken = 3

/-- The last group: the elves that have been taken and have not decremented the counter are
    the ones that owe it. -/
structure Grouped (s : State E R) (g : Group E) : Prop where
  owing : ∀ id, (s.elf id).owing (s.elves_waiting.slots id) = true ↔ id ∈ g.taken ∧ id ∉ g.decremented
  taken_nodup : g.taken.Nodup
  decremented_nodup : g.decremented.Nodup
  decremented_sub : ∀ id ∈ g.decremented, id ∈ g.taken
  took : s.santa.Took g.taken.length
  out : s.santa.inMutex = 1 → ∀ id ∈ g.taken, s.elves_waiting.slots id = false

structure Inv (s : State E R) (g : Group E) : Prop where
  balance : Balance s
  elves : Local s
  grouped : Grouped s g

theorem tally_initial {P : Elf → Bool → Bool} (h : P .counting_wait false = false) :
    (initial E R).tally P = 0 := by
  simp [State.tally, count, initial, set_alloc, h]

theorem balance_initial : Balance (initial E R) where
  cardinality := congrArg Nat.cast (tally_initial (E := E) (R := R) (P := fun _ slot => slot) rfl).symm
  elf_mutex := by rw [State.inMutex, tally_initial rfl]; rfl
  elf_counter_lock := by rw [State.inCounter, tally_initial rfl]; rfl
  busy := by rw [State.signalling, tally_initial rfl]; rfl
  counting := by
    rw [State.queueing, tally_initial rfl, State.occupied, tally_initial rfl, State.finishing, tally_initial rfl]
    rfl
  helped := by rw [State.owing, tally_initial rfl]; rfl
  helped_le := by simp [initial]
  finishing _ := rfl
  idle h := absurd h (by simp [initial])
  ready _ h := absurd h (by simp [initial])

theorem inv_initial : Inv (initial E R) ⟨[], []⟩ where
  balance := balance_initial
  elves _ := ⟨rfl, rfl, rfl⟩
  grouped := ⟨fun id => by simp [initial], List.nodup_nil, List.nodup_nil, by simp, .inl rfl, by simp⟩

end Elves

end cs444.prob2
