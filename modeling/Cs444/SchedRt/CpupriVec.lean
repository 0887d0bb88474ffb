import Cs444.Lib.Interleaving
import Cs444.SchedRt.Push

open interleaving cs444.sched_rt

open Function

namespace cs444.sched_cpupri

variable {n : Nat}

section Model

/-- `struct cpupri_vec`; `lock` is the CPU whose `cpupri_set` holds the lock. -/
structure cpupri_vec (n : Nat) where
  lock : Option (Fin n)
  count : Int
  mask : Fin n → Bool

/-- `struct cpupri`, where none in `cpu_to_pri` stands for `CPUPRI_INVALID`. -/
structure cpupri (n : Nat) where
  pri_to_cpu : Nat → cpupri_vec n
  pri_active : Nat → Bool
  cpu_to_pri : Fin n → Option Nat

def cpupri.setVec (cp : cpupri n) (idx : Nat) (vec : cpupri_vec n) : cpupri n :=
  { cp with pri_to_cpu := update cp.pri_to_cpu idx vec }

/-- What the `cpupri_set` for a CPU does next: one access to what others see at a time. `cpupri_find` takes no
    lock and may look in between. -/
inductive SetPhase where
  | idle
  | bug
  | add_lock (old : Option Nat) (new : Nat)
  | add_mask (old : Option Nat) (new : Nat)
  | add_count (old : Option Nat) (new : Nat)
  | add_bit (old : Option Nat) (new : Nat)
  | add_unlock (old : Option Nat) (new : Nat)
  | del_lock (old : Nat) (new : Option Nat)
  | del_count (old : Nat) (new : Option Nat)
  | del_bit (old : Nat) (new : Option Nat)
  | del_mask (old : Nat) (new : Option Nat)
  | del_unlock (old : Nat) (new : Option Nat)
  | store (new : Option Nat)
deriving DecidableEq, Repr

/-- The table and the calls of `cpupri_set` under way. The lock of its run queue keeps a CPU to one call at
    a time. -/
structure State (n : Nat) where
  cp : cpupri n
  set : Fin n → SetPhase

/-- A call for a CPU, or the next access of the call under way for it. -/
inductive Move (n : Nat) where
  | cpupri_set (cpu : Fin n) (prio : Nat)
  | go (cpu : Fin n)

/-- The CPU a move is for. -/
def Move.cpu : Move n → Fin n
  | .cpupri_set cpu _ | .go cpu => cpu

/-- `cpupri_set` up to its first access. -/
def start (oldpri newpri : Option Nat) : SetPhase :=
  if newpri.any (CPUPRI_NR_PRIORITIES ≤ ·) then .bug
  else if newpri = oldpri then .idle
  else
    match newpri, oldpri with
    | some new, old => .add_lock old new
    | none, some old => .del_lock old none
    | none, none => .store none

/-- What follows the first part. -/
def added (old : Option Nat) (new : Nat) : SetPhase :=
  match old with
  | some old => .del_lock old (some new)
  | none => .store (some new)

def State.goto (s : State n) (cpu : Fin n) (ph : SetPhase) (cp : cpupri n) : State n :=
  { s with cp, set := update s.set cpu ph }

/-- The next access; none while another CPU holds the lock. -/
def State.go (s : State n) (cpu : Fin n) : Option (State n) :=
  let vec := s.cp.pri_to_cpu
  match s.set cpu with
  | .idle | .bug => none
  | .add_lock old new =>
    if (vec new).lock = none then
      some (s.goto cpu (.add_mask old new) (s.cp.setVec new { vec new with lock := some cpu }))
    else none
  | .add_mask old new =>
    some (s.goto cpu (.add_count old new)
      (s.cp.setVec new { vec new with mask := update (vec new).mask cpu true }))
  | .add_count old new =>
    some (s.goto cpu (.add_bit old new) (s.cp.setVec new { vec new with count := (vec new).count + 1 }))
  | .add_bit old new =>
    some (s.goto cpu (.add_unlock old new)
      (if (vec new).count = 1 then { s.cp with pri_active := update s.cp.pri_active new true } else s.cp))
  | .add_unlock old new =>
    some (s.goto cpu (added old new) (s.cp.setVec new { vec new with lock := none }))
  | .del_lock old new =>
    if (vec old).lock = none then
      some (s.goto cpu (.del_count old new) (s.cp.setVec old { vec old with lock := some cpu }))
    else none
  | .del_count old new =>
    some (s.goto cpu (.del_bit old new) (s.cp.setVec old { vec old with count := (vec old).count - 1 }))
  | .del_bit old new =>
    some (s.goto cpu (.del_mask old new)
      (if (vec old).count = 0 then { s.cp with pri_active := update s.cp.pri_active old false } else s.cp))
  | .del_mask old new =>
    some (s.goto cpu (.del_unlock old new)
      (s.cp.setVec old { vec old with mask := update (vec old).mask cpu false }))
  | .del_unlock old new =>
    some (s.goto cpu (.store new) (s.cp.setVec old { vec old with lock := none }))
  | .store new =>
    some (s.goto cpu .idle { s.cp with cpu_to_pri := update s.cp.cpu_to_pri cpu new })

def next (s : State n) : Move n → Option (State n)
  | .cpupri_set cpu prio =>
    if s.set cpu = .idle then
      some { s with set := update s.set cpu (start (s.cp.cpu_to_pri cpu) (convert_prio prio)) }
    else none
  | .go cpu => s.go cpu

/-- `cpupri_init`. -/
def cpupri_init : State n where
  cp :=
    { pri_to_cpu := fun _ => { lock := none, count := 0, mask := fun _ => false }
      pri_active := fun _ => false
      cpu_to_pri := fun _ => none }
  set _ := .idle

end Model

section Views

/-- Whether the mask of `idx` has the CPU, by where its call is; `pri` is what is recorded for it. -/
def SetPhase.marked (pri : Option Nat) : SetPhase → Nat → Bool
  | .idle, idx | .bug, idx => pri = some idx
  | .add_lock old _, idx | .add_mask old _, idx => old = some idx
  | .add_count old new, idx | .add_bit old new, idx | .add_unlock old new, idx => new = idx ∨ old = some idx
  | .del_lock old new, idx | .del_count old new, idx | .del_bit old new, idx | .del_mask old new, idx =>
    old = idx ∨ new = some idx
  | .del_unlock _ new, idx | .store new, idx => new = some idx

/-- Whether it is counted there. -/
def SetPhase.counted (pri : Option Nat) : SetPhase → Nat → Bool
  | .idle, idx | .bug, idx => pri = some idx
  | .add_lock old _, idx | .add_mask old _, idx | .add_count old _, idx => old = some idx
  | .add_bit old new, idx | .add_unlock old new, idx => new = idx ∨ old = some idx
  | .del_lock old new, idx | .del_count old new, idx => old = idx ∨ new = some idx
  | .del_bit _ new, idx | .del_mask _ new, idx | .del_unlock _ new, idx | .store new, idx => new = some idx

/-- Whether the bit of `idx` is to show it. -/
def SetPhase.shown (pri : Option Nat) : SetPhase → Nat → Bool
  | .idle, idx | .bug, idx => pri = some idx
  | .add_lock old _, idx | .add_mask old _, idx | .add_count old _, idx | .add_bit old _, idx => old = some idx
  | .add_unlock old new, idx => new = idx ∨ old = some idx
  | .del_lock old new, idx | .del_count old new, idx | .del_bit old new, idx => old = idx ∨ new = some idx
  | .del_mask _ new, idx | .del_unlock _ new, idx | .store new, idx => new = some idx

/-- The vector whose lock it holds. -/
def SetPhase.locks : SetPhase → Option Nat
  | .add_mask _ new | .add_count _ new | .add_bit _ new | .add_unlock _ new => some new
  | .del_count old _ | .del_bit old _ | .del_mask old _ | .del_unlock old _ => some old
  | _ => none

/-- What a call knows about the CPU it is for. -/
def SetPhase.Wf (pri : Option Nat) : SetPhase → Prop
  | .idle => ∀ idx, pri = some idx → idx < CPUPRI_NR_PRIORITIES
  | .bug => False
  | .add_lock old new | .add_mask old new | .add_count old new | .add_bit old new | .add_unlock old new =>
    pri = old ∧ old ≠ some new ∧ new < CPUPRI_NR_PRIORITIES ∧ ∀ idx, old = some idx → idx < CPUPRI_NR_PRIORITIES
  | .del_lock old new | .del_count old new | .del_bit old new | .del_mask old new | .del_unlock old new =>
    pri = some old ∧ new ≠ some old ∧ ∀ idx, new = some idx → idx < CPUPRI_NR_PRIORITIES
  | .store new => ∀ idx, new = some idx → idx < CPUPRI_NR_PRIORITIES

variable {s : State n} {cpu : Fin n} {idx : Nat}

def State.marked (s : State n) (cpu : Fin n) (idx : Nat) : Bool := (s.set cpu).marked (s.cp.cpu_to_pri cpu) idx

def State.counted (s : State n) (cpu : Fin n) (idx : Nat) : Bool := (s.set cpu).counted (s.cp.cpu_to_pri cpu) idx

def State.shown (s : State n) (cpu : Fin n) (idx : Nat) : Bool := (s.set cpu).shown (s.cp.cpu_to_pri cpu) idx

structure Inv (s : State n) : Prop where
  mask : ∀ idx cpu, (s.cp.pri_to_cpu idx).mask cpu = s.marked cpu idx
  count : ∀ idx, (s.cp.pri_to_cpu idx).count = count fun cpu => s.counted cpu idx
  lock : ∀ idx cpu, (s.cp.pri_to_cpu idx).lock = some cpu ↔ (s.set cpu).locks = some idx
  active : ∀ idx, s.cp.pri_active idx = true ↔ ∃ cpu, s.shown cpu idx = true
  wf : ∀ cpu, (s.set cpu).Wf (s.cp.cpu_to_pri cpu)

theorem cpupri_init_inv : Inv (cpupri_init : State n) where
  mask _ _ := rfl
  count idx := by
    have hnone : (fun cpu : Fin n => (cpupri_init : State n).counted cpu idx) = fun _ => false := rfl
    rw [hnone]
    simp [cpupri_init, interleaving.count]
  lock _ _ := by simp [cpupri_init, SetPhase.locks]
  active _ := by simp [cpupri_init, State.shown, SetPhase.shown]
  wf _ := by simp [cpupri_init, SetPhase.Wf]

/-- Between the count and the bit of a vector its lock is held. -/
theorem SetPhase.counted_eq_shown {pri : Option Nat} {ph : SetPhase} (h : ph.locks ≠ some idx) :
    ph.counted pri idx = ph.shown pri idx := by
  cases ph with
  | add_bit old new =>
    have hne : new ≠ idx := fun hnew => h (by rw [hnew]; rfl)
    simp [SetPhase.counted, SetPhase.shown, hne]
  | del_bit old new =>
    have hne : old ≠ idx := fun hold => h (by rw [hold]; rfl)
    simp [SetPhase.counted, SetPhase.shown, hne]
  | _ => rfl

/-- Only one CPU holds the lock of a vector. -/
theorem Inv.locks_unique (hi : Inv s) {cpu' : Fin n} (h : (s.set cpu).locks = some idx)
    (h' : (s.set cpu').locks = some idx) : cpu' = cpu := by
  have hlock := (hi.lock idx cpu).mpr h
  rw [(hi.lock idx cpu').mpr h'] at hlock
  exact Option.some_inj.mp hlock

end Views

end cs444.sched_cpupri
