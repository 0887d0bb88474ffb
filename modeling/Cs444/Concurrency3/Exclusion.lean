import Cs444.Concurrency3.Threads
import Mathlib.Algebra.Order.BigOperators.Group.Finset

open interleaving

open Function

namespace cs444.concurrency3

variable {R S I D : Nat} {s s' : State S I D}

/-- Between `sem_wait` and `sem_post`. -/
def Searcher.inside : Searcher → Bool
  | .search | .print _ | .read_post => true
  | .read_wait | .returned => false

/-- Between `sem_wait` and `sem_post`. -/
def Inserter.inside : Inserter → Bool
  | .insert _ | .write_post => true
  | .write_wait | .returned => false

/-- Between `sem_wait` and `sem_post` of `write_sem`. -/
def Deleter.inside : Deleter → Bool
  | .read_wait _ | .remove | .read_post _ | .write_post => true
  | .write_wait | .returned => false

/-- Between the last `sem_wait` and the first `sem_post`. -/
def Deleter.deleting : Deleter → Bool
  | .remove | .read_post 0 => true
  | _ => false

/-- How many read permits a deleter has. -/
def Deleter.permits (R : Nat) : Deleter → Nat
  | .read_wait t => t
  | .remove => R
  | .read_post t => R - t
  | _ => 0

def Deleter.Bounded (R : Nat) : Deleter → Prop
  | .read_wait t | .read_post t => t < R
  | _ => True

/-- Every permit is either in its semaphore or with a thread. -/
structure Inv (R : Nat) (s : State S I D) : Prop where
  write : s.write_sem + count (fun i => (s.inserter i).inside) + count (fun i => (s.deleter i).inside) = 1
  read : s.read_sem + count (fun i => (s.searcher i).inside) + ∑ i, (s.deleter i).permits R = R
  bounded : ∀ i, (s.deleter i).Bounded R

theorem inv_initial (R S I D : Nat) : Inv R (initial R S I D) where
  write := by simp [initial, count, Inserter.inside, Deleter.inside]
  read := by simp [initial, count, Searcher.inside, Deleter.permits]
  bounded _ := trivial

section Moves

/-- A searcher moves on. What it puts into the semaphore is what it had taken from it. -/
theorem Inv.searcher_move (h : Inv R s) {i : Fin S} {p : Searcher}
    (hsearcher : s'.searcher = update s.searcher i p) (hinserter : s'.inserter = s.inserter)
    (hdeleter : s'.deleter = s.deleter) (hwrite : s'.write_sem = s.write_sem)
    (hread : s'.read_sem + p.inside.toNat = s.read_sem + (s.searcher i).inside.toNat) : Inv R s' := by
  have hcount := count_update s.searcher i p Searcher.inside
  refine ⟨?_, ?_, ?_⟩
  · rw [hwrite, hinserter, hdeleter]
    exact h.write
  · have hpermits := h.read
    rw [hsearcher, hdeleter]
    omega
  · rw [hdeleter]
    exact h.bounded

theorem Inv.inserter_move (h : Inv R s) {i : Fin I} {p : Inserter} (hsearcher : s'.searcher = s.searcher)
    (hinserter : s'.inserter = update s.inserter i p) (hdeleter : s'.deleter = s.deleter)
    (hread : s'.read_sem = s.read_sem)
    (hwrite : s'.write_sem + p.inside.toNat = s.write_sem + (s.inserter i).inside.toNat) : Inv R s' := by
  have hcount := count_update s.inserter i p Inserter.inside
  refine ⟨?_, ?_, ?_⟩
  · have hpermits := h.write
    rw [hinserter, hdeleter]
    omega
  · rw [hread, hsearcher, hdeleter]
    exact h.read
  · rw [hdeleter]
    exact h.bounded

theorem Inv.deleter_move (h : Inv R s) {i : Fin D} {p : Deleter} (hsearcher : s'.searcher = s.searcher)
    (hinserter : s'.inserter = s.inserter) (hdeleter : s'.deleter = update s.deleter i p)
    (hwrite : s'.write_sem + p.inside.toNat = s.write_sem + (s.deleter i).inside.toNat)
    (hread : s'.read_sem + p.permits R = s.read_sem + (s.deleter i).permits R) (hbounded : p.Bounded R) :
    Inv R s' := by
  have hcount := count_update s.deleter i p Deleter.inside
  have hsum := sum_update s.deleter i p (Deleter.permits R)
  refine ⟨?_, ?_, fun j => ?_⟩
  · have hpermits := h.write
    rw [hinserter, hdeleter]
    omega
  · have hpermits := h.read
    rw [hsearcher, hdeleter]
    omega
  · rw [hdeleter]
    by_cases hj : j = i
    · rw [hj, update_self]
      exact hbounded
    · rw [update_of_ne hj]
      exact h.bounded j

theorem Inv.searcher_next (h : Inv R s) {i : Fin S} {val : Int} (hnext : searcher_next s i val = some s') :
    Inv R s' := by
  cases hp : s.searcher i with simp only [concurrency3.searcher_next, hp] at hnext
  | read_wait =>
    split at hnext
    · cases hnext
      refine h.searcher_move rfl rfl rfl rfl ?_
      simp only [hp, Searcher.inside, Bool.toNat_true, Bool.toNat_false]
      omega
    · cases hnext
  | search | print _ | read_post =>
    cases hnext
    refine h.searcher_move rfl rfl rfl rfl ?_
    simp [hp, Searcher.inside]
  | returned => cases hnext

theorem insert_loop_inside (t : Nat) : (insert_loop t).inside = true := by
  rw [insert_loop]
  split <;> rfl

theorem Inv.inserter_next (h : Inv R s) {i : Fin I} {val : Int} (hnext : inserter_next s i val = some s') :
    Inv R s' := by
  cases hp : s.inserter i with simp only [concurrency3.inserter_next, hp] at hnext
  | write_wait =>
    split at hnext
    · cases hnext
      refine h.inserter_move rfl rfl rfl rfl ?_
      rw [hp, insert_loop_inside]
      simp only [Inserter.inside, Bool.toNat_true, Bool.toNat_false]
      omega
    · cases hnext
  | insert t =>
    cases hnext
    refine h.inserter_move rfl rfl rfl rfl ?_
    rw [hp, insert_loop_inside]
    rfl
  | write_post =>
    cases hnext
    refine h.inserter_move rfl rfl rfl rfl ?_
    simp [hp, Inserter.inside]
  | returned => cases hnext

theorem wait_loop_spec {t : Nat} (ht : t ≤ R) :
    (wait_loop R t).inside = true ∧ (wait_loop R t).permits R = t ∧ (wait_loop R t).Bounded R := by
  rw [wait_loop]
  split
  · rename_i hlt
    exact ⟨rfl, rfl, hlt⟩
  · rename_i hlast
    exact ⟨rfl, Nat.le_antisymm (Nat.not_lt.mp hlast) ht, trivial⟩

theorem post_loop_spec (R t : Nat) :
    (post_loop R t).inside = true ∧ (post_loop R t).permits R = R - t ∧ (post_loop R t).Bounded R := by
  rw [post_loop]
  split
  · rename_i hlt
    exact ⟨rfl, rfl, hlt⟩
  · rename_i hlast
    exact ⟨rfl, (Nat.sub_eq_zero_of_le (Nat.not_lt.mp hlast)).symm, trivial⟩

theorem Inv.deleter_next (h : Inv R s) {i : Fin D} {val : Int} (hnext : deleter_next R s i val = some s') :
    Inv R s' := by
  have hbounded := h.bounded i
  cases hp : s.deleter i with simp only [concurrency3.deleter_next, hp] at hnext
  | write_wait =>
    split at hnext
    · obtain ⟨hinside, hpermits, hloop⟩ := wait_loop_spec (Nat.zero_le R)
      cases hnext
      refine h.deleter_move rfl rfl rfl ?_ ?_ hloop
      · rw [hp, hinside]
        simp only [Deleter.inside, Bool.toNat_true, Bool.toNat_false]
        omega
      · rw [hp, hpermits]
        rfl
    · cases hnext
  | read_wait t =>
    rw [hp] at hbounded
    split at hnext
    · obtain ⟨hinside, hpermits, hloop⟩ := wait_loop_spec (Nat.succ_le_of_lt hbounded)
      cases hnext
      refine h.deleter_move rfl rfl rfl ?_ ?_ hloop
      · rw [hp, hinside]
        rfl
      · rw [hp, hpermits]
        simp only [Deleter.permits]
        omega
    · cases hnext
  | remove =>
    obtain ⟨hinside, hpermits, hloop⟩ := post_loop_spec R 0
    cases hnext
    refine h.deleter_move rfl rfl rfl ?_ ?_ hloop
    · rw [hp, hinside]
      rfl
    · rw [hp, hpermits]
      rfl
  | read_post t =>
    rw [hp] at hbounded
    have hlt : t < R := hbounded
    obtain ⟨hinside, hpermits, hloop⟩ := post_loop_spec R (t + 1)
    cases hnext
    refine h.deleter_move rfl rfl rfl ?_ ?_ hloop
    · rw [hp, hinside]
      rfl
    · rw [hp, hpermits]
      simp only [Deleter.permits]
      omega
  | write_post =>
    cases hnext
    refine h.deleter_move rfl rfl rfl ?_ ?_ trivial
    · simp [hp, Deleter.inside]
    · simp [hp, Deleter.permits]
  | returned => cases hnext

theorem Inv.of_reachable (h : Reachable (next R) (initial R S I D) s) : Inv R s := by
  refine h.invariant (inv_initial R S I D) fun s a s' hs hnext => ?_
  cases a with
  | searcher i val => exact hs.searcher_next hnext
  | inserter i val => exact hs.inserter_next hnext
  | deleter i val => exact hs.deleter_next hnext

end Moves

section Exclusion

/-- While a deleter is deleting, nobody else is in a critical section, and there is never more
    than one inserter in one. -/
structure Exclusive (s : State S I D) : Prop where
  deleter : ∀ i, (s.deleter i).deleting = true →
    (∀ j, (s.searcher j).inside = false) ∧ (∀ j, (s.inserter j).inside = false) ∧
      ∀ j, j ≠ i → (s.deleter j).inside = false
  inserter : ∀ i j, (s.inserter i).inside = true → (s.inserter j).inside = true → i = j

theorem Deleter.permits_of_deleting {p : Deleter} (h : p.deleting = true) : p.permits R = R ∧ p.inside = true := by
  cases p with
  | remove => exact ⟨rfl, rfl⟩
  | read_post t =>
    cases t with
    | zero => exact ⟨rfl, rfl⟩
    | succ t => simp [Deleter.deleting] at h
  | write_wait | read_wait _ | write_post | returned => simp [Deleter.deleting] at h

theorem Inv.exclusive (h : Inv R s) : Exclusive s := by
  have hwrite := h.write
  have hread := h.read
  refine ⟨fun i hi => ?_, fun i j hi hj => ?_⟩
  · obtain ⟨hpermits, hinside⟩ := Deleter.permits_of_deleting (R := R) hi
    have hheld : 0 < count fun j => (s.deleter j).inside := count_pos.mpr ⟨i, hinside⟩
    have hall : (s.deleter i).permits R ≤ ∑ j, (s.deleter j).permits R :=
      Finset.single_le_sum (f := fun j => (s.deleter j).permits R) (fun _ _ => Nat.zero_le _) (Finset.mem_univ i)
    refine ⟨fun j => ?_, fun j => ?_, fun j hj => ?_⟩
    · by_contra hin
      have hpos : 0 < count fun j => (s.searcher j).inside := count_pos.mpr ⟨j, by simpa using hin⟩
      omega
    · by_contra hin
      have hpos : 0 < count fun j => (s.inserter j).inside := count_pos.mpr ⟨j, by simpa using hin⟩
      omega
    · by_contra hin
      exact hj (count_le_one (P := fun j => (s.deleter j).inside) (by omega) (by simpa using hin) hinside)
  · exact count_le_one (P := fun j => (s.inserter j).inside) (by omega) hi hj

/-- Some thread is unfinished, and every unfinished thread is blocked. -/
def State.Stuck (s : State S I D) : Prop :=
  ((∃ i, s.searcher i ≠ .returned) ∨ (∃ i, s.inserter i ≠ .returned) ∨ ∃ i, s.deleter i ≠ .returned) ∧
    (∀ i, s.searcher i ≠ .returned → s.searcher i = .read_wait ∧ s.read_sem = 0) ∧
    (∀ i, s.inserter i ≠ .returned → s.inserter i = .write_wait ∧ s.write_sem = 0) ∧
    ∀ i, s.deleter i ≠ .returned →
      s.deleter i = .write_wait ∧ s.write_sem = 0 ∨ (∃ t, s.deleter i = .read_wait t) ∧ s.read_sem = 0

/-- A reader whose permit is not in the semaphore has it, and can move. -/
theorem Inv.read_sem_pos (h : Inv R s) (hpermits : ∑ i, (s.deleter i).permits R < R)
    (hsearcher : ∀ i, s.searcher i ≠ .returned → s.searcher i = .read_wait ∧ s.read_sem = 0) : 0 < s.read_sem := by
  have hread := h.read
  have hnone : count (fun i => (s.searcher i).inside) = 0 := by
    by_contra hin
    obtain ⟨i, hi⟩ := count_pos.mp (Nat.pos_of_ne_zero hin)
    have hout : s.searcher i ≠ .returned := fun hp => by rw [hp] at hi; simp [Searcher.inside] at hi
    rw [(hsearcher i hout).1] at hi
    simp [Searcher.inside] at hi
  omega

theorem Deleter.permits_of_outside {d : Deleter} (h : d.inside = false) : d.permits R = 0 := by
  cases d <;> simp_all [Deleter.inside, Deleter.permits]

theorem Inv.not_stuck (h : Inv R s) (hR : 1 ≤ R) : ¬ s.Stuck := by
  rintro ⟨hunfinished, hsearcher, hinserter, hdeleter⟩
  have hinside : ∀ i, (s.inserter i).inside = false := by
    intro i
    by_contra hin
    have hi := hinserter i fun hp => by rw [hp] at hin; exact hin rfl
    rw [hi.1] at hin
    exact hin rfl
  have hnone : count (fun i => (s.inserter i).inside) = 0 := by
    by_contra hpos
    obtain ⟨i, hi⟩ := count_pos.mp (Nat.pos_of_ne_zero hpos)
    simp [hinside i] at hi
  have hwrite := h.write
  by_cases hheld : ∃ i, (s.deleter i).inside = true
  · -- The deleter that has `write_sem` waits for a read permit, and no other deleter has any.
    obtain ⟨i, hi⟩ := hheld
    have hheld : 0 < count fun j => (s.deleter j).inside := count_pos.mpr ⟨i, hi⟩
    have hwait := hdeleter i fun hp => by rw [hp] at hi; simp [Deleter.inside] at hi
    obtain ⟨hp, -⟩ | ⟨⟨t, hp⟩, hzero⟩ := hwait
    · rw [hp] at hi
      simp [Deleter.inside] at hi
    · have hbounded := h.bounded i
      rw [hp] at hbounded
      have hothers : ∀ j, j ≠ i → (s.deleter j).permits R = 0 := by
        intro j hj
        have hout : (s.deleter j).inside = false := by
          by_contra hin
          exact hj (count_le_one (P := fun j => (s.deleter j).inside) (by omega) (by simpa using hin) hi)
        exact Deleter.permits_of_outside hout
      have hsum : ∑ j, (s.deleter j).permits R = t := by
        rw [Finset.sum_eq_single i (fun j _ hj => hothers j hj) (by simp), hp]
        rfl
      have hpos := h.read_sem_pos (hsum ▸ hbounded) hsearcher
      omega
  · -- Nobody has `write_sem`, so that only searchers can be unfinished.
    have hout : ∀ i, (s.deleter i).inside = false := fun i => by simpa using fun hi => hheld ⟨i, hi⟩
    have hfree : count (fun i => (s.deleter i).inside) = 0 := by
      by_contra hpos
      obtain ⟨i, hi⟩ := count_pos.mp (Nat.pos_of_ne_zero hpos)
      exact hheld ⟨i, hi⟩
    have hsum : ∑ j, (s.deleter j).permits R = 0 :=
      Finset.sum_eq_zero fun j _ => Deleter.permits_of_outside (hout j)
    have hpos := h.read_sem_pos (by omega) hsearcher
    obtain ⟨i, hi⟩ | ⟨i, hi⟩ | ⟨i, hi⟩ := hunfinished
    · have hzero := (hsearcher i hi).2
      omega
    · have hzero := (hinserter i hi).2
      omega
    · obtain ⟨-, hzero⟩ | ⟨-, hzero⟩ := hdeleter i hi
      · omega
      · omega

/-- For any number of threads and any number of read permits. -/
theorem exclusive_and_never_stuck (hR : 1 ≤ R) (h : Reachable (next R) (initial R S I D) s) :
    Exclusive s ∧ ¬ s.Stuck :=
  ⟨(Inv.of_reachable h).exclusive, (Inv.of_reachable h).not_stuck hR⟩

/-- A searcher reads, an inserter inserts, and a deleter has collected all permits. -/
def searchInsertDelete : List (Move 2 1 2) :=
  List.replicate 4 (Move.searcher 0 7) ++ List.replicate 7 (Move.inserter 0 7) ++ List.replicate 3 (Move.deleter 1 7)

theorem exclusive_and_never_stuck_searchInsertDelete :
    ∃ s, run (next 2) (initial 2 2 1 2) searchInsertDelete = some s ∧ s.deleter 1 = .remove ∧ Exclusive s ∧ ¬ s.Stuck := by
  have hlast : (run (next 2) (initial 2 2 1 2) searchInsertDelete).map (fun s => s.deleter 1) = some .remove := by
    decide +kernel
  obtain ⟨s, hrun, hdeleter⟩ := Option.map_eq_some_iff.mp hlast
  exact ⟨s, hrun, hdeleter, exclusive_and_never_stuck (by decide) ⟨_, hrun⟩⟩

end Exclusion

end cs444.concurrency3
