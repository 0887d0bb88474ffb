import Cs444.Prob1.Deadlock

open interleaving

namespace cs444.prob1

variable {num_threads : Nat} {s s' : State}

section Groups

/-- No move increments `threads_active` before it is back at 0. -/
def undisturbed (num_threads : Nat) : State → List Move → Bool
  | _, [] => true
  | s, a :: as =>
    match next num_threads s a with
    | none => true
    | some s' =>
      decide (s'.threads_active ≤ s.threads_active) &&
        (decide (s'.threads_active = 0) || undisturbed num_threads s' as)

/-- Whenever three threads use the resource in the course of a schedule, all of them leave before
    another one enters. -/
def GroupsApart (num_threads : Nat) (cs : List Move) : Prop :=
  ∀ as bs s, as ++ bs = cs → run (next num_threads) initial as = some s →
    3 ≤ s.threads_active → s.set_lock = true → undisturbed num_threads s bs = true

/-- The thread has been created and is not counted in `threads_active` yet. -/
def Task.arriving : Task → Bool
  | .sem_wait | .lock_enter | .enter => true
  | _ => false

/-- The thread has been created and has not left the resource. -/
def Task.staying (t : Task) : Bool := t.arriving || t.inside

/-- A thread is created only when `set_lock` is 0 and fewer than three of the threads created
    before are still to leave. -/
def Spaced (s : State) (a : Move) : Prop :=
  ∀ i, a = .main → s.main = .create i → s.set_lock = false ∧ s.threads.countP Task.staying < 3

/-- At most three threads are still to leave, and none of them is still to enter while `set_lock`
    is 1. -/
structure Closed (s : State) : Prop where
  staying : s.threads.countP Task.staying ≤ 3
  arriving : s.set_lock = true → s.threads.countP Task.arriving = 0

theorem countP_staying (ts : List Task) :
    ts.countP Task.staying = ts.countP Task.arriving + ts.countP Task.inside := by
  induction ts with
  | nil => rfl
  | cons t ts ih =>
    simp only [List.countP_cons, ih]
    cases t <;> simp [Task.staying, Task.arriving, Task.inside] <;> omega

end Groups

section Moves

/-- What a move does to the threads and their count: nothing, it creates a thread, or it is the
    next step of a thread. -/
theorem next_cases {a : Move} (h : next num_threads s a = some s') :
    (s'.threads = s.threads ∧ s'.set_lock = s.set_lock ∧ s'.threads_active = s.threads_active) ∨
    (a = .main ∧ (∃ i, s.main = .create i) ∧ s'.threads = s.threads ++ [.sem_wait] ∧
      s'.set_lock = s.set_lock ∧ s'.threads_active = s.threads_active) ∨
    ∃ i t, a = .thread i ∧ s.threads[i]? = some t ∧ thread_next s i t = some s' := by
  cases a with
  | main =>
    cases hmain : s.main with
    | create i =>
      simp only [next, main_next, hmain] at h
      cases h
      exact .inr (.inl ⟨rfl, ⟨i, rfl⟩, rfl, rfl, rfl⟩)
    | loop _ | lock _ | test _ | cond_wait _ | relock _ | unlock _ | join _ | returned =>
      left
      simp only [next, main_next, hmain] at h
      grind
  | createFails | wakes =>
    left
    simp only [next] at h
    split at h
    · cases h
      exact ⟨rfl, rfl, rfl⟩
    · cases h
  | thread i =>
    simp only [next] at h
    split at h
    · cases h
    · obtain ⟨t, ht, hnext⟩ := Option.bind_eq_some_iff.mp h
      exact .inr (.inr ⟨i, t, rfl, ht, hnext⟩)

theorem countP_arriving_released (ts : List Task) :
    (ts.map Task.released).countP Task.arriving = ts.countP Task.arriving := by
  rw [List.countP_map]
  apply List.countP_congr
  intro t _
  cases t <;> simp [Task.released, Task.arriving]

/-- A thread at `enter` goes from those still to enter to those inside. -/
theorem thread_next_enter {i : Nat} (ht : s.threads[i]? = some .enter) (h : thread_next s i .enter = some s') :
    s'.threads.countP Task.arriving + 1 = s.threads.countP Task.arriving ∧
      s'.threads.countP Task.inside = s.threads.countP Task.inside + 1 ∧
      s'.threads_active = s.threads_active + 1 := by
  cases h
  have harriving := countP_set ht Task.arriving .signal
  have hinside := countP_set ht Task.inside .signal
  simp only [Task.arriving, Task.inside, Bool.toNat_true, Bool.toNat_false] at harriving hinside
  refine ⟨?_, ?_, rfl⟩
  · dsimp only
    omega
  · dsimp only
    omega

theorem thread_next_leave {i : Nat} (ht : s.threads[i]? = some .leave) (h : thread_next s i .leave = some s') :
    s'.threads.countP Task.arriving = s.threads.countP Task.arriving ∧
      s'.threads.countP Task.inside + 1 = s.threads.countP Task.inside ∧
      s'.threads_active = s.threads_active - 1 ∧
      s'.set_lock = if s'.threads_active = 0 then false else s.set_lock := by
  cases h
  have harriving := countP_set ht Task.arriving .broadcast
  have hinside := countP_set ht Task.inside .broadcast
  simp only [Task.arriving, Task.inside, Bool.toNat_true, Bool.toNat_false] at harriving hinside
  refine ⟨?_, ?_, rfl, rfl⟩
  · dsimp only
    omega
  · dsimp only
    omega

/-- A thread that stays where it is as far as entering and leaving go. -/
theorem thread_next_other {i : Nat} {t : Task} (ht : s.threads[i]? = some t) (henter : t ≠ .enter)
    (hleave : t ≠ .leave) (h : thread_next s i t = some s') :
    s'.threads.countP Task.arriving = s.threads.countP Task.arriving ∧
      s'.threads.countP Task.inside = s.threads.countP Task.inside ∧
      s'.threads_active = s.threads_active ∧ s'.set_lock = s.set_lock := by
  have hset : ∀ t', s'.threads = s.threads.set i t' → t'.arriving = t.arriving → t'.inside = t.inside →
      s'.threads.countP Task.arriving = s.threads.countP Task.arriving ∧
        s'.threads.countP Task.inside = s.threads.countP Task.inside := by
    intro t' hthreads harriving hinside
    have h₁ := countP_set ht Task.arriving t'
    have h₂ := countP_set ht Task.inside t'
    rw [harriving] at h₁
    rw [hinside] at h₂
    rw [hthreads]
    exact ⟨Nat.add_right_cancel h₁, Nat.add_right_cancel h₂⟩
  cases t with
  | enter => exact absurd rfl henter
  | leave => exact absurd rfl hleave
  | barrier_wait =>
    simp only [thread_next] at h
    split at h
    · cases h
      have harriving := countP_set ht Task.arriving .waiting
      have hinside := countP_set ht Task.inside .waiting
      refine ⟨?_, ?_, rfl, rfl⟩
      · rw [countP_arriving_released]
        exact Nat.add_right_cancel harriving
      · rw [(countP_released _).2.1]
        exact Nat.add_right_cancel hinside
    · cases h
      obtain ⟨harriving, hinside⟩ := hset _ rfl rfl rfl
      exact ⟨harriving, hinside, rfl, rfl⟩
  | sem_wait | lock_enter | lock_leave =>
    simp only [thread_next] at h
    split at h
    · cases h
      obtain ⟨harriving, hinside⟩ := hset _ rfl rfl rfl
      exact ⟨harriving, hinside, rfl, rfl⟩
    · cases h
  | signal | unlock_enter | broadcast | unlock_leave | sem_post =>
    cases h
    obtain ⟨harriving, hinside⟩ := hset _ rfl rfl rfl
    exact ⟨harriving, hinside, rfl, rfl⟩
  | waiting | exited => simp [thread_next] at h

end Moves

section Spaced

theorem Closed.next_ok {a : Move} (h : Closed s) (hcounts : Counts s) (hspaced : Spaced s a)
    (hnext : next num_threads s a = some s') : Closed s' := by
  have hstaying := h.staying
  have harriving := h.arriving
  rw [countP_staying] at hstaying
  obtain ⟨hthreads, hset_lock, -⟩ | ⟨rfl, ⟨i, hmain⟩, hthreads, hset_lock, -⟩ | ⟨i, t, rfl, ht, hnext⟩ := next_cases hnext
  · refine ⟨?_, ?_⟩
    · rw [hthreads]
      exact h.staying
    · rw [hthreads, hset_lock]
      exact harriving
  · obtain ⟨hopen, hroom⟩ := hspaced i rfl hmain
    refine ⟨?_, fun hset => ?_⟩
    · rw [hthreads, List.countP_append]
      simp only [List.countP_singleton, Task.staying, Task.arriving, Bool.true_or, if_true]
      omega
    · rw [hset_lock, hopen] at hset
      cases hset
  · by_cases henter : t = .enter
    · -- All three that are still to leave are inside now, or there are fewer.
      subst henter
      obtain ⟨harriving', hinside', hactive'⟩ := thread_next_enter ht hnext
      have hcount := hcounts.active
      refine ⟨by rw [countP_staying]; omega, fun hset => ?_⟩
      by_cases hold : s.set_lock = true
      · have hnone := harriving hold
        omega
      · cases hnext
        dsimp only at hset
        split at hset
        · omega
        · exact absurd hset hold
    · by_cases hleave : t = .leave
      · subst hleave
        obtain ⟨harriving', hinside', -, hset'⟩ := thread_next_leave ht hnext
        refine ⟨by rw [countP_staying]; omega, fun hset => ?_⟩
        rw [hset'] at hset
        split at hset
        · cases hset
        · rw [harriving']
          exact harriving hset
      · obtain ⟨harriving', hinside', -, hset'⟩ := thread_next_other ht henter hleave hnext
        refine ⟨by rw [countP_staying]; omega, fun hset => ?_⟩
        rw [harriving']
        exact harriving (hset' ▸ hset)

/-- While `set_lock` is 1 no thread can enter, and `set_lock` stays 1 until all have left. -/
theorem Closed.locked {a : Move} (h : Closed s) (hset : s.set_lock = true) (hnext : next num_threads s a = some s') :
    s'.threads_active ≤ s.threads_active ∧ (s'.threads_active = 0 ∨ s'.set_lock = true) := by
  obtain ⟨-, hset_lock, hactive⟩ | ⟨-, -, -, hset_lock, hactive⟩ | ⟨i, t, rfl, ht, hnext⟩ := next_cases hnext
  · exact ⟨hactive.le, .inr (hset_lock.trans hset)⟩
  · exact ⟨hactive.le, .inr (hset_lock.trans hset)⟩
  · by_cases henter : t = .enter
    · subst henter
      have hsome : 0 < s.threads.countP Task.arriving :=
        List.countP_pos_iff.mpr ⟨.enter, List.mem_of_getElem? ht, rfl⟩
      have hnone := h.arriving hset
      omega
    · by_cases hleave : t = .leave
      · subst hleave
        obtain ⟨-, -, hactive, hset_lock⟩ := thread_next_leave ht hnext
        refine ⟨by omega, ?_⟩
        by_cases hzero : s'.threads_active = 0
        · exact .inl hzero
        · rw [if_neg hzero] at hset_lock
          exact .inr (hset_lock.trans hset)
      · obtain ⟨-, -, hactive, hset_lock⟩ := thread_next_other ht henter hleave hnext
        exact ⟨hactive.le, .inr (hset_lock.trans hset)⟩

/-- The counters are right, and the group that uses the resource is closed. -/
structure Orderly (num_threads : Nat) (s : State) : Prop where
  inv : Inv num_threads s
  closed : Closed s

theorem orderly_initial (num_threads : Nat) : Orderly num_threads initial :=
  ⟨inv_initial num_threads, by decide, by decide⟩

theorem Orderly.next_ok {a : Move} (h : Orderly num_threads s) (hspaced : Spaced s a)
    (hnext : next num_threads s a = some s') : Orderly num_threads s' :=
  ⟨h.inv.step_ok hnext, h.closed.next_ok h.inv.counts hspaced hnext⟩

theorem Orderly.undisturbed {as : List Move} (h : Orderly num_threads s) (hset : s.set_lock = true)
    (halong : Along (next num_threads) Spaced s as) : undisturbed num_threads s as = true := by
  induction as generalizing s with
  | nil => rfl
  | cons a as ih =>
    rw [prob1.undisturbed]
    cases hnext : next num_threads s a with
    | none => rfl
    | some s' =>
      obtain ⟨hspaced, hrest⟩ := halong s' hnext
      obtain ⟨hle, hlast⟩ := h.closed.locked hset hnext
      dsimp only
      rw [decide_eq_true hle, Bool.true_and]
      obtain hzero | hset' := hlast
      · rw [decide_eq_true hzero, Bool.true_or]
      · rw [ih (h.next_ok hspaced hnext) hset' hrest, Bool.or_true]

theorem groupsApart_of_spaced {cs : List Move} (h : Along (next num_threads) Spaced initial cs) :
    GroupsApart num_threads cs := by
  rintro as bs s rfl hrun - hset
  obtain ⟨hs, hrest⟩ := h.run_append (fun s a s' hs hspaced hnext => hs.next_ok hspaced hnext)
    (orderly_initial num_threads) hrun
  exact hs.undisturbed hset hrest

/-- With at most three threads there is always room for the one that is created. -/
theorem spaced_of_le_three (hn : num_threads ≤ 3) (cs : List Move) :
    Along (next num_threads) Spaced initial cs := by
  refine along_of_invariant (I := Inv num_threads) (fun s a hs i _ hmain => ?_)
    (fun s a s' hs hnext => hs.step_ok hnext) (inv_initial num_threads) cs
  have hcreated := hs.created
  rw [hmain] at hcreated
  obtain ⟨hlength, hlt⟩ := hcreated
  have hle : s.threads.countP Task.staying ≤ s.threads.length := List.countP_le_length
  refine ⟨?_, by omega⟩
  by_contra hset
  have hthree := hs.counts.set_lock (by simpa using hset)
  omega

end Spaced

section Intruder

/-- `main` creates four threads. -/
def createFour : List Move := List.replicate 20 Move.main

/-- The first three threads enter. -/
def enterThree : List Nat := List.replicate 5 0 ++ List.replicate 5 1 ++ List.replicate 5 2

/-- The three pass the barrier, the first of them leaves, and the fourth enters. -/
def intrude : List Nat := [0, 1, 2] ++ List.replicate 5 0 ++ List.replicate 3 3

def created : State :=
  { initial with main := .loop 4, threads := List.replicate 4 .sem_wait }

def filled : State where
  resource := 0
  barrier := 0
  threads_active := 3
  set_lock := true
  lock := none
  main := .loop 4
  threads := [.barrier_wait, .barrier_wait, .barrier_wait, .sem_wait]

theorem run_createFour (hn : 4 ≤ num_threads) : run (next num_threads) initial createFour = some created := by
  have hstart : ∀ k, k < createFour.length → ((run (next 4) initial (createFour.take k)).all (State.creating 4)) = true := by
    decide +kernel
  have hrun : run (next 4) initial createFour = some created := by decide +kernel
  exact run_congr (next_creating (Nat.le_refl 4) hn) hstart hrun

/-- What threads do does not depend on how many there will be. -/
theorem run_threads (n : Nat) (s : State) (is : List Nat) :
    run (next num_threads) s (is.map Move.thread) = run (next n) s (is.map Move.thread) := by
  induction is generalizing s with
  | nil => rfl
  | cons i is ih =>
    rw [List.map_cons, run, run]
    exact congrArg _ (funext fun s' => ih s')

theorem undisturbed_threads (n : Nat) (s : State) (is : List Nat) :
    undisturbed num_threads s (is.map Move.thread) = undisturbed n s (is.map Move.thread) := by
  induction is generalizing s with
  | nil => rfl
  | cons i is ih =>
    rw [List.map_cons, undisturbed, undisturbed]
    have hsame : next num_threads s (.thread i) = next n s (.thread i) := rfl
    rw [hsame]
    cases next n s (.thread i) with
    | none => rfl
    | some s' => simp only [ih s']

theorem not_groupsApart (hn : 4 ≤ num_threads) :
    ¬ GroupsApart num_threads (createFour ++ enterThree.map Move.thread ++ intrude.map Move.thread) := by
  intro h
  have hrun : run (next num_threads) initial (createFour ++ enterThree.map Move.thread) = some filled := by
    rw [run_append, run_createFour hn, Option.bind_some, run_threads 4]
    decide +kernel
  have hlast := h _ _ filled rfl hrun (by decide) rfl
  rw [undisturbed_threads 4] at hlast
  exact absurd hlast (by decide +kernel)

/-- Groups of three stay apart in every schedule exactly if there are at most three threads. With
    more of them they stay apart in the schedules in which every thread is created while `set_lock`
    is 0 and fewer than three of the earlier ones are still to leave. -/
theorem groupsApart_iff (num_threads : Nat) :
    ((∀ cs, GroupsApart num_threads cs) ↔ num_threads ≤ 3) ∧
      ∀ cs, Along (next num_threads) Spaced initial cs → GroupsApart num_threads cs := by
  refine ⟨⟨fun h => ?_, fun hn cs => groupsApart_of_spaced (spaced_of_le_three hn cs)⟩,
    fun cs => groupsApart_of_spaced⟩
  by_contra hn
  exact not_groupsApart (by omega) (h _)

/-- With four threads, the fourth enters while two of the first three are still inside. -/
theorem fourth_enters :
    run (next 4) initial (createFour ++ enterThree.map Move.thread) = some filled ∧
      filled.threads_active = 3 ∧ filled.set_lock = true ∧
      (run (next 4) filled ((intrude.take 10).map Move.thread)).map State.threads_active = some 2 ∧
      (run (next 4) filled (intrude.map Move.thread)).map State.threads_active = some 3 ∧
      ¬ GroupsApart 4 (createFour ++ enterThree.map Move.thread ++ intrude.map Move.thread) := by
  refine ⟨by decide +kernel, rfl, rfl, by decide +kernel, by decide +kernel, not_groupsApart (Nat.le_refl 4)⟩

end Intruder

end cs444.prob1
