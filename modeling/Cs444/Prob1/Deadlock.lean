import Cs444.Prob1.Threads

open interleaving

namespace cs444.prob1

variable {num_threads : Nat} {s s' : State}

section Counts

/-- The thread has a permit of the semaphore. -/
def Task.holds : Task → Bool
  | .sem_wait | .exited => false
  | _ => true

/-- The thread is counted in `threads_active`. -/
def Task.inside : Task → Bool
  | .signal | .unlock_enter | .barrier_wait | .waiting | .lock_leave | .leave => true
  | _ => false

/-- The thread has passed the barrier. -/
def Task.passed : Task → Bool
  | .lock_leave | .leave | .broadcast | .unlock_leave | .sem_post | .exited => true
  | _ => false

/-- The thread is inside the barrier. -/
def Task.isWaiting (t : Task) : Bool := decide (t = .waiting)

/-- The number of threads `main` has created, by where it is. -/
def Main.Created (num_threads created : Nat) : Main → Prop
  | .loop i => created = i ∧ i ≤ num_threads
  | .lock i | .test i | .cond_wait i | .relock i | .unlock i | .create i => created = i ∧ i < num_threads
  | .join _ => created = num_threads
  | .returned => True

/-- The counters agree with where the threads are. Threads pass the barrier three at a
    time. -/
structure Counts (s : State) : Prop where
  resource : s.resource + s.threads.countP Task.holds = 3
  barrier : s.barrier = s.threads.countP Task.isWaiting
  barrier_lt : s.barrier < 3
  passed : 3 ∣ s.threads.countP Task.passed
  active : s.threads_active = s.threads.countP Task.inside
  set_lock : s.set_lock = true → 3 ≤ s.threads.length

structure Inv (num_threads : Nat) (s : State) : Prop where
  counts : Counts s
  created : s.main.Created num_threads s.threads.length

theorem inv_initial (num_threads : Nat) : Inv num_threads initial :=
  ⟨⟨rfl, rfl, by decide, by decide, rfl, by decide⟩, rfl, Nat.zero_le _⟩

theorem countP_released (ts : List Task) :
    (ts.map Task.released).countP Task.holds = ts.countP Task.holds ∧
    (ts.map Task.released).countP Task.inside = ts.countP Task.inside ∧
    (ts.map Task.released).countP Task.isWaiting = 0 ∧
    (ts.map Task.released).countP Task.passed = ts.countP Task.passed + ts.countP Task.isWaiting := by
  induction ts with
  | nil => simp
  | cons t ts ih =>
    obtain ⟨hholds, hinside, hwaiting, hpassed⟩ := ih
    simp only [List.map_cons, List.countP_cons, hholds, hinside, hwaiting, hpassed]
    cases t <;> simp [Task.released, Task.holds, Task.inside, Task.isWaiting, Task.passed] <;> omega

/-- A thread that moves from `t` to `t'`, with the counters following. -/
theorem Counts.set (h : Counts s) {i : Nat} {t : Task} (ht : s.threads[i]? = some t) (t' : Task)
    (hthreads : s'.threads = s.threads.set i t')
    (hresource : s'.resource + t'.holds.toNat = s.resource + t.holds.toNat)
    (hbarrier : s'.barrier + t.isWaiting.toNat = s.barrier + t'.isWaiting.toNat) (hbarrier_lt : s'.barrier < 3)
    (hpassed : t'.passed = t.passed)
    (hactive : s'.threads_active + t.inside.toNat = s.threads_active + t'.inside.toNat)
    (hset_lock : s'.set_lock = true → s.set_lock = true ∨ 3 ≤ s'.threads_active) : Counts s' := by
  have hholds := countP_set ht Task.holds t'
  have hinside := countP_set ht Task.inside t'
  have hpassing := countP_set ht Task.passed t'
  have hwaiting := countP_set ht Task.isWaiting t'
  rw [← hthreads] at hholds hinside hpassing hwaiting
  rw [hpassed] at hpassing
  have hlength : s'.threads.length = s.threads.length := by rw [hthreads, List.length_set]
  have hle : s'.threads.countP Task.inside ≤ s'.threads.length := List.countP_le_length
  obtain ⟨hresource₀, hbarrier₀, -, hpassed₀, hactive₀, hset_lock₀⟩ := h
  refine ⟨by omega, by omega, hbarrier_lt, by omega, by omega, fun hset => ?_⟩
  obtain hset | hset := hset_lock hset
  · rw [hlength]
    exact hset_lock₀ hset
  · omega

theorem Counts.thread_next (h : Counts s) {i : Nat} {t : Task} (ht : s.threads[i]? = some t)
    (hnext : thread_next s i t = some s') : Counts s' := by
  have hlt := h.barrier_lt
  cases t with
  | sem_wait =>
    simp only [prob1.thread_next] at hnext
    split at hnext
    · cases hnext
      refine h.set ht .lock_enter rfl ?_ rfl hlt rfl rfl .inl
      simp [Task.holds]
      omega
    · cases hnext
  | lock_enter =>
    simp only [prob1.thread_next] at hnext
    split at hnext
    · cases hnext
      exact h.set ht .enter rfl rfl rfl hlt rfl rfl .inl
    · cases hnext
  | enter =>
    cases hnext
    refine h.set ht .signal rfl rfl rfl hlt rfl ?_ fun hset => ?_
    · simp [Task.inside]
    · dsimp only at hset ⊢
      split at hset
      · right
        assumption
      · exact .inl hset
  | signal =>
    cases hnext
    exact h.set ht .unlock_enter rfl rfl rfl hlt rfl rfl .inl
  | unlock_enter =>
    cases hnext
    exact h.set ht .barrier_wait rfl rfl rfl hlt rfl rfl .inl
  | barrier_wait =>
    simp only [prob1.thread_next] at hnext
    split at hnext
    · rename_i hthird
      cases hnext
      have hholds := countP_set ht Task.holds .waiting
      have hinside := countP_set ht Task.inside .waiting
      have hpassed := countP_set ht Task.passed .waiting
      have hwaiting := countP_set ht Task.isWaiting .waiting
      simp only [Task.holds, Task.inside, Task.passed, Task.isWaiting, Bool.toNat_true, Bool.toNat_false,
        reduceCtorEq, decide_true, decide_false, Nat.add_right_cancel_iff, Nat.add_zero] at hholds hinside hpassed hwaiting
      obtain ⟨hholds', hinside', hwaiting', hpassed'⟩ := countP_released (s.threads.set i .waiting)
      obtain ⟨hresource₀, hbarrier₀, -, hpassed₀, hactive₀, hset_lock₀⟩ := h
      refine ⟨?_, ?_, by simp, ?_, ?_, ?_⟩
      · rw [hholds', hholds]
        exact hresource₀
      · exact hwaiting'.symm
      · rw [hpassed', hpassed, hwaiting]
        omega
      · rw [hinside', hinside]
        exact hactive₀
      · simpa using hset_lock₀
    · cases hnext
      refine h.set ht .waiting rfl rfl ?_ ?_ rfl rfl .inl
      · simp [Task.isWaiting]
      · dsimp only
        omega
  | waiting => simp [prob1.thread_next] at hnext
  | lock_leave =>
    simp only [prob1.thread_next] at hnext
    split at hnext
    · cases hnext
      exact h.set ht .leave rfl rfl rfl hlt rfl rfl .inl
    · cases hnext
  | leave =>
    cases hnext
    refine h.set ht .broadcast rfl rfl rfl hlt rfl ?_ fun hset => ?_
    · simp [Task.inside]
    · dsimp only at hset
      split at hset
      · cases hset
      · exact .inl hset
  | broadcast =>
    cases hnext
    exact h.set ht .unlock_leave rfl rfl rfl hlt rfl rfl .inl
  | unlock_leave =>
    cases hnext
    exact h.set ht .sem_post rfl rfl rfl hlt rfl rfl .inl
  | sem_post =>
    cases hnext
    exact h.set ht .exited rfl rfl rfl hlt rfl rfl .inl
  | exited => simp [prob1.thread_next] at hnext

end Counts

section Steps

theorem thread_next_frame {i : Nat} {t : Task} (hnext : thread_next s i t = some s') :
    s'.threads.length = s.threads.length ∧ (s'.main = s.main ∨ s'.main = s.main.woken) := by
  cases t <;> simp only [thread_next] at hnext <;> (try split at hnext) <;> cases hnext <;> simp

theorem Main.Created.woken {created : Nat} {m : Main} (h : m.Created num_threads created) :
    m.woken.Created num_threads created := by
  cases m <;> exact h

theorem Inv.thread_next (h : Inv num_threads s) {i : Nat} {t : Task} (ht : s.threads[i]? = some t)
    (hnext : thread_next s i t = some s') : Inv num_threads s' := by
  obtain ⟨hlength, hmain⟩ := thread_next_frame hnext
  refine ⟨h.counts.thread_next ht hnext, ?_⟩
  rw [hlength]
  obtain hmain | hmain := hmain
  · rw [hmain]
    exact h.created
  · rw [hmain]
    exact h.created.woken

theorem Counts.create (h : Counts s) (main : Main) :
    Counts { s with threads := s.threads ++ [.sem_wait], main } := by
  obtain ⟨hresource, hbarrier, hbarrier_lt, hpassed, hactive, hset_lock⟩ := h
  refine ⟨?_, ?_, hbarrier_lt, ?_, ?_, fun hset => ?_⟩
  · simpa [Task.holds] using hresource
  · simpa [Task.isWaiting] using hbarrier
  · simpa [Task.passed] using hpassed
  · simpa [Task.inside] using hactive
  · have hle := hset_lock hset
    rw [List.length_append]
    omega

theorem Counts.main_only (h : Counts s) (lock : Option Owner) (main : Main) : Counts { s with lock, main } :=
  ⟨h.resource, h.barrier, h.barrier_lt, h.passed, h.active, h.set_lock⟩

theorem Inv.main_next (h : Inv num_threads s) (hnext : main_next num_threads s = some s') : Inv num_threads s' := by
  obtain ⟨hcounts, hcreated⟩ := h
  cases hmain : s.main with
  | loop i =>
    rw [hmain] at hcreated
    simp only [prob1.main_next, hmain] at hnext
    split at hnext
    · rename_i hlt
      cases hnext
      exact ⟨hcounts.main_only s.lock _, hcreated.1, hlt⟩
    · rename_i hge
      cases hnext
      refine ⟨hcounts.main_only s.lock _, ?_⟩
      obtain ⟨hi, hle⟩ := hcreated
      exact hi.trans (by omega)
  | lock i =>
    rw [hmain] at hcreated
    simp only [prob1.main_next, hmain] at hnext
    split at hnext
    · cases hnext
      exact ⟨hcounts.main_only _ _, hcreated⟩
    · cases hnext
  | test i =>
    rw [hmain] at hcreated
    simp only [prob1.main_next, hmain] at hnext
    split at hnext
    · cases hnext
      exact ⟨hcounts.main_only _ _, hcreated⟩
    · cases hnext
      exact ⟨hcounts.main_only s.lock _, hcreated⟩
  | cond_wait i => simp [prob1.main_next, hmain] at hnext
  | relock i =>
    rw [hmain] at hcreated
    simp only [prob1.main_next, hmain] at hnext
    split at hnext
    · cases hnext
      exact ⟨hcounts.main_only _ _, hcreated⟩
    · cases hnext
  | unlock i =>
    rw [hmain] at hcreated
    simp only [prob1.main_next, hmain] at hnext
    cases hnext
    exact ⟨hcounts.main_only _ _, hcreated⟩
  | create i =>
    rw [hmain] at hcreated
    simp only [prob1.main_next, hmain] at hnext
    cases hnext
    refine ⟨hcounts.create _, ?_⟩
    obtain ⟨hi, hlt⟩ := hcreated
    exact ⟨by simp [hi], hlt⟩
  | join i =>
    rw [hmain] at hcreated
    simp only [prob1.main_next, hmain] at hnext
    split at hnext
    · split at hnext
      · cases hnext
        exact ⟨hcounts.main_only s.lock _, hcreated⟩
      · cases hnext
    · cases hnext
      exact ⟨hcounts.main_only s.lock _, trivial⟩
  | returned => simp [prob1.main_next, hmain] at hnext

theorem Inv.step_ok (h : Inv num_threads s) {a : Move} (hnext : next num_threads s a = some s') :
    Inv num_threads s' := by
  cases a with
  | main => exact h.main_next hnext
  | createFails =>
    simp only [next] at hnext
    split at hnext
    · cases hnext
      exact ⟨h.counts.main_only s.lock _, trivial⟩
    · cases hnext
  | wakes =>
    simp only [next] at hnext
    split at hnext
    · rename_i i hmain
      cases hnext
      have hcreated := h.created
      rw [hmain] at hcreated
      exact ⟨h.counts.main_only s.lock _, hcreated⟩
    · cases hnext
  | thread i =>
    simp only [next] at hnext
    split at hnext
    · cases hnext
    · obtain ⟨t, ht, hnext⟩ := Option.bind_eq_some_iff.mp hnext
      exact h.thread_next ht hnext

theorem Inv.of_reachable (h : Reachable (next num_threads) initial s) : Inv num_threads s :=
  h.invariant (inv_initial num_threads) fun _ _ _ hs hnext => hs.step_ok hnext

end Steps

section Three

/-- With three threads, `main` never has to wait before it joins them. -/
theorem Inv.not_held (h : Inv 3 s) {i : Nat} (hmain : s.main = .cond_wait i) : s.held = false := by
  have hcreated := h.created
  rw [hmain] at hcreated
  obtain ⟨hlength, hlt⟩ := hcreated
  have hle : s.threads.countP Task.inside ≤ s.threads.length := List.countP_le_length
  have hactive := h.counts.active
  have hset_lock := h.counts.set_lock
  rw [State.held, Bool.or_eq_false_iff]
  refine ⟨?_, by simp only [decide_eq_false_iff_not]; omega⟩
  by_contra hset
  have hthree := hset_lock (by simpa using hset)
  omega

/-- A thread that cannot move has exited, or waits for the semaphore or in the barrier. -/
def Task.AtRest (t : Task) : Prop := t = .exited ∨ t = .sem_wait ∨ t = .waiting

theorem atRest_of_stuck (h : s.stuck num_threads = true) {t : Task} (ht : t ∈ s.threads) : t.AtRest := by
  rw [State.stuck, Bool.and_eq_true, List.all_eq_true] at h
  have hthread := h.2 t ht
  cases t <;> simp_all [Task.AtRest, State.taskBlocked]

theorem countP_holds_of_atRest {ts : List Task} (h : ∀ t ∈ ts, t.AtRest) :
    ts.countP Task.holds = ts.countP Task.isWaiting := by
  apply List.countP_congr
  intro t ht
  obtain rfl | rfl | rfl := h t ht <;> decide

theorem countP_passed_of_atRest {ts : List Task} (h : ∀ t ∈ ts, t.AtRest) (hwait : .sem_wait ∉ ts) :
    ts.countP Task.passed + ts.countP Task.isWaiting = ts.length := by
  induction ts with
  | nil => rfl
  | cons t ts ih =>
    have hsum := ih (fun u hu => h u (List.mem_cons_of_mem _ hu)) fun hu => hwait (List.mem_cons_of_mem _ hu)
    rw [List.countP_cons, List.countP_cons, List.length_cons, ← hsum]
    obtain rfl | rfl | rfl := h t List.mem_cons_self
    · rw [if_pos (by decide), if_neg (by decide)]
      omega
    · exact absurd List.mem_cons_self hwait
    · rw [if_neg (by decide), if_pos (by decide)]
      omega

theorem Inv.not_stuck (h : Inv 3 s) : s.stuck 3 = false := by
  by_contra hstuck
  rw [Bool.not_eq_false] at hstuck
  have hrest : ∀ t ∈ s.threads, t.AtRest := fun t ht => atRest_of_stuck hstuck ht
  rw [State.stuck, Bool.and_eq_true, List.all_eq_true] at hstuck
  obtain ⟨hmain, hthreads⟩ := hstuck
  cases hpc : s.main with
  | cond_wait i =>
    rw [State.mainBlocked, hpc] at hmain
    simp [h.not_held hpc] at hmain
  | join i =>
    rw [State.mainBlocked, hpc] at hmain
    obtain ⟨hi, hunfinished⟩ : i < 3 ∧ s.threads[i]? ≠ some .exited := by simpa using hmain
    have hthree : s.threads.length = 3 := by simpa only [Main.Created, hpc] using h.created
    obtain ⟨hresource, hbarrier, hbarrier_lt, hpassed, -, -⟩ := h.counts
    have hholds := countP_holds_of_atRest hrest
    -- If a thread waited for the semaphore, all three permits would be taken in the barrier.
    have hwait : .sem_wait ∉ s.threads := by
      intro hmem
      have hzero := hthreads _ hmem
      have hzero : s.resource = 0 := by simpa [State.taskBlocked] using hzero
      omega
    have hsum := countP_passed_of_atRest hrest hwait
    have hall := List.countP_eq_length.mp (show s.threads.countP Task.passed = s.threads.length by omega)
    have hlt : i < s.threads.length := by omega
    have hmem := List.getElem_mem hlt
    apply hunfinished
    rw [List.getElem?_eq_getElem hlt]
    obtain hexited | hsem | hwaiting := hrest _ hmem
    · rw [hexited]
    · exact absurd (hall _ hmem) (by rw [hsem]; decide)
    · exact absurd (hall _ hmem) (by rw [hwaiting]; decide)
  | loop _ | lock _ | test _ | relock _ | unlock _ | create _ | returned =>
    rw [State.mainBlocked, hpc] at hmain
    cases hmain

end Three

section Strand

/-- Four threads are created. The first three use the resource and pass the barrier. When the
    first of them has left, the fourth enters, so that the count is three again. The other
    two leave, and `main` goes to sleep. -/
def strand : List Move :=
  List.replicate 20 Move.main ++
    List.replicate 6 (Move.thread 0) ++ List.replicate 6 (Move.thread 1) ++ List.replicate 6 (Move.thread 2) ++
    List.replicate 5 (Move.thread 0) ++ List.replicate 6 (Move.thread 3) ++
    List.replicate 5 (Move.thread 1) ++ List.replicate 5 (Move.thread 2) ++
    List.replicate 3 Move.main

/-- The fourth thread is alone in the barrier, and `set_lock` is never cleared. -/
def stranded : State where
  resource := 2
  barrier := 1
  threads_active := 1
  set_lock := true
  lock := none
  main := .cond_wait 4
  threads := [.exited, .exited, .exited, .waiting]

theorem run_strand : run (next 6) initial strand = some stranded := by
  decide +kernel

/-- `main` has not yet created `k` threads and is not about to test whether it has. -/
def State.creating (k : Nat) (s : State) : Bool :=
  match s.main with
  | .loop i => decide (i < k)
  | .join _ => false
  | _ => true

theorem next_creating {k n : Nat} (hk : k ≤ n) (hn : n ≤ num_threads) (s : State) (a : Move)
    (h : s.creating k = true) : next num_threads s a = next n s a := by
  cases a with
  | main =>
    simp only [next, main_next]
    cases hmain : s.main with
    | loop i =>
      rw [State.creating, hmain] at h
      have hi : i < k := by simpa using h
      dsimp only
      rw [if_pos (by omega), if_pos (by omega)]
    | join i =>
      rw [State.creating, hmain] at h
      cases h
    | lock _ | test _ | cond_wait _ | relock _ | unlock _ | create _ | returned => rfl
  | createFails | wakes | thread _ => rfl

theorem creating_strand :
    ∀ k, k < strand.length → ((run (next 6) initial (strand.take k)).all (State.creating 5)) = true := by
  decide +kernel

theorem reachable_stranded (hn : 6 ≤ num_threads) : Reachable (next num_threads) initial stranded :=
  ⟨strand, run_congr (next_creating (by decide) hn) creating_strand run_strand⟩

/-- The program can come to a state in which it is stuck exactly if it has more than three
    threads. -/
theorem never_stuck_iff {num_threads : Nat} (hpos : 0 < num_threads) (hthree : 3 ∣ num_threads) :
    (∀ s, Reachable (next num_threads) initial s → s.stuck num_threads = false) ↔ num_threads = 3 := by
  constructor
  · intro h
    by_contra hne
    have hstuck := h stranded (reachable_stranded (by omega))
    simp [State.stuck, State.mainBlocked, State.held, State.taskBlocked, stranded] at hstuck
  · rintro rfl s hs
    exact (Inv.of_reachable hs).not_stuck

theorem never_stuck_iff_three : 0 < 3 ∧ 3 ∣ 3 ∧
    ∀ s, Reachable (next 3) initial s → s.stuck 3 = false :=
  ⟨by decide, by decide, (never_stuck_iff (by decide) (by decide)).mpr rfl⟩

end Strand

section Forever

/-- `main` is asleep, or has woken up only to go back to sleep. -/
structure Dozing (num_threads : Nat) (threads : List Task) (s : State) : Prop where
  threads_eq : s.threads = threads
  blocked : ∀ t ∈ threads, t = .exited ∨ s.taskBlocked t = true
  main : (∃ i, s.main = .cond_wait i ∨ s.main = .relock i ∨ s.main = .test i) ∧ s.held = true ∨
    ∃ i, s.main = .join i ∧ i < num_threads ∧ threads[i]? ≠ some .exited

theorem Dozing.not_returned {threads : List Task} (h : Dozing num_threads threads s) : s.main ≠ .returned := by
  intro hmain
  obtain ⟨⟨i, hi⟩, -⟩ | ⟨i, hi, -⟩ := h.main
  · simp [hmain] at hi
  · simp [hmain] at hi

theorem thread_next_of_blocked {t : Task} (h : t = .exited ∨ s.taskBlocked t = true) (i : Nat) :
    thread_next s i t = none := by
  cases t with
  | exited | waiting => rfl
  | sem_wait => simpa [State.taskBlocked, thread_next] using h
  | _ => simp [State.taskBlocked] at h

theorem Dozing.step_ok {threads : List Task} (h : Dozing num_threads threads s) {a : Move}
    (hnext : next num_threads s a = some s') : Dozing num_threads threads s' := by
  obtain ⟨rfl, hblocked, hmain⟩ := h
  cases a with
  | thread i =>
    exfalso
    simp only [next] at hnext
    split at hnext
    · cases hnext
    · obtain ⟨t, ht, hnext⟩ := Option.bind_eq_some_iff.mp hnext
      rw [thread_next_of_blocked (hblocked t (List.mem_of_getElem? ht)) i] at hnext
      cases hnext
  | createFails =>
    exfalso
    simp only [next] at hnext
    obtain ⟨⟨i, hi | hi | hi⟩, -⟩ | ⟨i, hi, -⟩ := hmain <;> simp [hi] at hnext
  | wakes =>
    simp only [next] at hnext
    obtain ⟨⟨i, hi | hi | hi⟩, hheld⟩ | ⟨i, hi, -⟩ := hmain
    · rw [hi] at hnext
      cases hnext
      exact ⟨rfl, hblocked, .inl ⟨⟨i, .inr (.inl rfl)⟩, hheld⟩⟩
    all_goals simp [hi] at hnext
  | main =>
    simp only [next, main_next] at hnext
    obtain ⟨⟨i, hi | hi | hi⟩, hheld⟩ | ⟨i, hi, hlt, hunfinished⟩ := hmain
    · simp [hi] at hnext
    · rw [hi] at hnext
      dsimp only at hnext
      split at hnext
      · cases hnext
        exact ⟨rfl, hblocked, .inl ⟨⟨i, .inr (.inr rfl)⟩, hheld⟩⟩
      · cases hnext
    · rw [hi] at hnext
      simp only [hheld, if_true] at hnext
      cases hnext
      exact ⟨rfl, hblocked, .inl ⟨⟨i, .inl rfl⟩, hheld⟩⟩
    · simp [hi, hlt, hunfinished] at hnext

/-- A stuck program stays stuck: no thread moves again, and `main` never returns. -/
theorem stuck_forever (h : s.stuck num_threads = true) (hreach : Reachable (next num_threads) s s') :
    s'.threads = s.threads ∧ s'.main ≠ .returned := by
  have hdozing : Dozing num_threads s.threads s := by
    rw [State.stuck, Bool.and_eq_true, List.all_eq_true] at h
    obtain ⟨hmain, hthreads⟩ := h
    refine ⟨rfl, fun t ht => by simpa using hthreads t ht, ?_⟩
    rw [State.mainBlocked] at hmain
    split at hmain
    · rename_i i hpc
      exact .inl ⟨⟨i, .inl hpc⟩, hmain⟩
    · rename_i i hpc
      exact .inr ⟨i, hpc, by simpa using hmain⟩
    · cases hmain
  have hlast := hreach.invariant hdozing fun _ _ _ hs hnext => hs.step_ok hnext
  exact ⟨hlast.threads_eq, hlast.not_returned⟩

/-- With six threads there is a run after which `main` never returns. -/
theorem six_stranded : run (next 6) initial strand = some stranded ∧ stranded.stuck 6 = true ∧
    ∀ s, Reachable (next 6) stranded s → s.main ≠ .returned := by
  have hstuck : stranded.stuck 6 = true := by decide
  exact ⟨run_strand, hstuck, fun s hs => (stuck_forever hstuck hs).2⟩

end Forever

end cs444.prob1
