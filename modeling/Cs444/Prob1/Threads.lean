import Cs444.Lib.Interleaving

open interleaving

namespace cs444.prob1

/-- Where a thread is in `thread_task`: at the call of that name, or in the middle of the
    critical section that enters or leaves the resource. `waiting` is inside
    `pthread_barrier_wait`. -/
inductive Task where
  | sem_wait
  | lock_enter
  | enter
  | signal
  | unlock_enter
  | barrier_wait
  | waiting
  | lock_leave
  | leave
  | broadcast
  | unlock_leave
  | sem_post
  | exited
deriving DecidableEq, Repr

/-- Where `main` is, with the value of its loop variable. `cond_wait` is asleep inside
    `pthread_cond_wait`, `relock` is inside it and woken. -/
inductive Main where
  | loop (i : Nat)
  | lock (i : Nat)
  | test (i : Nat)
  | cond_wait (i : Nat)
  | relock (i : Nat)
  | unlock (i : Nat)
  | create (i : Nat)
  | join (i : Nat)
  | returned
deriving DecidableEq, Repr

/-- Who holds the mutex. -/
inductive Owner where
  | main
  | thread (i : Nat)
deriving DecidableEq, Repr

/-- The globals of the program, with the number of threads inside the barrier, and where
    `main` and the threads created so far are. -/
structure State where
  resource : Nat
  barrier : Nat
  threads_active : Int
  set_lock : Bool
  lock : Option Owner
  main : Main
  threads : List Task
deriving DecidableEq, Repr

def initial : State where
  resource := 3
  barrier := 0
  threads_active := 0
  set_lock := false
  lock := none
  main := .loop 0
  threads := []

/-- One step of `main`, of `main` with a failing `pthread_create`, of a thread, or a
    spurious wake-up from the condition variable. -/
inductive Move where
  | main
  | createFails
  | wakes
  | thread (i : Nat)
deriving DecidableEq, Repr

/-- The condition on which `main` waits. -/
def State.held (s : State) : Bool :=
  s.set_lock || decide (s.threads_active ≥ 3)

/-- `pthread_cond_signal` and `pthread_cond_broadcast`; nobody but `main` waits. -/
def Main.woken : Main → Main
  | .cond_wait i => .relock i
  | m => m

/-- `main` with `num_threads` threads. -/
def main_next (num_threads : Nat) (s : State) : Option State :=
  match s.main with
  | .loop i => if i < num_threads then some { s with main := .lock i } else some { s with main := .join 0 }
  | .lock i => if s.lock = none then some { s with lock := some .main, main := .test i } else none
  | .test i =>
    if s.held then some { s with lock := none, main := .cond_wait i } else some { s with main := .unlock i }
  | .cond_wait _ => none
  | .relock i => if s.lock = none then some { s with lock := some .main, main := .test i } else none
  | .unlock i => some { s with lock := none, main := .create i }
  | .create i => some { s with threads := s.threads ++ [.sem_wait], main := .loop (i + 1) }
  | .join i =>
    if i < num_threads then
      if s.threads[i]? = some .exited then some { s with main := .join (i + 1) } else none
    else some { s with main := .returned }
  | .returned => none

/-- Threads in the barrier when the last one arrives. -/
def Task.released : Task → Task
  | .waiting => .lock_leave
  | t => t

/-- `thread_task`. -/
def thread_next (s : State) (i : Nat) : Task → Option State
  | .sem_wait =>
    if 0 < s.resource then
      some { s with resource := s.resource - 1, threads := s.threads.set i .lock_enter }
    else none
  | .lock_enter =>
    if s.lock = none then some { s with lock := some (.thread i), threads := s.threads.set i .enter } else none
  | .enter =>
    let threads_active := s.threads_active + 1
    some { s with
      threads_active
      set_lock := if threads_active ≥ 3 then true else s.set_lock
      threads := s.threads.set i .signal }
  | .signal => some { s with main := s.main.woken, threads := s.threads.set i .unlock_enter }
  | .unlock_enter => some { s with lock := none, threads := s.threads.set i .barrier_wait }
  | .barrier_wait =>
    if s.barrier + 1 = 3 then
      some { s with barrier := 0, threads := (s.threads.set i .waiting).map Task.released }
    else some { s with barrier := s.barrier + 1, threads := s.threads.set i .waiting }
  | .waiting => none
  | .lock_leave =>
    if s.lock = none then some { s with lock := some (.thread i), threads := s.threads.set i .leave } else none
  | .leave =>
    let threads_active := s.threads_active - 1
    some { s with
      threads_active
      set_lock := if threads_active = 0 then false else s.set_lock
      threads := s.threads.set i .broadcast }
  | .broadcast => some { s with main := s.main.woken, threads := s.threads.set i .unlock_leave }
  | .unlock_leave => some { s with lock := none, threads := s.threads.set i .sem_post }
  | .sem_post => some { s with resource := s.resource + 1, threads := s.threads.set i .exited }
  | .exited => none

/-- One move of the program. When `main` returns or exits, the process is over. -/
def next (num_threads : Nat) (s : State) : Move → Option State
  | .main => main_next num_threads s
  | .createFails =>
    match s.main with
    | .create _ => some { s with main := .returned }
    | _ => none
  | .wakes =>
    match s.main with
    | .cond_wait i => some { s with main := .relock i }
    | _ => none
  | .thread i => if s.main = .returned then none else s.threads[i]?.bind (thread_next s i)

/-- `main` is asleep on the condition variable with its condition holding, or joins a thread
    that has not exited. -/
def State.mainBlocked (num_threads : Nat) (s : State) : Bool :=
  match s.main with
  | .cond_wait _ => s.held
  | .join i => decide (i < num_threads) && decide (s.threads[i]? ≠ some .exited)
  | _ => false

/-- A thread waits for the semaphore or in the barrier. -/
def State.taskBlocked (s : State) : Task → Bool
  | .sem_wait => decide (s.resource = 0)
  | .waiting => true
  | _ => false

/-- `main` has not returned, and it and every thread that has not exited are blocked. -/
def State.stuck (num_threads : Nat) (s : State) : Bool :=
  s.mainBlocked num_threads && s.threads.all fun t => decide (t = .exited) || s.taskBlocked t

end cs444.prob1
