import Cs444.Lib.Interleaving
import Cs444.Prob2.Set

open interleaving

open Function

namespace cs444.prob2

abbrev NUM_ELVES_PER_GROUP : Nat := 3

/-- Where the thread of Santa is. `busy_wait` and `busy_signal` are the critical section at the
    top of the loop; `prepare_*` are in `prepare_sleigh`; `help_*`, `take_*` and `line_signal` are
    in `help_elves`, with the loop variable and the elf that was taken. -/
inductive Santa (E : Nat) where
  | busy_wait
  | busy_signal
  | sleep_wait
  | test_reindeer
  | assign_reindeer
  | prepare_wait
  | prepare_signal
  | lock_busy
  | lock_sleep
  | test_elves
  | help_wait
  | help_counter_wait
  | help_assign
  | help_counter_signal
  | help_mutex_wait
  | take_wait (i : Fin NUM_ELVES_PER_GROUP)
  | take_search (i : Fin NUM_ELVES_PER_GROUP)
  | take_signal (i : Fin NUM_ELVES_PER_GROUP) (elf : Fin E)
  | line_signal (i : Fin NUM_ELVES_PER_GROUP) (elf : Fin E)
  | help_mutex_signal
deriving DecidableEq

/-- Where an elf is. `insert_wait`, `insert` and `insert_signal` are in `set_insert`; from
    `counter_wait` on it is in `get_help`. -/
inductive Elf where
  | counting_wait
  | mutex_wait
  | insert_wait
  | insert
  | insert_signal
  | test
  | wake
  | mutex_signal
  | line_wait
  | counter_wait
  | decrement
  | busy_signal
  | counting_signal
  | counter_signal
deriving DecidableEq

/-- Where a reindeer is. `exit` has called `exit`; `hitch_*` and `decrement` are the second
    critical section. -/
inductive Reindeer where
  | counter_wait
  | increment
  | counter_signal
  | test
  | wake
  | counting_wait
  | hitch_wait
  | decrement
  | exit
  | hitch_signal
  | returned
deriving DecidableEq

/-- The globals of the program and where its threads are, for `E` in place of `NUM_ELVES` and `R`
    in place of `NUM_REINDEER`. -/
structure State (E R : Nat) where
  santa_busy_mutex : Nat
  santa_sleep_mutex : Nat
  reindeer_counting_sem : Nat
  reindeer_counter_lock : Nat
  num_reindeer_waiting : Int
  elves_waiting : set_t E
  elf_counting_sem : Nat
  elf_mutex : Nat
  elf_counter_lock : Nat
  num_elves_being_helped : Int
  elf_line_set : Fin E → Nat
  santa : Santa E
  elf : Fin E → Elf
  reindeer : Fin R → Reindeer

/-- After `main` has initialised everything. A thread that is not created yet has not moved. -/
def initial (E R : Nat) : State E R where
  santa_busy_mutex := 1
  santa_sleep_mutex := 0
  reindeer_counting_sem := 0
  reindeer_counter_lock := 1
  num_reindeer_waiting := 0
  elves_waiting := set_alloc E
  elf_counting_sem := NUM_ELVES_PER_GROUP
  elf_mutex := 1
  elf_counter_lock := 1
  num_elves_being_helped := 0
  elf_line_set _ := 0
  santa := .busy_wait
  elf _ := .counting_wait
  reindeer _ := .counter_wait

/-- One step of a thread. `draw` is Santa drawing a random item in `set_take`. -/
inductive Move (E R : Nat) where
  | santa
  | draw (item : Fin E)
  | elf (id : Fin E)
  | reindeer (id : Fin R)
deriving DecidableEq

variable {E R : Nat}

/-- The head of the loop in `help_elves`. -/
def take_loop (i : Nat) : Santa E :=
  if h : i < NUM_ELVES_PER_GROUP then .take_wait ⟨i, h⟩ else .help_mutex_signal

/-- `santa` with `help_elves` and `prepare_sleigh`. -/
def santa_next (s : State E R) : Option (State E R) :=
  match s.santa with
  | .busy_wait =>
    (sem_wait s.santa_busy_mutex).map fun value => { s with santa_busy_mutex := value, santa := .busy_signal }
  | .busy_signal =>
    (sem_signal s.santa_busy_mutex).map fun value => { s with santa_busy_mutex := value, santa := .sleep_wait }
  | .sleep_wait =>
    (sem_wait s.santa_sleep_mutex).map fun value => { s with santa_sleep_mutex := value, santa := .test_reindeer }
  | .test_reindeer =>
    if R ≤ s.num_reindeer_waiting then some { s with santa := .assign_reindeer }
    else some { s with santa := .test_elves }
  | .assign_reindeer => some { s with num_reindeer_waiting := R, santa := .prepare_wait }
  | .prepare_wait =>
    (sem_wait s.santa_busy_mutex).map fun value => { s with santa_busy_mutex := value, santa := .prepare_signal }
  | .prepare_signal =>
    (sem_signal_ntimes s.reindeer_counting_sem R).map fun value =>
      { s with reindeer_counting_sem := value, santa := .lock_busy }
  | .lock_busy =>
    (sem_wait s.santa_busy_mutex).map fun value => { s with santa_busy_mutex := value, santa := .lock_sleep }
  | .lock_sleep =>
    (sem_wait s.santa_sleep_mutex).map fun value => { s with santa_sleep_mutex := value, santa := .busy_wait }
  | .test_elves =>
    if 3 ≤ set_cardinality s.elves_waiting then some { s with santa := .help_wait }
    else some { s with santa := .busy_wait }
  | .help_wait =>
    (sem_wait s.santa_busy_mutex).map fun value => { s with santa_busy_mutex := value, santa := .help_counter_wait }
  | .help_counter_wait =>
    (sem_wait s.elf_counter_lock).map fun value => { s with elf_counter_lock := value, santa := .help_assign }
  | .help_assign =>
    some { s with num_elves_being_helped := NUM_ELVES_PER_GROUP, santa := .help_counter_signal }
  | .help_counter_signal =>
    (sem_signal s.elf_counter_lock).map fun value => { s with elf_counter_lock := value, santa := .help_mutex_wait }
  | .help_mutex_wait =>
    (sem_wait s.elf_mutex).map fun value => { s with elf_mutex := value, santa := take_loop 0 }
  | .take_wait i =>
    (sem_wait s.elves_waiting.write_lock).map fun value =>
      { s with elves_waiting := { s.elves_waiting with write_lock := value }, santa := .take_search i }
  | .take_search _ => none
  | .take_signal i elf =>
    (sem_signal s.elves_waiting.write_lock).map fun value =>
      { s with elves_waiting := { s.elves_waiting with write_lock := value }, santa := .line_signal i elf }
  | .line_signal i elf =>
    (sem_signal (s.elf_line_set elf)).map fun value =>
      { s with elf_line_set := update s.elf_line_set elf value, santa := take_loop (i + 1) }
  | .help_mutex_signal =>
    (sem_signal s.elf_mutex).map fun value => { s with elf_mutex := value, santa := .busy_wait }

/-- The search in `set_take`. -/
def draw_next (s : State E R) (item : Fin E) : Option (State E R) :=
  match s.santa with
  | .take_search i =>
    match set_take s.elves_waiting item with
    | some elves_waiting => some { s with elves_waiting, santa := .take_signal i item }
    | none => some s
  | _ => none

/-- `elf` with `get_help`. -/
def elf_next (s : State E R) (id : Fin E) : Option (State E R) :=
  match s.elf id with
  | .counting_wait =>
    (sem_wait s.elf_counting_sem).map fun value =>
      { s with elf_counting_sem := value, elf := update s.elf id .mutex_wait }
  | .mutex_wait =>
    (sem_wait s.elf_mutex).map fun value =>
      { s with elf_mutex := value, elf := update s.elf id .insert_wait }
  | .insert_wait =>
    (sem_wait s.elves_waiting.write_lock).map fun value =>
      { s with
        elves_waiting := { s.elves_waiting with write_lock := value }
        elf := update s.elf id .insert }
  | .insert =>
    some { s with
      elves_waiting := set_insert s.elves_waiting id
      elf := update s.elf id .insert_signal }
  | .insert_signal =>
    (sem_signal s.elves_waiting.write_lock).map fun value =>
      { s with
        elves_waiting := { s.elves_waiting with write_lock := value }
        elf := update s.elf id .test }
  | .test =>
    if NUM_ELVES_PER_GROUP = set_cardinality s.elves_waiting then
      some { s with elf := update s.elf id .wake }
    else some { s with elf := update s.elf id .mutex_signal }
  | .wake =>
    (sem_signal s.santa_sleep_mutex).map fun value =>
      { s with santa_sleep_mutex := value, elf := update s.elf id .mutex_signal }
  | .mutex_signal =>
    (sem_signal s.elf_mutex).map fun value =>
      { s with elf_mutex := value, elf := update s.elf id .line_wait }
  | .line_wait =>
    (sem_wait (s.elf_line_set id)).map fun value =>
      { s with
        elf_line_set := update s.elf_line_set id value
        elf := update s.elf id .counter_wait }
  | .counter_wait =>
    (sem_wait s.elf_counter_lock).map fun value =>
      { s with elf_counter_lock := value, elf := update s.elf id .decrement }
  | .decrement =>
    let num_elves_being_helped := s.num_elves_being_helped - 1
    some { s with
      num_elves_being_helped
      elf := update s.elf id (if num_elves_being_helped = 0 then .busy_signal else .counter_signal) }
  | .busy_signal =>
    (sem_signal s.santa_busy_mutex).map fun value =>
      { s with santa_busy_mutex := value, elf := update s.elf id .counting_signal }
  | .counting_signal =>
    (sem_signal_ntimes s.elf_counting_sem NUM_ELVES_PER_GROUP).map fun value =>
      { s with elf_counting_sem := value, elf := update s.elf id .counter_signal }
  | .counter_signal =>
    (sem_signal s.elf_counter_lock).map fun value =>
      { s with elf_counter_lock := value, elf := update s.elf id .counting_wait }

/-- `reindeer`. When one has called `exit`, the others may run on until the process is gone. -/
def reindeer_next (s : State E R) (id : Fin R) : Option (State E R) :=
  match s.reindeer id with
  | .counter_wait =>
    (sem_wait s.reindeer_counter_lock).map fun value =>
      { s with reindeer_counter_lock := value, reindeer := update s.reindeer id .increment }
  | .increment =>
    some { s with
      num_reindeer_waiting := s.num_reindeer_waiting + 1
      reindeer := update s.reindeer id .counter_signal }
  | .counter_signal =>
    (sem_signal s.reindeer_counter_lock).map fun value =>
      { s with reindeer_counter_lock := value, reindeer := update s.reindeer id .test }
  | .test =>
    if R ≤ s.num_reindeer_waiting then some { s with reindeer := update s.reindeer id .wake }
    else some { s with reindeer := update s.reindeer id .counting_wait }
  | .wake =>
    (sem_signal s.santa_sleep_mutex).map fun value =>
      { s with santa_sleep_mutex := value, reindeer := update s.reindeer id .counting_wait }
  | .counting_wait =>
    (sem_wait s.reindeer_counting_sem).map fun value =>
      { s with reindeer_counting_sem := value, reindeer := update s.reindeer id .hitch_wait }
  | .hitch_wait =>
    (sem_wait s.reindeer_counter_lock).map fun value =>
      { s with reindeer_counter_lock := value, reindeer := update s.reindeer id .decrement }
  | .decrement =>
    let num_reindeer_waiting := s.num_reindeer_waiting - 1
    some { s with
      num_reindeer_waiting
      reindeer := update s.reindeer id (if num_reindeer_waiting = 0 then .exit else .hitch_signal) }
  | .exit => none
  | .hitch_signal =>
    (sem_signal s.reindeer_counter_lock).map fun value =>
      { s with reindeer_counter_lock := value, reindeer := update s.reindeer id .returned }
  | .returned => none

def next (s : State E R) : Move E R → Option (State E R)
  | .santa => santa_next s
  | .draw item => draw_next s item
  | .elf id => elf_next s id
  | .reindeer id => reindeer_next s id

end cs444.prob2
