import Cs444.Lib.Interleaving

open interleaving

open Function

namespace cs444.concurrency4

/-- Where `main` is once it has created the threads: joining a customer, or closing the shop. -/
inductive Main where
  | join_customer (i : Nat)
  | end_of_day
  | nap_post
  | join_barber
  | exited
deriving DecidableEq

/-- Where the barber is: at the head of the loop in `barber_proc`, at `sem_wait(&nap_time)`, or in
    `cut_hair`. -/
inductive Barber where
  | loop
  | nap_wait
  | test
  | cutting
  | progress_post
  | closing
  | returned
deriving DecidableEq

/-- Where a customer is in `get_hair_cut`: at the operation of that name on `waiting_room`,
    `barber_chair`, `nap_time` or `in_progress`. -/
inductive Customer where
  | room_wait
  | chair_wait
  | room_post
  | nap_post
  | progress_wait
  | chair_post
  | returned
deriving DecidableEq

/-- The globals of the program, and where its threads are, with `N` customers. -/
structure State (N : Nat) where
  waiting_room : Nat
  barber_chair : Nat
  in_progress : Nat
  nap_time : Nat
  end_of_day : Bool
  main : Main
  barber : Barber
  customer : Fin N → Customer

/-- After `main` has created the threads; one that is not created yet has not moved. -/
def initial (num_chairs N : Nat) : State N where
  waiting_room := num_chairs
  barber_chair := 1
  in_progress := 0
  nap_time := 0
  end_of_day := false
  main := .join_customer 0
  barber := .loop
  customer _ := .room_wait

inductive Move (N : Nat) where
  | main
  | barber
  | customer (num : Fin N)
deriving DecidableEq

variable {N : Nat}

def main_next (s : State N) : Option (State N) :=
  match s.main with
  | .join_customer i =>
    if h : i < N then
      if s.customer ⟨i, h⟩ = .returned then some { s with main := .join_customer (i + 1) } else none
    else some { s with main := .end_of_day }
  | .end_of_day => some { s with end_of_day := true, main := .nap_post }
  | .nap_post => some { s with nap_time := s.nap_time + 1, main := .join_barber }
  | .join_barber => if s.barber = .returned then some { s with main := .exited } else none
  | .exited => none

/-- `barber_proc` with `cut_hair`. -/
def barber_next (s : State N) : Option (State N) :=
  match s.barber with
  | .loop => some { s with barber := if s.end_of_day then .returned else .nap_wait }
  | .nap_wait =>
    if 0 < s.nap_time then some { s with nap_time := s.nap_time - 1, barber := .test } else none
  | .test => some { s with barber := if s.end_of_day then .closing else .cutting }
  | .cutting => some { s with barber := .progress_post }
  | .progress_post => some { s with in_progress := s.in_progress + 1, barber := .loop }
  | .closing => some { s with barber := .loop }
  | .returned => none

/-- `customer_proc` with `get_hair_cut`. -/
def customer_next (s : State N) (num : Fin N) : Option (State N) :=
  match s.customer num with
  | .room_wait =>
    if 0 < s.waiting_room then
      some { s with waiting_room := s.waiting_room - 1, customer := update s.customer num .chair_wait }
    else none
  | .chair_wait =>
    if 0 < s.barber_chair then
      some { s with barber_chair := s.barber_chair - 1, customer := update s.customer num .room_post }
    else none
  | .room_post =>
    some { s with waiting_room := s.waiting_room + 1, customer := update s.customer num .nap_post }
  | .nap_post =>
    some { s with nap_time := s.nap_time + 1, customer := update s.customer num .progress_wait }
  | .progress_wait =>
    if 0 < s.in_progress then
      some { s with in_progress := s.in_progress - 1, customer := update s.customer num .chair_post }
    else none
  | .chair_post =>
    some { s with barber_chair := s.barber_chair + 1, customer := update s.customer num .returned }
  | .returned => none

def next (s : State N) : Move N → Option (State N)
  | .main => main_next s
  | .barber => barber_next s
  | .customer num => customer_next s num

/-- The customers that sit in the chair and wait, or are about to wait, for the end of the
    haircut. -/
def State.seated (s : State N) : List (Fin N) :=
  (List.finRange N).filter fun num => s.customer num = .progress_wait

/-- The barber begins a haircut, with these customers seated, or a customer has waited for the end
    of one. -/
inductive Event (N : Nat) where
  | cut (seated : List (Fin N))
  | finished (num : Fin N)
deriving DecidableEq

def event (s : State N) : Move N → Option (Event N)
  | .main => none
  | .barber => if s.barber = .test ∧ s.end_of_day = false then some (.cut s.seated) else none
  | .customer num => if s.customer num = .progress_wait then some (.finished num) else none

/-- The haircuts so far, each with the customers seated at it. -/
def haircuts (es : List (Event N)) : List (List (Fin N)) :=
  es.filterMap fun
    | .cut seated => some seated
    | .finished _ => none

/-- The customers that have waited for the end of a haircut, in that order. -/
def finished (es : List (Event N)) : List (Fin N) :=
  es.filterMap fun
    | .cut _ => none
    | .finished num => some num

end cs444.concurrency4
