import Cs444.Concurrency1.Buffer
import Cs444.Lib.Interleaving
import Mathlib.Data.List.Perm.Basic

open interleaving

namespace cs444.concurrency1

section Model

def LIMITER : Nat := 20

/-- What the producer draws with `rdrand` for an element. -/
structure Draw where
  value : Int32
  wait_time : Int32

/-- The element of a draw. `abs` of the least number is that number. -/
def Draw.element (d : Draw) : Element where
  value := d.value
  wait_time := d.wait_time.abs % 9 + 2

/-- What the program does not choose: the draws of the producer, what is in `wait_time` of the consumer's
    element before anything is written there, and what is in the array at the start. -/
structure Input where
  draw : Nat → Draw
  wait_time : Nat → Int32
  array : Nat → Element

/-- Where `produce` is: at the head of its loop, or with an element before the operation of that name. -/
inductive Producer where
  | head
  | lock (e : Element)
  | insert (e : Element)
  | unlock
  | returned
deriving DecidableEq

/-- Where `consume` is. -/
inductive Consumer where
  | head
  | lock (e : Element)
  | remove (e : Element)
  | unlock (e : Element)
  | report (e : Element)
  | returned
deriving DecidableEq

/-- The mutex, the buffer and the two threads with their `step`s. `produced` has the elements that were
    given to `insert_b`, `refused` those that it did not take, and `consumed` what the consumer has
    reported. -/
structure State where
  buffer_mutex : Bool
  b : Buffer
  produce_step : Nat
  producer : Producer
  consume_step : Nat
  consumer : Consumer
  produced : List Element
  refused : List Element
  consumed : List Element

def initial (i : Input) : State where
  buffer_mutex := false
  b := init_b i.array 32
  produce_step := 0
  producer := .head
  consume_step := 0
  consumer := .head
  produced := []
  refused := []
  consumed := []

inductive Thread where
  | producer
  | consumer
deriving DecidableEq

def produce_next (i : Input) (s : State) : Option State :=
  match s.producer with
  | .head =>
    some { s with
      produce_step := s.produce_step + 1
      producer := if s.produce_step < LIMITER then .lock (i.draw s.produce_step).element else .returned }
  | .lock e => if s.buffer_mutex then none else some { s with buffer_mutex := true, producer := .insert e }
  | .insert e =>
    some { s with
      b := (insert_b s.b e).2
      produced := s.produced ++ [e]
      refused := if (insert_b s.b e).1 then s.refused else s.refused ++ [e]
      producer := .unlock }
  | .unlock => some { s with buffer_mutex := false, producer := .head }
  | .returned => none

/-- `consume`, which goes by the value of its element and not by what `remove_b` returns. -/
def consume_next (i : Input) (s : State) : Option State :=
  match s.consumer with
  | .head =>
    some { s with
      consume_step := s.consume_step + 1
      consumer := if s.consume_step < LIMITER then .lock ⟨-1, i.wait_time s.consume_step⟩ else .returned }
  | .lock e => if s.buffer_mutex then none else some { s with buffer_mutex := true, consumer := .remove e }
  | .remove e => some { s with b := (remove_b s.b e).2.1, consumer := .unlock (remove_b s.b e).2.2 }
  | .unlock e => some { s with buffer_mutex := false, consumer := .report e }
  | .report e =>
    some { s with consumed := if e.value ≠ -1 then s.consumed ++ [e] else s.consumed, consumer := .head }
  | .returned => none

def next (i : Input) (s : State) : Thread → Option State
  | .producer => produce_next i s
  | .consumer => consume_next i s

/-- The element that a move takes out of the buffer. -/
def removes (s : State) : Thread → Option Element
  | .producer => none
  | .consumer =>
    match s.consumer with
    | .remove e => if (remove_b s.b e).1 then some (remove_b s.b e).2.2 else none
    | _ => none

end Model

variable {i : Input} {s s' : State}

section Invariant

@[simp] def Producer.inside : Producer → Bool
  | .insert _ | .unlock => true
  | _ => false

@[simp] def Consumer.inside : Consumer → Bool
  | .remove _ | .unlock _ => true
  | _ => false

/-- The elements that the producer has and has not given to `insert_b` yet. -/
@[simp] def Producer.pending : Producer → List Element
  | .lock e | .insert e => [e]
  | _ => []

/-- The elements that the consumer has taken and is to report. -/
@[simp] def Consumer.held : Consumer → List Element
  | .unlock e | .report e => [e].filter (·.value ≠ -1)
  | _ => []

/-- What holds in every state, with the elements that were removed so far. -/
structure Inv (i : Input) (s : State) (removed : List Element) : Prop where
  lock : s.buffer_mutex.toNat = s.producer.inside.toNat + s.consumer.inside.toNat
  size : s.b.size = 32
  draws : s.produced ++ s.producer.pending = (List.range (min s.produce_step LIMITER)).map fun k => (i.draw k).element
  all : s.producer = .returned → LIMITER ≤ s.produce_step
  refused : s.refused = []
  kept : (s.b.contents ++ removed).Perm s.produced
  reported : s.consumed ++ s.consumer.held = removed.filter (·.value ≠ -1)
  blank : ∀ e, s.consumer = .lock e ∨ s.consumer = .remove e → e.value = -1

variable {removed : List Element}

theorem inv_initial (i : Input) : Inv i (initial i) [] where
  lock := rfl
  size := rfl
  draws := rfl
  all hp := absurd hp (by simp [initial])
  refused := rfl
  kept := .refl _
  reported := rfl
  blank e he := by simp [initial] at he

theorem Inv.length_produced (h : Inv i s removed) : s.produced.length + s.producer.pending.length ≤ LIMITER := by
  have hlength := congrArg List.length h.draws
  rw [List.length_append, List.length_map, List.length_range] at hlength
  rw [hlength]
  exact Nat.min_le_right _ _

/-- There is always room in the buffer. -/
theorem Inv.used_le (h : Inv i s removed) : s.b.used ≤ s.produced.length := by
  have hlength := h.kept.length_eq
  rw [List.length_append, Buffer.length_contents] at hlength
  omega

theorem Inv.used_le_size (h : Inv i s removed) : s.b.used ≤ s.b.size := by
  have hused := h.used_le
  have hlength := h.length_produced
  rw [h.size]
  rw [LIMITER] at hlength
  omega

/-- What was removed was drawn. -/
theorem Inv.drawn (h : Inv i s removed) {e : Element} (he : e ∈ removed) :
    ∃ k < LIMITER, (i.draw k).element = e := by
  have hproduced : e ∈ s.produced := h.kept.subset (List.mem_append_right _ he)
  have hdrawn := List.mem_append_left s.producer.pending hproduced
  rw [h.draws] at hdrawn
  obtain ⟨k, hk, hdraw⟩ := List.mem_map.mp hdrawn
  exact ⟨k, (List.mem_range.mp hk).trans_le (Nat.min_le_right _ _), hdraw⟩

theorem Inv.exclusive (h : Inv i s removed) : ¬ (s.producer.inside ∧ s.consumer.inside) := by
  rintro ⟨hp, hc⟩
  have hlock := h.lock
  have hone := Bool.toNat_le s.buffer_mutex
  rw [hp, hc, Bool.toNat_true] at hlock
  omega

theorem Inv.produce_next (h : Inv i s removed) (hnext : produce_next i s = some s') : Inv i s' removed := by
  have hlock := h.lock
  have hdraws := h.draws
  cases hp : s.producer with simp only [concurrency1.produce_next, hp] at hnext
  | head =>
    rw [hp] at hdraws
    simp only [Producer.pending, List.append_nil] at hdraws
    cases hnext
    refine ⟨?_, h.size, ?_, ?_, h.refused, h.kept, h.reported, h.blank⟩
    · rw [hp] at hlock
      dsimp only
      split <;> exact hlock
    · dsimp only
      rw [hdraws]
      split
      · rename_i hmore
        rw [Nat.min_eq_left hmore.le, Nat.min_eq_left hmore, List.range_succ, List.map_append]
        rfl
      · rename_i hdone
        rw [Nat.min_eq_right (by omega), Nat.min_eq_right (by omega)]
        simp
    · dsimp only
      split
      · simp
      · omega
  | lock e =>
    split at hnext
    · cases hnext
    · rename_i hfree
      cases hnext
      rw [hp] at hlock hdraws
      refine ⟨?_, h.size, hdraws, by simp, h.refused, h.kept, h.reported, h.blank⟩
      simp_all
  | insert e =>
    have hlength := h.length_produced
    have hused := h.used_le
    rw [hp] at hlock hdraws hlength
    simp only [Producer.pending, List.length_singleton, LIMITER] at hlength
    have hroom : s.b.used < s.b.size := by rw [h.size]; omega
    obtain ⟨b, hinsert, hsize, hcontents⟩ := insert_b_spec e hroom
    rw [hinsert] at hnext
    cases hnext
    refine ⟨hlock, hsize.trans h.size, ?_, by simp, h.refused, ?_, h.reported, h.blank⟩
    · simpa using hdraws
    · dsimp only
      rw [hcontents, List.append_assoc]
      have hswap : ([e] ++ removed).Perm (removed ++ [e]) := List.perm_append_comm
      refine (hswap.append_left s.b.contents).trans ?_
      rw [← List.append_assoc]
      exact h.kept.append_right [e]
  | unlock =>
    cases hnext
    rw [hp] at hlock hdraws
    have hone := Bool.toNat_le s.buffer_mutex
    refine ⟨?_, h.size, hdraws, by simp, h.refused, h.kept, h.reported, h.blank⟩
    simp only [Producer.inside, Bool.toNat_true, Bool.toNat_false] at hlock ⊢
    omega
  | returned => cases hnext

theorem Inv.consume_next (h : Inv i s removed) (hnext : consume_next i s = some s') :
    Inv i s' (removed ++ (removes s .consumer).toList) := by
  have hlock := h.lock
  have hreported := h.reported
  cases hp : s.consumer with simp only [concurrency1.consume_next, removes, hp] at hnext ⊢
  | head =>
    cases hnext
    rw [hp] at hlock hreported
    rw [Option.toList_none, List.append_nil]
    refine ⟨?_, h.size, h.draws, h.all, h.refused, h.kept, ?_, ?_⟩
    · dsimp only
      split <;> exact hlock
    · dsimp only
      split <;> exact hreported
    · intro e he
      dsimp only at he
      split at he <;> simp at he
      rw [← he]
  | lock e =>
    split at hnext
    · cases hnext
    · rename_i hfree
      cases hnext
      rw [hp] at hlock hreported
      rw [Option.toList_none, List.append_nil]
      refine ⟨?_, h.size, h.draws, h.all, h.refused, h.kept, hreported, fun e' he' => h.blank e' ?_⟩
      · simp_all
      · simp at he'
        rw [hp, he']
        exact .inl rfl
  | remove e =>
    have hblank := h.blank e (.inr hp)
    cases hnext
    rw [hp] at hlock hreported
    simp only [Consumer.held, List.append_nil] at hreported
    by_cases hempty : s.b.used = 0
    · rw [remove_b_empty e hempty]
      rw [if_neg Bool.false_ne_true, Option.toList_none, List.append_nil]
      refine ⟨hlock, h.size, h.draws, h.all, h.refused, h.kept, ?_, by simp⟩
      simp only [Consumer.held]
      rw [hreported]
      simp [hblank]
    · obtain ⟨b, last, hremove, hsize, hcontents⟩ := remove_b_spec e hempty
      rw [hremove, if_pos rfl, Option.toList_some]
      refine ⟨hlock, hsize.trans h.size, h.draws, h.all, h.refused, ?_, ?_, by simp⟩
      · refine .trans ?_ h.kept
        dsimp only
        rw [hcontents, List.append_assoc]
        exact List.perm_append_comm.append_left b.contents
      · dsimp only
        rw [Consumer.held, hreported, List.filter_append]
  | unlock e =>
    cases hnext
    rw [hp] at hlock hreported
    have hone := Bool.toNat_le s.buffer_mutex
    rw [Option.toList_none, List.append_nil]
    refine ⟨?_, h.size, h.draws, h.all, h.refused, h.kept, hreported, by simp⟩
    simp only [Consumer.inside, Bool.toNat_true, Bool.toNat_false] at hlock ⊢
    omega
  | report e =>
    cases hnext
    rw [hp] at hlock hreported
    rw [Option.toList_none, List.append_nil]
    refine ⟨hlock, h.size, h.draws, h.all, h.refused, h.kept, ?_, by simp⟩
    rw [← hreported]
    by_cases hvalue : e.value = -1 <;> simp [hvalue]
  | returned => cases hnext

theorem Inv.of_run {ms : List Thread} (h : run (next i) (initial i) ms = some s) :
    Inv i s (trace (next i) removes (initial i) ms) := by
  refine trace_invariant removes (I := Inv i) ?_ (inv_initial i) h
  intro s removed m s' hs hnext
  cases m with
  | producer =>
    have hsame := hs.produce_next hnext
    rwa [removes, Option.toList_none, List.append_nil]
  | consumer => exact hs.consume_next hnext

end Invariant

section End

variable {removed : List Element}

/-- Both threads have returned. -/
def Ended (s : State) : Prop := s.producer = .returned ∧ s.consumer = .returned

instance (s : State) : Decidable (Ended s) := inferInstanceAs (Decidable (_ ∧ _))

/-- What the consumer has reported and what is left in the buffer is what the producer has drawn. -/
def Conserved (i : Input) (s : State) : Prop :=
  (s.consumed ++ s.b.contents).Perm ((List.range LIMITER).map fun k => (i.draw k).element)

theorem Inv.produced_eq (h : Inv i s removed) (hended : Ended s) :
    s.produced = (List.range LIMITER).map fun k => (i.draw k).element := by
  have hdraws := h.draws
  rw [hended.1, Nat.min_eq_right (h.all hended.1)] at hdraws
  simpa using hdraws

/-- Nothing is lost just when nothing that was removed had the value by which the consumer tells that it has
    nothing. -/
theorem Inv.conserved_iff (h : Inv i s removed) (hended : Ended s) :
    Conserved i s ↔ ∀ e ∈ removed, e.value ≠ -1 := by
  have hreported := h.reported
  rw [hended.2] at hreported
  simp only [Consumer.held, List.append_nil] at hreported
  have hkept := h.kept
  rw [h.produced_eq hended] at hkept
  rw [Conserved, hreported]
  constructor
  · intro hconserved
    have hlength := (hconserved.trans hkept.symm).length_eq
    rw [List.length_append, List.length_append, Nat.add_comm] at hlength
    have hall := List.length_filter_eq_length_iff.mp (Nat.add_left_cancel hlength)
    simpa using hall
  · intro hnone
    have hall : removed.filter (·.value ≠ -1) = removed := List.filter_eq_self.mpr (by simpa using hnone)
    rw [hall]
    exact List.perm_append_comm.trans hkept

/-- How many moves a thread makes at most before it is at the head of its loop again, or has returned. -/
@[simp] def Producer.left : Producer → Nat
  | .lock _ => 4
  | .insert _ => 3
  | .unlock => 2
  | .head => 1
  | .returned => 0

@[simp] def Consumer.left : Consumer → Nat
  | .lock _ => 5
  | .remove _ => 4
  | .unlock _ => 3
  | .report _ => 2
  | .head => 1
  | .returned => 0

/-- How many moves there are at most. -/
def State.left (s : State) : Nat :=
  4 * (LIMITER - s.produce_step) + s.producer.left + (5 * (LIMITER - s.consume_step) + s.consumer.left)

theorem left_lt {m : Thread} (hnext : next i s m = some s') : s'.left < s.left := by
  rw [State.left, State.left]
  cases m with
  | producer =>
    cases hp : s.producer with simp only [next, produce_next, hp] at hnext
    | head =>
      cases hnext
      dsimp only
      split <;> simp only [Producer.left] <;> omega
    | lock e =>
      split at hnext
      · cases hnext
      · cases hnext
        simp
    | insert e | unlock =>
      cases hnext
      simp
    | returned => cases hnext
  | consumer =>
    cases hp : s.consumer with simp only [next, consume_next, hp] at hnext
    | head =>
      cases hnext
      dsimp only
      split <;> simp only [Consumer.left] <;> omega
    | lock e =>
      split at hnext
      · cases hnext
      · cases hnext
        simp
    | remove e | unlock e | report e =>
      cases hnext
      simp
    | returned => cases hnext

/-- The producer can move unless it has returned or waits for the mutex. -/
theorem produce_next_isSome (hreturned : s.producer ≠ .returned) (hfree : s.buffer_mutex = false ∨ s.producer.inside) :
    (produce_next i s).isSome := by
  cases hp : s.producer with simp_all [produce_next]

theorem consume_next_isSome (hreturned : s.consumer ≠ .returned) (hfree : s.buffer_mutex = false ∨ s.consumer.inside) :
    (consume_next i s).isSome := by
  cases hp : s.consumer with simp_all [consume_next]

/-- As long as not both threads have returned, one of them can move. -/
theorem Inv.progress (h : Inv i s removed) (hended : ¬ Ended s) : ∃ m, (next i s m).isSome := by
  have hlock := h.lock
  cases hmutex : s.buffer_mutex with
  | false =>
    by_cases hp : s.producer = .returned
    · exact ⟨.consumer, consume_next_isSome (fun hc => hended ⟨hp, hc⟩) (.inl hmutex)⟩
    · exact ⟨.producer, produce_next_isSome hp (.inl hmutex)⟩
  | true =>
    -- The thread that has the mutex does not wait.
    rw [hmutex, Bool.toNat_true] at hlock
    cases hp : s.producer.inside with
    | true => exact ⟨.producer, produce_next_isSome (fun hreturned => by simp [hreturned] at hp) (.inr hp)⟩
    | false =>
      rw [hp, Bool.toNat_false, Nat.zero_add] at hlock
      have hc : s.consumer.inside = true := Bool.toNat_eq_one.mp hlock.symm
      exact ⟨.consumer, consume_next_isSome (fun hreturned => by simp [hreturned] at hc) (.inr hc)⟩

/-- From every state of a run the threads can go on until both have returned. -/
theorem exists_end {ms : List Thread} (h : run (next i) (initial i) ms = some s) :
    ∃ ms' s', run (next i) s ms' = some s' ∧ Ended s' := by
  refine exists_run_to_end (I := Reachable (next i) (initial i)) State.left ?_ ⟨ms, h⟩
  rintro s ⟨ms, hrun⟩ hended
  obtain ⟨m, hmove⟩ := (Inv.of_run hrun).progress hended
  obtain ⟨s', hnext⟩ := Option.isSome_iff_exists.mp hmove
  exact ⟨m, s', hnext, Reachable.step ⟨ms, hrun⟩ hnext, left_lt hnext⟩

end End

section Lost

/-- The producer has made `n` rounds and the consumer has not started. -/
structure Filled (i : Input) (n : Nat) (s : State) : Prop where
  mutex : s.buffer_mutex = false
  producer : s.producer = .head
  produce_step : s.produce_step = n
  consumer : s.consumer = .head
  consume_step : s.consume_step = 0
  size : s.b.size = 32
  contents : s.b.contents = (List.range n).map fun k => (i.draw k).element

theorem Filled.round {n : Nat} (h : Filled i n s) (hn : n < LIMITER) :
    ∃ s', run (next i) s (List.replicate 4 .producer) = some s' ∧ Filled i (n + 1) s' := by
  have hused : s.b.used = n := by
    rw [← Buffer.length_contents, h.contents, List.length_map, List.length_range]
  have hroom : s.b.used < s.b.size := by
    rw [hused, h.size]
    exact hn.trans (by decide)
  obtain ⟨b, hinsert, hsize, hcontents⟩ := insert_b_spec (i.draw n).element hroom
  refine ⟨_, by simp [List.replicate, run, next, produce_next, h.producer, h.produce_step, hn, h.mutex]; rfl, ?_⟩
  refine ⟨rfl, rfl, rfl, h.consumer, h.consume_step, ?_, ?_⟩
  · simp only [hinsert]
    exact hsize.trans h.size
  · simp only [hinsert]
    rw [hcontents, h.contents, List.range_succ, List.map_append]
    rfl

theorem exists_filled (i : Input) {n : Nat} (hn : n ≤ LIMITER) :
    ∃ ms s, run (next i) (initial i) ms = some s ∧ Filled i n s := by
  induction n with
  | zero => exact ⟨[], initial i, rfl, rfl, rfl, rfl, rfl, rfl, rfl, rfl⟩
  | succ n ih =>
    obtain ⟨ms, s, hrun, hs⟩ := ih (Nat.le_of_succ_le hn)
    obtain ⟨s', hround, hs'⟩ := hs.round hn
    refine ⟨ms ++ List.replicate 4 .producer, s', ?_, hs'⟩
    rw [run_append, hrun]
    exact hround

/-- The consumer takes what was inserted last. -/
theorem Filled.take {k : Nat} (h : Filled i (k + 1) s) :
    ∃ s', run (next i) s (List.replicate 3 .consumer) = some s' ∧
      trace (next i) removes s (List.replicate 3 .consumer) = [(i.draw k).element] := by
  have hused : s.b.used ≠ 0 := by
    rw [← Buffer.length_contents, h.contents, List.length_map, List.length_range]
    exact Nat.succ_ne_zero k
  obtain ⟨b, last, hremove, -, hcontents⟩ := remove_b_spec ⟨-1, i.wait_time 0⟩ hused
  have hlast : last = (i.draw k).element := by
    rw [h.contents, List.range_succ, List.map_append] at hcontents
    have hends := (List.append_inj' hcontents rfl).2
    exact (List.singleton_inj.mp hends).symm
  have hstart : (0 : Nat) < LIMITER := by decide
  constructor
  · constructor
    · simp [List.replicate, run, next, consume_next, h.consumer, h.consume_step, hstart, h.mutex]
      rfl
    · simp [List.replicate, trace, next, consume_next, removes, h.consumer, h.consume_step, hstart, h.mutex, hremove, hlast]

/-- Whatever the producer draws, there is a run in which the consumer takes that element. -/
theorem exists_taken (i : Input) {k : Nat} (hk : k < LIMITER) :
    ∃ ms s, run (next i) (initial i) ms = some s ∧ Ended s ∧
      (i.draw k).element ∈ trace (next i) removes (initial i) ms := by
  obtain ⟨ms₁, s₁, hrun₁, hfilled⟩ := exists_filled i hk
  obtain ⟨s₂, hrun₂, htrace⟩ := hfilled.take
  have hrun : run (next i) (initial i) (ms₁ ++ List.replicate 3 .consumer) = some s₂ := by
    rw [run_append, hrun₁]
    exact hrun₂
  obtain ⟨ms₃, s₃, hrun₃, hended⟩ := exists_end hrun
  refine ⟨ms₁ ++ List.replicate 3 .consumer ++ ms₃, s₃, ?_, hended, ?_⟩
  · rw [run_append, hrun]
    exact hrun₃
  · rw [trace_append removes hrun, trace_append removes hrun₁, htrace]
    simp

end Lost

/-- The buffer takes every element and stays within its size. At the end an element is lost just when one
    of value −1 was removed, for the consumer goes by the value and takes it for none. So no interleaving
    loses one just when no such value is drawn. -/
theorem consumed_iff (i : Input) :
    (∀ ms s, run (next i) (initial i) ms = some s →
      s.refused = [] ∧ s.b.used ≤ s.b.size ∧ ¬ (s.producer.inside ∧ s.consumer.inside)) ∧
    (∀ ms s, run (next i) (initial i) ms = some s → Ended s →
      (Conserved i s ↔ ∀ e ∈ trace (next i) removes (initial i) ms, e.value ≠ -1)) ∧
    ((∀ ms s, run (next i) (initial i) ms = some s → Ended s → Conserved i s) ↔
      ∀ k < LIMITER, (i.draw k).value ≠ -1) := by
  refine ⟨?_, ?_, ?_⟩
  · intro ms s hrun
    have h := Inv.of_run hrun
    exact ⟨h.refused, h.used_le_size, h.exclusive⟩
  · intro ms s hrun hended
    exact (Inv.of_run hrun).conserved_iff hended
  · constructor
    · intro hall k hk hvalue
      obtain ⟨ms, s, hrun, hended, htaken⟩ := exists_taken i hk
      exact ((Inv.of_run hrun).conserved_iff hended).mp (hall ms s hrun hended) _ htaken hvalue
    · intro hdraws ms s hrun hended
      have h := Inv.of_run hrun
      refine (h.conserved_iff hended).mpr fun e he => ?_
      obtain ⟨k, hk, rfl⟩ := h.drawn he
      exact hdraws k hk

/-- A first draw, and 7 after it. -/
def firstDraw (value : Int32) : Input where
  draw k := ⟨if k = 0 then value else 7, Int32.ofNat k⟩
  wait_time _ := 0
  array _ := ⟨0, 0⟩

/-- The consumer makes all its rounds after the first of the producer. -/
def afterFirst : List Thread :=
  List.replicate 4 .producer ++ List.replicate 101 .consumer ++ List.replicate 77 .producer

theorem run_afterFirst (value : Int32) (consumed : List Element)
    (h : (run (next (firstDraw value)) (initial (firstDraw value)) afterFirst).map
      (fun s => (decide (Ended s), s.consumed, s.b.used)) = some (true, consumed, 19)) :
    ∃ s, run (next (firstDraw value)) (initial (firstDraw value)) afterFirst = some s ∧ Ended s ∧
      s.consumed = consumed ∧ s.b.used = 19 := by
  obtain ⟨s, hrun, hs⟩ := Option.map_eq_some_iff.mp h
  simp only [Prod.mk.injEq, decide_eq_true_eq] at hs
  exact ⟨s, hrun, hs⟩

/-- The element of value −1 is in the buffer, is removed and is not reported. -/
theorem consume_loses_minus_one :
    ∃ s, run (next (firstDraw (-1))) (initial (firstDraw (-1))) afterFirst = some s ∧ Ended s ∧
      s.consumed = [] ∧ s.b.used = 19 ∧ ¬ Conserved (firstDraw (-1)) s := by
  obtain ⟨s, hrun, hended, hconsumed, hused⟩ := run_afterFirst (-1) [] (by decide +kernel)
  refine ⟨s, hrun, hended, hconsumed, hused, fun hconserved => ?_⟩
  have hlength := hconserved.length_eq
  rw [hconsumed, List.nil_append, Buffer.length_contents, hused, List.length_map, List.length_range] at hlength
  exact absurd hlength (by decide)

theorem consumed_iff_firstDraw :
    (∃ s, run (next (firstDraw 3)) (initial (firstDraw 3)) afterFirst = some s ∧ Ended s ∧ s.refused = [] ∧
      s.consumed = [⟨3, 2⟩] ∧ Conserved (firstDraw 3) s) ∧
    ¬ ∀ ms s, run (next (firstDraw (-1))) (initial (firstDraw (-1))) ms = some s → Ended s →
      Conserved (firstDraw (-1)) s := by
  have hdraws : ∀ k < LIMITER, ((firstDraw 3).draw k).value ≠ -1 := by decide
  obtain ⟨s, hrun, hended, hconsumed, -⟩ := run_afterFirst 3 [⟨3, 2⟩] (by decide +kernel)
  obtain ⟨hevery, -, hiff⟩ := consumed_iff (firstDraw 3)
  refine ⟨⟨s, hrun, hended, (hevery _ s hrun).1, hconsumed, hiff.mpr hdraws _ s hrun hended⟩, fun hall => ?_⟩
  exact (consumed_iff (firstDraw (-1))).2.2.mp hall 0 (by decide) (by decide)

end cs444.concurrency1
