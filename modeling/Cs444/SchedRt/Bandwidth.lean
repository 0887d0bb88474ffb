import Cs444.SchedRt.Model

open Function

namespace cs444.sched_rt

/-- What a `u64` holds after arithmetic with this result. -/
def wrap_u64 (x : Int) : Nat := (x % 2 ^ 64).toNat

/-- What an `s64` holds after arithmetic with this result. -/
def wrap_s64 (x : Int) : Int := x.bmod (2 ^ 64)

def div_u64 (dividend divisor : Nat) : Nat := dividend / divisor

/-- The run queues of one task group on all CPUs. `results` has the results of the arithmetic
    on their `rt_runtime` before they were cut to a `u64`, and `bug` tells whether a `BUG_ON`
    was reached. -/
structure Domain where
  rt_rq : Nat → rt_rq
  results : List Int
  bug : Bool

/-- `rt_runtime` of the CPU gets the result of a calculation. -/
def Domain.set_runtime (d : Domain) (i : Nat) (result : Int) : Domain :=
  { d with
    rt_rq := update d.rt_rq i { d.rt_rq i with rt_runtime := wrap_u64 result }
    results := d.results ++ [result] }

/-- What `do_balance_runtime` takes from the run queue `i` with spare time `diff`. -/
def borrowed (rt_period weight : Nat) (rt_runtime : Nat) (diff : Int) : Int :=
  let diff := wrap_s64 (div_u64 (wrap_u64 diff) weight)
  if wrap_u64 (rt_runtime + diff) > rt_period then wrap_s64 (rt_period - rt_runtime) else diff

/-- The loop of `do_balance_runtime` over the CPUs, with what it returns. -/
def balance_loop (rt_period weight : Nat) (this : Nat) (d : Domain) (more : Bool) : List Nat → Domain × Bool
  | [] => (d, more)
  | i :: span =>
    if i = this then balance_loop rt_period weight this d more span
    else if (d.rt_rq i).rt_runtime = RUNTIME_INF then balance_loop rt_period weight this d more span
    else
      let diff := wrap_s64 ((d.rt_rq i).rt_runtime - (d.rt_rq i).rt_time)
      if diff > 0 then
        let diff := borrowed rt_period weight (d.rt_rq this).rt_runtime diff
        let d := d.set_runtime i ((d.rt_rq i).rt_runtime - diff)
        let d := d.set_runtime this ((d.rt_rq this).rt_runtime + diff)
        if (d.rt_rq this).rt_runtime = rt_period then (d, true)
        else balance_loop rt_period weight this d true span
      else balance_loop rt_period weight this d more span

/-- `do_balance_runtime` on a CPU whose root domain has these CPUs. -/
def do_balance_runtime (span : List Nat) (rt_b : rt_bandwidth) (d : Domain) (this : Nat) : Domain × Bool :=
  balance_loop rt_b.rt_period span.length this d false span

/-- The greedy reclaim of `__disable_runtime`, with what it is left wanting. -/
def reclaim_loop (this : Nat) (d : Domain) (want : Int) : List Nat → Domain × Int
  | [] => (d, want)
  | i :: span =>
    if i = this ∨ (d.rt_rq i).rt_runtime = RUNTIME_INF then reclaim_loop this d want span
    else
      let diff := if want > 0 then min (wrap_s64 (d.rt_rq i).rt_runtime) want else want
      let d := d.set_runtime i ((d.rt_rq i).rt_runtime - diff)
      let want := wrap_s64 (want - diff)
      if want = 0 then (d, want) else reclaim_loop this d want span

/-- The run queue takes no part in borrowing. -/
def Domain.disable (d : Domain) (i : Nat) : Domain :=
  { d with rt_rq := update d.rt_rq i { d.rt_rq i with rt_runtime := RUNTIME_INF } }

set_option linter.style.nameCheck false in
/-- `__disable_runtime` for the run queue of this group, in a root domain with these CPUs. -/
def __disable_runtime (span : List Nat) (rt_b : rt_bandwidth) (d : Domain) (this : Nat) : Domain :=
  if (d.rt_rq this).rt_runtime = RUNTIME_INF ∨ (d.rt_rq this).rt_runtime = rt_b.rt_runtime then d.disable this
  else
    let want := wrap_s64 (rt_b.rt_runtime - (d.rt_rq this).rt_runtime)
    let (d, want) := reclaim_loop this d want span
    { d.disable this with bug := d.bug || decide (want ≠ 0) }

set_option linter.style.nameCheck false in
def __enable_runtime (rt_b : rt_bandwidth) (d : Domain) (this : Nat) : Domain :=
  { d with
    rt_rq := update d.rt_rq this
      { d.rt_rq this with rt_runtime := rt_b.rt_runtime, rt_time := 0, rt_throttled := false } }

/-- What changes the runtimes of a root domain. `set_time` is what a run queue has used of its
    runtime, which is accounted for elsewhere. -/
inductive Transfer where
  | do_balance_runtime (i : Nat)
  | disable_runtime (i : Nat)
  | enable_runtime (i : Nat)
  | set_time (i : Nat) (rt_time : Nat)
deriving DecidableEq

/-- One of them, if it may be done: a run queue that has used up its runtime borrows, and a
    disabled one is enabled. -/
def transfer (span : List Nat) (rt_b : rt_bandwidth) (d : Domain) : Transfer → Option Domain
  | .do_balance_runtime i =>
    if i ∈ span ∧ (d.rt_rq i).rt_time > (d.rt_rq i).rt_runtime then some (do_balance_runtime span rt_b d i).1
    else none
  | .disable_runtime i => if i ∈ span then some (__disable_runtime span rt_b d i) else none
  | .enable_runtime i =>
    if i ∈ span ∧ (d.rt_rq i).rt_runtime = RUNTIME_INF then some (__enable_runtime rt_b d i) else none
  | .set_time i rt_time =>
    if rt_time < 2 ^ 63 then
      some { d with rt_rq := update d.rt_rq i { d.rt_rq i with rt_time } }
    else none

end cs444.sched_rt
