import Mathlib.Data.List.Basic
import Mathlib.Logic.Basic

open Function

namespace cs444.concurrency1

structure Element where
  value : Int32
  wait_time : Int32
deriving DecidableEq

/-- A buffer. Beyond `size` there is nothing of it in `array`. -/
structure Buffer where
  array : Nat → Element
  size : Nat
  used : Nat

/-- `init_b`, where `array` is what `malloc` has left there. -/
def init_b (array : Nat → Element) (init_size : Nat) : Buffer where
  array := array
  size := init_size
  used := 0

def insert_b (buf : Buffer) (e : Element) : Bool × Buffer :=
  if buf.used = buf.size then (false, buf)
  else
    (true, { buf with
      array := update buf.array buf.used ⟨e.value, e.wait_time⟩
      used := buf.used + 1 })

/-- `remove_b`, with what is in the element afterwards. -/
def remove_b (buf : Buffer) (e : Element) : Bool × Buffer × Element :=
  if buf.used = 0 then (false, buf, e)
  else
    (true,
      { buf with
        array := update buf.array (buf.used - 1) ⟨0, 0⟩
        used := buf.used - 1 },
      buf.array (buf.used - 1))

variable {buf : Buffer}

/-- What is in the buffer, the last one inserted at the end. -/
def Buffer.contents (buf : Buffer) : List Element :=
  (List.range buf.used).map buf.array

theorem Buffer.length_contents (buf : Buffer) : buf.contents.length = buf.used := by
  rw [Buffer.contents, List.length_map, List.length_range]

/-- Writing behind the elements that are used. -/
theorem map_update_range (array : Nat → Element) (n : Nat) (e : Element) :
    (List.range n).map (update array n e) = (List.range n).map array := by
  refine List.map_congr_left fun i hi => ?_
  rw [update_of_ne (Nat.ne_of_lt (List.mem_range.mp hi))]

/-- There is room for one more. -/
theorem insert_b_spec (e : Element) (h : buf.used < buf.size) :
    ∃ buf', insert_b buf e = (true, buf') ∧ buf'.size = buf.size ∧ buf'.contents = buf.contents ++ [e] := by
  refine ⟨_, if_neg (Nat.ne_of_lt h), rfl, ?_⟩
  rw [Buffer.contents, Buffer.contents, List.range_succ, List.map_append, map_update_range]
  simp

theorem remove_b_empty (e : Element) (h : buf.used = 0) : remove_b buf e = (false, buf, e) :=
  if_pos h

/-- The element inserted last is removed. -/
theorem remove_b_spec (e : Element) (h : buf.used ≠ 0) :
    ∃ buf' last, remove_b buf e = (true, buf', last) ∧ buf'.size = buf.size ∧ buf.contents = buf'.contents ++ [last] := by
  refine ⟨_, _, if_neg h, rfl, ?_⟩
  obtain ⟨n, hn⟩ := Nat.exists_eq_succ_of_ne_zero h
  rw [Buffer.contents, Buffer.contents, hn, Nat.succ_eq_add_one, Nat.add_sub_cancel, map_update_range, List.range_succ,
    List.map_append]
  simp

end cs444.concurrency1
