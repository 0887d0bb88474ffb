import Cs444.Lib.Ring
import Cs444.Slob.PageAlloc
import Cs444.Slob.PageFree

open interval

open Function

namespace cs444.slob

/-- The fields of `struct slob_page` the allocator uses: the free units, the head
    of the free list, and the page flags `PG_slab` and `PG_slob_free`. -/
structure slob_page where
  units : Int
  free : Nat
  slab : Bool
  slobFree : Bool

/-- The three lists of partially free pages. -/
inductive SizeClass where
  | small
  | medium
  | large
deriving DecidableEq, Repr

def SLOB_BREAK1 : Nat := 256

def SLOB_BREAK2 : Nat := 1024

/-- The list for objects of a given size. -/
def sizeClass (size : Nat) : SizeClass :=
  if size < SLOB_BREAK1 then .small
  else if size < SLOB_BREAK2 then .medium
  else .large

/-- Conversion to a 32-bit `int`. -/
def toInt (x : Int) : Int := x.bmod (2 ^ 32)

/-- The state of the allocator. Pages are named by their page number, the unit
    address of their first cell divided by the units of a page; `list` holds the
    pages of `free_slob_small`, `free_slob_medium` and `free_slob_large` in order. -/
structure Heap where
  mem : Mem
  page : Nat → slob_page
  list : SizeClass → List Nat
  mem_used : Int
  mem_claimed : Int

namespace Heap

/-- Replace the descriptor of one page. -/
def setPage (h : Heap) (pfn : Nat) (sp : slob_page) : Heap :=
  { h with page := update h.page pfn sp }

/-- `set_slob_page_free`: `list_add` puts the page at the front. -/
def set_slob_page_free (h : Heap) (pfn : Nat) (c : SizeClass) : Heap :=
  { h.setPage pfn { h.page pfn with slobFree := true } with
    list := update h.list c (pfn :: h.list c) }

/-- `clear_slob_page_free`: `list_del` takes the page off the list it is on. -/
def clear_slob_page_free (h : Heap) (pfn : Nat) : Heap :=
  { h.setPage pfn { h.page pfn with slobFree := false } with
    list := fun c => (h.list c).erase pfn }

/-- `list_move_tail(slob_list, prev->next)` with its two guards: start the next
    search at the page behind `prev`. -/
def rotate (h : Heap) (c : SizeClass) (prev : Option Nat) : Heap :=
  let l := h.list c
  if prev ≠ ring.prev l none ∧ ring.next l none ≠ ring.next l prev then
    { h with list := update h.list c (ring.moveHead l (ring.next l prev)) }
  else h

section Rotate

variable (h : Heap) (c : SizeClass) (prev : Option Nat)

@[simp] theorem rotate_mem : (h.rotate c prev).mem = h.mem := by
  rw [rotate]
  split <;> rfl

@[simp] theorem rotate_page : (h.rotate c prev).page = h.page := by
  rw [rotate]
  split <;> rfl

@[simp] theorem rotate_mem_used : (h.rotate c prev).mem_used = h.mem_used := by
  rw [rotate]
  split <;> rfl

@[simp] theorem rotate_mem_claimed : (h.rotate c prev).mem_claimed = h.mem_claimed := by
  rw [rotate]
  split <;> rfl

end Rotate

end Heap

/-- `memset(b, 0, size)` on the cells of a block: whole cells become zero, and the
    low bytes of the last one are cleared when the size is not a multiple of a unit. -/
def Geometry.memset (g : Geometry) (mem : Mem) (b size : Nat) : Mem := fun u =>
  if b ≤ u ∧ u < b + size / g.SLOB_UNIT then 0
  else if u = b + size / g.SLOB_UNIT then mem u - mem u % 256 ^ (size % g.SLOB_UNIT)
  else mem u

namespace Geometry

variable (g : Geometry)

/-- `slob_page(addr)`: the number of the page an address lies in. -/
def virt_to_page (addr : Nat) : Nat := addr / g.pageUnits

def slob_page_alloc (h : Heap) (pfn size align : Nat) : Except Fault (Option Nat × Heap) := do
  let sp := h.page pfn
  let units := g.SLOB_UNITS size
  match ← g.slob_page_alloc_loop h.mem units align g.pageUnits none sp.free none with
  | none => return (none, h)
  | some best =>
    let (b, mem, free) := g.slob_page_alloc_commit h.mem sp.free units best
    let sp' := { sp with units := g.slobidx (sp.units - units), free }
    let h' := { h.setPage pfn sp' with mem }
    return (some b, if sp'.units = 0 then h'.clear_slob_page_free pfn else h')

/-- `list_for_each_entry(sp, slob_list, list)` over the pages not visited yet. -/
def slob_alloc_walk (h : Heap) (size align : Nat) : List Nat → Except Fault (Option Nat × Heap)
  | [] => .ok (none, h)
  | pfn :: rest =>
    if (h.page pfn).units < g.SLOB_UNITS size then slob_alloc_walk h size align rest
    else do
      let prev := ring.prev (h.list (sizeClass size)) (some pfn)
      match ← g.slob_page_alloc h pfn size align with
      | (none, h) => slob_alloc_walk h size align rest
      | (some b, h) =>
        return (some b, { h with mem_used := toInt (h.mem_used + size) }.rotate (sizeClass size) prev)

/-- Set up a new page as one free block on the list for objects of the given size. -/
def slob_alloc_setup (h : Heap) (size pfn : Nat) : Heap :=
  let b := pfn * g.pageUnits
  let sp : slob_page :=
    { h.page pfn with slab := true, units := g.slobidx g.pageUnits, free := b }
  let h := { h.setPage pfn sp with mem := g.set_slob h.mem b g.pageUnits (b + g.pageUnits) }
  h.set_slob_page_free pfn (sizeClass size)

/-- The part of `slob_alloc` that takes a new page from the page allocator. It adds
    the page to `mem_claimed`; `mem_used` is left as it is. -/
def slob_alloc_new (h : Heap) (size align pfn : Nat) : Except Fault (Option Nat × Heap) := do
  match ← g.slob_page_alloc (g.slob_alloc_setup h size pfn) pfn size align with
  | (none, _) => throw .bug
  | (some b, h) => return (some b, { h with mem_claimed := toInt (h.mem_claimed + g.PAGE_SIZE) })

/-- `if (unlikely((gfp & __GFP_ZERO) && b)) memset(b, 0, size)`. -/
def slob_alloc_zero (h : Heap) (b size : Nat) (zero : Bool) : Heap :=
  if zero then { h with mem := g.memset h.mem b size } else h

/-- `slob_alloc`. `zero` is `gfp & __GFP_ZERO`, and `page` is what the page allocator
    answers if it is asked for a page. -/
def slob_alloc (h : Heap) (size align : Nat) (zero : Bool) (page : Option Nat) :
    Except Fault (Option Nat × Heap) := do
  let (b, h) ←
    match ← g.slob_alloc_walk h size align (h.list (sizeClass size)) with
    | (some b, h) => .ok (some b, h)
    | (none, h) =>
      match page with
      | none => .ok (none, h)
      | some pfn => g.slob_alloc_new h size align pfn
  match b with
  | none => return (none, h)
  | some b => return (some b, g.slob_alloc_zero h b size zero)

section Zero

variable {g} (h : Heap) (b size : Nat) (zero : Bool)

@[simp] theorem slob_alloc_zero_page : (g.slob_alloc_zero h b size zero).page = h.page := by
  cases zero <;> rfl

@[simp] theorem slob_alloc_zero_mem_used :
    (g.slob_alloc_zero h b size zero).mem_used = h.mem_used := by
  cases zero <;> rfl

@[simp] theorem slob_alloc_zero_mem_claimed :
    (g.slob_alloc_zero h b size zero).mem_claimed = h.mem_claimed := by
  cases zero <;> rfl

end Zero

/-- The branch of `slob_free` that gives the page back. `free_slob_page` resets the
    map count, which shares its place with `units`. -/
def slob_free_release (h : Heap) (pfn : Nat) : Heap :=
  let h := { h with mem_claimed := toInt (h.mem_claimed - g.PAGE_SIZE) }
  let h := if (h.page pfn).slobFree then h.clear_slob_page_free pfn else h
  h.setPage pfn { h.page pfn with slab := false, units := -1 }

/-- The branch of `slob_free` for a page without free units. -/
def slob_free_first (h : Heap) (pfn b : Nat) (units : Int) (size : Nat) : Heap :=
  let h := { h.setPage pfn { h.page pfn with units, free := b } with
    mem := g.set_slob h.mem b units (g.pageBase (b + g.pageUnits)) }
  h.set_slob_page_free pfn (sizeClass size)

def slob_free (h : Heap) (block size : Nat) : Except Fault Heap := do
  if block * g.SLOB_UNIT ≤ 16 then return h
  if size = 0 then throw .bug
  let pfn := g.virt_to_page block
  let units := g.slobidx (g.SLOB_UNITS size)
  let h := { h with mem_used := toInt (h.mem_used - size) }
  if (h.page pfn).units + units = g.pageUnits then
    return g.slob_free_release h pfn
  else if (h.page pfn).slobFree = false then
    return g.slob_free_first h pfn block units size
  else
    let (mem, free) ← g.slob_free_reinsert h.mem (h.page pfn).free block units
    return { h.setPage pfn { h.page pfn with units := g.slobidx ((h.page pfn).units + units), free }
      with mem }

end Geometry

/-- `sys_get_slob_amt_claimed`. -/
def sys_get_slob_amt_claimed (h : Heap) : Int := h.mem_claimed

/-- `sys_get_slob_amt_free`. -/
def sys_get_slob_amt_free (h : Heap) : Int := toInt (h.mem_claimed - h.mem_used)

section Runs

/-- A block handed out and not freed yet, with the arguments of its allocation. -/
structure Block where
  addr : Nat
  size : Nat
  align : Nat
deriving DecidableEq, Repr

/-- The allocator together with the blocks its callers hold. -/
structure State where
  heap : Heap
  live : List Block

/-- The calls callers make, with the answer of the page allocator. `store` is a
    write by the owner of the memory at a cell: a caller to its block, anyone to a
    page the allocator does not hold. -/
inductive Call where
  | slob_alloc (size align : Nat) (zero : Bool) (page : Option Nat)
  | slob_free (block size : Nat)
  | store (u : Nat) (value : Int)

variable (g : Geometry)

/-- The units a block covers. -/
def Block.extent (b : Block) : Interval := ⟨b.addr, g.SLOB_UNITS b.size⟩

/-- Some live block covers the unit. -/
def LiveUnit (live : List Block) (u : Nat) : Prop :=
  covers (live.map (Block.extent g)) u

/-- What callers and the page allocator promise. -/
def Call.Valid (s : State) : Call → Prop
  | .slob_alloc size align _ page =>
    0 < size ∧ size ≤ g.PAGE_SIZE ∧ Geometry.IsAlign align ∧ align ≤ g.PAGE_SIZE ∧
      ∀ pfn, page = some pfn → 0 < pfn ∧ (s.heap.page pfn).slab = false
  | .slob_free block size => ∃ b ∈ s.live, b.addr = block ∧ b.size = size
  | .store u _ => LiveUnit g s.live u ∨ (s.heap.page (g.virt_to_page u)).slab = false

/-- One call. -/
def step (s : State) : Call → Except Fault State
  | .slob_alloc size align zero page => do
    match ← g.slob_alloc s.heap size align zero page with
    | (none, heap) => return { s with heap }
    | (some addr, heap) => return { heap, live := { addr, size, align } :: s.live }
  | .slob_free block size => do
    let heap ← g.slob_free s.heap block size
    return { heap, live := s.live.filter fun b => b.addr ≠ block }
  | .store u value => .ok { s with heap.mem := update s.heap.mem u value }

/-- A sequence of calls, up to the first fault. -/
def run (s : State) : List Call → Except Fault State
  | [] => .ok s
  | c :: cs => do
    let s' ← step g s c
    run s' cs

/-- Every call is valid in the state it is made in. -/
def ValidRun (s : State) : List Call → Prop
  | [] => True
  | c :: cs => c.Valid g s ∧ ∀ s', step g s c = .ok s' → ValidRun s' cs

/-- The state at boot: no page held, nothing live, both counters zero. Memory and
    the other fields of the page descriptors are arbitrary. -/
structure Initial (s : State) : Prop where
  live : s.live = []
  list : ∀ c, s.heap.list c = []
  slab : ∀ pfn, (s.heap.page pfn).slab = false
  slobFree : ∀ pfn, (s.heap.page pfn).slobFree = false
  used : s.heap.mem_used = 0
  claimed : s.heap.mem_claimed = 0

end Runs

end cs444.slob
