import Cs444.Lib.Bytes
import Cs444.Lib.Checked
import Cs444.Lib.Ledger
import Cs444.Slob.FreeList

set_option linter.style.nameCheck false

open interval

namespace cs444.slob.frontend

section Platform

/-- What the headers of an architecture fix: the page, the alignments, which are powers of two not above the
    page size where there are any, and the size of a `long`, which is also that of a pointer. -/
structure Platform extends Geometry where
  ARCH_KMALLOC_MINALIGN : Nat
  ARCH_SLAB_MINALIGN : Nat
  L1_CACHE_BYTES : Nat
  long : Nat
  kmalloc_isAlign : Geometry.IsAlign ARCH_KMALLOC_MINALIGN
  kmalloc_le : ARCH_KMALLOC_MINALIGN ≤ toGeometry.PAGE_SIZE
  slab_isAlign : Geometry.IsAlign ARCH_SLAB_MINALIGN
  slab_le : ARCH_SLAB_MINALIGN ≤ toGeometry.PAGE_SIZE
  cache_isAlign : Geometry.IsAlign L1_CACHE_BYTES
  cache_le : L1_CACHE_BYTES ≤ toGeometry.PAGE_SIZE
  long_eq : long = 4 ∨ long = 8

namespace Platform

variable (P : Platform)

/-- The `align` of `__kmalloc_node`, `kfree` and `ksize`. -/
def align : Nat := max P.ARCH_KMALLOC_MINALIGN P.ARCH_SLAB_MINALIGN

def SLOB_ALIGN : Nat := P.L1_CACHE_BYTES

/-- `sizeof(struct kmem_cache)`: two `int`s, the flags and two pointers. -/
def sizeof_kmem_cache : Nat := 8 + 3 * P.long

/-- `sizeof(struct slob_rcu)`: the two pointers of the `rcu_head` and an `int`, padded to a `long`. -/
def sizeof_slob_rcu : Nat := 3 * P.long

/-- `slob_page(block)`, where `block` is a byte address. -/
def slob_page (block : Nat) : Nat := P.virt_to_page (block / P.SLOB_UNIT)

/-- `do { size >>= 1; order++; } while (size)`; the first argument bounds the rounds. -/
def order_loop : Nat → Nat → Nat
  | 0, _ => 0
  | fuel + 1, size => if size / 2 = 0 then 0 else order_loop fuel (size / 2) + 1

/-- `get_order`. `size - 1` is an `unsigned long`. -/
def get_order (size : Nat) : Nat :=
  let size := (size + 2 ^ (8 * P.long) - 1) % 2 ^ (8 * P.long) / 2 ^ (P.PAGE_SHIFT - 1)
  order_loop size size

end Platform

end Platform

section Kernel

/-- The bits of `gfp` that matter: `__GFP_ZERO` and `__GFP_COMP`. -/
structure gfp_t where
  zero : Bool
  comp : Bool

/-- What is taken from one of the two back ends: a block of `slob_alloc`, by its unit address and size,
    or pages of the page allocator. -/
inductive Extent where
  | block (b size : Nat)
  | pages (pfn order : Nat)
deriving DecidableEq, Repr

/-- The slob heap with its memory, and of the page allocator: the pages that are given out other than to
    the heap, `page->private`, and the order of a compound page by its head. `rcu` has the heads for
    which `kmem_rcu_free` is to be called, and `log` the traffic with the two back ends, the latest first. -/
structure Kernel where
  heap : Heap
  used : Nat → Bool
  page_private : Nat → Nat
  compound_order : Nat → Nat
  rcu : List Nat
  log : List (ledger.Event Extent)

namespace Kernel

variable (P : Platform) (k : Kernel)

/-- The number in the `n` bytes at an address. -/
def read (a n : Nat) : Nat := bytes.load P.SLOB_UNIT k.heap.mem a n

def write (a n v : Nat) : Kernel := { k with heap.mem := bytes.store P.SLOB_UNIT k.heap.mem a n v }

def slob_alloc (size align : Nat) (zero : Bool) (page : Option Nat) : Except Fault (Option Nat × Kernel) := do
  match ← P.toGeometry.slob_alloc k.heap size align zero page with
  | (none, heap) => return (none, { k with heap })
  | (some b, heap) => return (some b, { k with heap, log := .acquired (.block b size) :: k.log })

def slob_free (b size : Nat) : Except Fault Kernel := do
  let heap ← P.toGeometry.slob_free k.heap b size
  return { k with heap, log := .released (.block b size) :: k.log }

/-- `slob_new_pages`, where `page` is the answer of `alloc_pages`. -/
def slob_new_pages (gfp : gfp_t) (order : Nat) (page : Option Nat) : Option Nat × Kernel :=
  match page with
  | none => (none, k)
  | some pfn =>
    (some pfn, { k with
      used := fun q => decide (pfn ≤ q ∧ q < pfn + 2 ^ order) || k.used q
      compound_order := Function.update k.compound_order pfn (if gfp.comp then order else 0)
      log := .acquired (.pages pfn order) :: k.log })

def free_pages (pfn order : Nat) : Kernel :=
  { k with
    used := fun q => !decide (pfn ≤ q ∧ q < pfn + 2 ^ order) && k.used q
    log := .released (.pages pfn order) :: k.log }

/-- `put_page` of the last reference: a compound page goes as a whole. -/
def put_page (pfn : Nat) : Kernel := k.free_pages pfn (k.compound_order pfn)

end Kernel

end Kernel

section Kmalloc

def ZERO_SIZE_PTR : Nat := 16

namespace Platform

variable (P : Platform)

/-- `__kmalloc_node`. `page` is what the page allocator answers if it is asked for pages. -/
def __kmalloc_node (k : Kernel) (size : Nat) (gfp : gfp_t) (page : Option Nat) : Except Fault (Option Nat × Kernel) :=
  if size < P.PAGE_SIZE - P.align then
    if size = 0 then .ok (some ZERO_SIZE_PTR, k)
    else do
      match ← k.slob_alloc P (size + P.align) P.align gfp.zero page with
      | (none, k) => return (none, k)
      | (some b, k) =>
        let m := b * P.SLOB_UNIT
        return (some (m + P.align), k.write P m 4 size)
  else
    let order := P.get_order size
    let gfp := if order ≠ 0 then { gfp with comp := true } else gfp
    match k.slob_new_pages gfp order page with
    | (none, k) => .ok (none, k)
    | (some pfn, k) =>
      .ok (some (pfn * P.PAGE_SIZE), { k with page_private := Function.update k.page_private pfn size })

def kfree (k : Kernel) (block : Nat) : Except Fault Kernel :=
  if block ≤ ZERO_SIZE_PTR then .ok k
  else
    let sp := P.slob_page block
    if (k.heap.page sp).slab then
      let m := block - P.align
      k.slob_free P (m / P.SLOB_UNIT) (k.read P m 4 + P.align)
    else .ok (k.put_page sp)

def ksize (k : Kernel) (block : Nat) : Except Fault Nat :=
  if block = 0 then .error .bug
  else if block = ZERO_SIZE_PTR then .ok 0
  else
    let sp := P.slob_page block
    if (k.heap.page sp).slab then
      let m := block - P.align
      .ok (P.SLOB_UNITS (k.read P m 4) * P.SLOB_UNIT)
    else .ok (k.page_private sp)

end Platform

end Kmalloc

section KmemCache

def SLAB_HWCACHE_ALIGN : Nat := 0x00002000

def SLAB_PANIC : Nat := 0x00040000

def SLAB_DESTROY_BY_RCU : Nat := 0x00080000

/-- The fields of `struct kmem_cache` that are read. -/
structure kmem_cache where
  size : Nat
  align : Nat
  flags : Nat
deriving DecidableEq

/-- What `kmem_cache_create` is asked for. -/
structure Asked where
  size : Nat
  align : Nat
  flags : Nat
deriving DecidableEq

/-- The cache has `SLAB_DESTROY_BY_RCU`. -/
def Asked.rcu (d : Asked) : Bool := d.flags &&& SLAB_DESTROY_BY_RCU ≠ 0

/-- A `struct kmem_cache` in memory. -/
def Kernel.kmem_cache (P : Platform) (k : Kernel) (c : Nat) : kmem_cache where
  size := k.read P c 4
  align := k.read P (c + 4) 4
  flags := k.read P (c + 8) P.long

namespace Platform

variable (P : Platform)

/-- `c->size`, with room for the footer at the end of the object. -/
def cache_size (d : Asked) : Nat :=
  if d.flags &&& SLAB_DESTROY_BY_RCU ≠ 0 then d.size + P.sizeof_slob_rcu else d.size

def cache_align (d : Asked) : Nat :=
  let align := if d.flags &&& SLAB_HWCACHE_ALIGN ≠ 0 then P.SLOB_ALIGN else 0
  let align := if align < P.ARCH_SLAB_MINALIGN then P.ARCH_SLAB_MINALIGN else align
  if align < d.align then d.align else align

/-- `kmem_cache_create`, where `panic` stops the machine as a `BUG_ON` does. -/
def kmem_cache_create (k : Kernel) (d : Asked) (page : Option Nat) : Except Fault (Option Nat × Kernel) := do
  match ← k.slob_alloc P P.sizeof_kmem_cache P.ARCH_KMALLOC_MINALIGN false page with
  | (none, k) => if d.flags &&& SLAB_PANIC ≠ 0 then throw .bug else return (none, k)
  | (some b, k) =>
    let c := b * P.SLOB_UNIT
    let k := k.write P c 4 (P.cache_size d)
    let k := k.write P (c + 4) 4 (P.cache_align d)
    return (some c, k.write P (c + 8) P.long d.flags)

/-- `kmem_cache_destroy` behind its `rcu_barrier`. -/
def kmem_cache_destroy (k : Kernel) (c : Nat) : Except Fault Kernel :=
  k.slob_free P (c / P.SLOB_UNIT) P.sizeof_kmem_cache

def kmem_cache_alloc_node (k : Kernel) (c : Nat) (gfp : gfp_t) (page : Option Nat) :
    Except Fault (Option Nat × Kernel) :=
  let cache := k.kmem_cache P c
  if cache.size < P.PAGE_SIZE then do
    let (b, k) ← k.slob_alloc P cache.size cache.align gfp.zero page
    return (b.map (· * P.SLOB_UNIT), k)
  else
    let (pfn, k) := k.slob_new_pages gfp (P.get_order cache.size) page
    .ok (pfn.map (· * P.PAGE_SIZE), k)

def __kmem_cache_free (k : Kernel) (b size : Nat) : Except Fault Kernel :=
  if size < P.PAGE_SIZE then k.slob_free P (b / P.SLOB_UNIT) size
  else .ok (k.free_pages (P.slob_page b) (P.get_order size))

/-- `slob_rcu->size`. -/
def slob_rcu_size (k : Kernel) (head : Nat) : Nat := k.read P (head + 2 * P.long) 4

/-- The start of the object that a footer belongs to. -/
def slob_rcu_block (k : Kernel) (head : Nat) : Nat := head - (P.slob_rcu_size k head - P.sizeof_slob_rcu)

def kmem_rcu_free (k : Kernel) (head : Nat) : Except Fault Kernel :=
  P.__kmem_cache_free k (P.slob_rcu_block k head) (P.slob_rcu_size k head)

/-- `kmem_cache_free`, where `call_rcu` leaves the head for later. -/
def kmem_cache_free (k : Kernel) (c b : Nat) : Except Fault Kernel :=
  let cache := k.kmem_cache P c
  if cache.flags &&& SLAB_DESTROY_BY_RCU ≠ 0 then
    let slob_rcu := b + (cache.size - P.sizeof_slob_rcu)
    let k := k.write P (slob_rcu + 2 * P.long) 4 cache.size
    .ok { k with rcu := slob_rcu :: k.rcu }
  else P.__kmem_cache_free k b cache.size

end Platform

end KmemCache

section World

/-- What an allocation is for. `freed` is an object given to `call_rcu`. -/
inductive Use where
  | kmalloc (size : Nat)
  | cache (d : Asked)
  | object (c : Nat) (d : Asked)
  | freed (d : Asked)
deriving DecidableEq

/-- An allocation that was not given back yet: the pointer that was returned, and what was taken from a
    back end for it. -/
structure Object where
  ptr : Nat
  extent : Extent
  use : Use
deriving DecidableEq

/-- The kernel together with the allocations. -/
structure World where
  kernel : Kernel
  live : List Object

inductive Call where
  | __kmalloc_node (size : Nat) (gfp : gfp_t) (page : Option Nat)
  | kfree (block : Nat)
  | kmem_cache_create (d : Asked) (page : Option Nat)
  | kmem_cache_destroy (c : Nat)
  | kmem_cache_alloc_node (c : Nat) (d : Asked) (gfp : gfp_t) (page : Option Nat)
  | kmem_cache_free (c b : Nat)
  | kmem_rcu_free (head : Nat)
  | store (a v : Nat)

variable (P : Platform)

/-- The bytes from the pointer on that callers may write. The readers of an object that was given to
    `call_rcu` may still write to it, and RCU has the two pointers of the head. -/
def Object.usable (o : Object) : Nat :=
  match o.use, o.extent with
  | .kmalloc size, .block _ _ => P.SLOB_UNITS size * P.SLOB_UNIT
  | .kmalloc size, .pages _ _ => size
  | .cache _, _ => 0
  | .object _ d, _ => P.cache_size d
  | .freed d, _ => d.size + 2 * P.long

/-- The head of an object that was given to `call_rcu`. -/
def Object.head (o : Object) : Option Nat :=
  match o.use with
  | .freed d => some (o.ptr + d.size)
  | _ => none

/-- The object after `kmem_cache_free`. -/
def Object.free (o : Object) : Option Object :=
  match o.use with
  | .object _ d => if d.rcu then some { o with use := .freed d } else none
  | _ => some o

/-- A call that returned a pointer and took something from a back end has made an allocation. -/
def World.enter (w : World) (k : Kernel) (ptr : Option Nat) (use : Use) : World where
  kernel := k
  live :=
    match ptr, k.log.take (k.log.length - w.kernel.log.length) with
    | some ptr, [.acquired extent] => { ptr, extent, use } :: w.live
    | _, _ => w.live

def step (w : World) : Call → Except Fault World
  | .__kmalloc_node size gfp page => do
    let (ptr, k) ← P.__kmalloc_node w.kernel size gfp page
    return w.enter k ptr (.kmalloc size)
  | .kfree block => do
    let k ← P.kfree w.kernel block
    return { kernel := k, live := w.live.filter fun o => o.ptr ≠ block }
  | .kmem_cache_create d page => do
    let (ptr, k) ← P.kmem_cache_create w.kernel d page
    return w.enter k ptr (.cache d)
  | .kmem_cache_destroy c => do
    let k ← P.kmem_cache_destroy w.kernel c
    return { kernel := k, live := w.live.filter fun o => o.ptr ≠ c }
  | .kmem_cache_alloc_node c d gfp page => do
    let (ptr, k) ← P.kmem_cache_alloc_node w.kernel c gfp page
    return w.enter k ptr (.object c d)
  | .kmem_cache_free c b => do
    let k ← P.kmem_cache_free w.kernel c b
    return { kernel := k, live := w.live.filterMap fun o => if o.ptr = b then o.free else some o }
  | .kmem_rcu_free head => do
    let k ← P.kmem_rcu_free { w.kernel with rcu := w.kernel.rcu.erase head } head
    return { kernel := k, live := w.live.filter fun o => o.head ≠ some head }
  | .store a v => .ok { w with kernel.heap.mem := bytes.setByte P.SLOB_UNIT w.kernel.heap.mem a v }

/-- The pages that an answer of the page allocator stands for are free. -/
def FreePages (k : Kernel) (page : Option Nat) (order : Nat) : Prop :=
  ∀ pfn, page = some pfn → 0 < pfn ∧ ∀ q, pfn ≤ q → q < pfn + 2 ^ order →
    k.used q = false ∧ (k.heap.page q).slab = false

/-- A size that is positive and fits with the footer in an `int`, an alignment that is 0 or a power of
    two not above the page size, and flags that are an `unsigned long`. -/
structure Asked.Valid (d : Asked) : Prop where
  size_pos : 0 < d.size
  size_lt : d.size + P.sizeof_slob_rcu < 2 ^ 31
  isAlign : Geometry.IsAlign d.align
  align_le : d.align ≤ P.PAGE_SIZE
  flags_lt : d.flags < 256 ^ P.long

/-- What callers, the page allocator and RCU promise. -/
def Call.Valid (w : World) : Call → Prop
  | .__kmalloc_node size _ page =>
    4 ≤ P.align ∧ size < 2 ^ (8 * P.long) ∧
      FreePages w.kernel page (if size < P.PAGE_SIZE - P.align then 0 else P.get_order size)
  | .kfree block => block ≤ ZERO_SIZE_PTR ∨ ∃ o ∈ w.live, o.ptr = block ∧ ∃ size, o.use = .kmalloc size
  | .kmem_cache_create d page =>
    d.Valid P ∧ FreePages w.kernel page 0 ∧ (d.flags &&& SLAB_PANIC ≠ 0 → page ≠ none)
  | .kmem_cache_destroy c =>
    ∃ o ∈ w.live, o.ptr = c ∧ ∃ d, o.use = .cache d ∧ (∀ o' ∈ w.live, o'.use ≠ .object c d) ∧
      (d.rcu → w.kernel.rcu = [])
  | .kmem_cache_alloc_node c d _ page =>
    (∃ o ∈ w.live, o.ptr = c ∧ o.use = .cache d) ∧
      FreePages w.kernel page (if P.cache_size d < P.PAGE_SIZE then 0 else P.get_order (P.cache_size d))
  | .kmem_cache_free c b => ∃ o ∈ w.live, o.ptr = b ∧ ∃ d, o.use = .object c d
  | .kmem_rcu_free head => head ∈ w.kernel.rcu
  | .store a v =>
    v < 256 ∧ ((∃ o ∈ w.live, o.ptr ≤ a ∧ a < o.ptr + o.usable P) ∨
      (w.kernel.used (P.slob_page a) = false ∧ (w.kernel.heap.page (P.slob_page a)).slab = false))

/-- At boot nothing is allocated. -/
structure Initial (w : World) : Prop where
  heap : slob.Initial ⟨w.kernel.heap, []⟩
  used : ∀ q, w.kernel.used q = false
  rcu : w.kernel.rcu = []
  log : w.kernel.log = []
  live : w.live = []

end World

section Boot

/-- A 32-bit machine with pages of 4096 bytes. -/
def x86 : Platform where
  toGeometry := page4096
  ARCH_KMALLOC_MINALIGN := 4
  ARCH_SLAB_MINALIGN := 4
  L1_CACHE_BYTES := 64
  long := 4
  kmalloc_isAlign := .inr ⟨2, rfl⟩
  kmalloc_le := by decide
  slab_isAlign := .inr ⟨2, rfl⟩
  slab_le := by decide
  cache_isAlign := .inr ⟨6, rfl⟩
  cache_le := by decide
  long_eq := .inl rfl

def bootWorld : World where
  kernel :=
    { heap := boot.heap
      used := fun _ => false
      page_private := fun _ => 0
      compound_order := fun _ => 0
      rcu := []
      log := [] }
  live := []

theorem bootWorld_initial : Initial bootWorld :=
  ⟨boot_initial, fun _ => rfl, rfl, rfl, rfl⟩

end Boot

end cs444.slob.frontend
