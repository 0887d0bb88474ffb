import Cs444.Slob.Sections

open interval owners

open Function

namespace cs444.slob.smp

section Machine

/-- The arguments of a call of `slob_alloc`; `zero` is `gfp & __GFP_ZERO`. -/
structure Args where
  size : Nat
  align : Nat
  zero : Bool
deriving DecidableEq, Repr

/-- What a thread does next. `search`, `fill` and `give_back` are the sections under `slob_lock`; between them
    other threads run. The counters that are changed without the lock are read in one step and written in
    another. -/
inductive Phase where
  | idle
  | search (a : Args)
  | new_pages (a : Args)
  | set_slob_page (a : Args) (pfn : Nat)
  | fill (a : Args) (pfn : Nat)
  | load_claimed (b : Block) (zero : Bool)
  | store_claimed (b : Block) (zero : Bool) (claimed : Int)
  | memset (b : Block) (zero : Bool)
  | load_used (b : Block)
  | store_used (b : Block) (used : Int)
  | give_back (b : Block)
  | clear_slob_page (pfn : Nat)
  | free_slob_page (pfn : Nat)
  | free_pages (pfn : Nat)
deriving DecidableEq, Repr

/-- The page a thread has taken and not set up yet, or is about to give back. -/
def Phase.page : Phase → Option Nat
  | .set_slob_page _ pfn | .fill _ pfn | .clear_slob_page pfn | .free_slob_page pfn | .free_pages pfn => some pfn
  | _ => none

/-- The block a thread has carved and not returned yet, or is about to put back. -/
def Phase.block : Phase → Option Block
  | .load_claimed b _ | .store_claimed b _ _ | .memset b _ | .load_used b | .store_used b _ | .give_back b => some b
  | _ => none

/-- The allocator and the threads `T` in it. `used` are the pages the page allocator has handed to it, `live`
    the blocks carved and not put back, `held` those of them that callers have. -/
structure Machine (T : Type) where
  heap : Heap
  used : Nat → Bool
  live : List Block
  held : List Block
  pc : T → Phase

/-- Calls, steps of a thread with the answer of the page allocator should it be asked, and writes by the
    owner of a cell. -/
inductive Move (T : Type) where
  | slob_alloc (t : T) (a : Args)
  | slob_free (t : T) (b : Block)
  | go (t : T) (page : Option Nat)
  | store (u : Nat) (value : Int)

variable {T : Type} [DecidableEq T] (g : Geometry)

/-- The next step of a thread. -/
def Machine.advance (s : Machine T) (t : T) (page : Option Nat) : Except Fault (Machine T) :=
  match s.pc t with
  | .idle => .ok s
  | .search a => do
    match ← g.slob_alloc_walk s.heap a.size a.align (s.heap.list (sizeClass a.size)) with
    | (none, heap) => return { s with heap, pc := update s.pc t (.new_pages a) }
    | (some addr, heap) =>
      let b : Block := ⟨addr, a.size, a.align⟩
      return { s with heap, live := b :: s.live, pc := update s.pc t (.memset b a.zero) }
  | .new_pages a =>
    match page with
    | none => .ok { s with pc := update s.pc t .idle }
    | some pfn => .ok { s with
        used := update s.used pfn true, pc := update s.pc t (.set_slob_page a pfn) }
  | .set_slob_page a pfn =>
    .ok { s with heap := s.heap.set_slob_page pfn, pc := update s.pc t (.fill a pfn) }
  | .fill a pfn => do
    let (addr, heap) ← g.slob_alloc_fill s.heap a.size a.align pfn
    let b : Block := ⟨addr, a.size, a.align⟩
    return { s with heap, live := b :: s.live, pc := update s.pc t (.load_claimed b a.zero) }
  | .load_claimed b zero =>
    .ok { s with pc := update s.pc t (.store_claimed b zero s.heap.mem_claimed) }
  | .store_claimed b zero claimed =>
    .ok { s with
      heap.mem_claimed := toInt (claimed + g.PAGE_SIZE), pc := update s.pc t (.memset b zero) }
  | .memset b zero =>
    .ok { s with
      heap := g.slob_alloc_zero s.heap b.addr b.size zero, held := b :: s.held, pc := update s.pc t .idle }
  | .load_used b => .ok { s with pc := update s.pc t (.store_used b s.heap.mem_used) }
  | .store_used b used =>
    .ok { s with heap.mem_used := toInt (used - b.size), pc := update s.pc t (.give_back b) }
  | .give_back b => do
    let (page, heap) ← g.slob_free_locked s.heap b.addr b.size
    let s := { s with heap, live := s.live.filter fun a => a.addr ≠ b.addr }
    match page with
    | none => return { s with pc := update s.pc t .idle }
    | some pfn => return { s with pc := update s.pc t (.clear_slob_page pfn) }
  | .clear_slob_page pfn =>
    .ok { s with heap := s.heap.clear_slob_page pfn, pc := update s.pc t (.free_slob_page pfn) }
  | .free_slob_page pfn =>
    .ok { s with heap := s.heap.free_slob_page pfn, pc := update s.pc t (.free_pages pfn) }
  | .free_pages pfn =>
    .ok { s with used := update s.used pfn false, pc := update s.pc t .idle }

def step (s : Machine T) : Move T → Except Fault (Machine T)
  | .slob_alloc t a => .ok { s with pc := update s.pc t (.search a) }
  | .slob_free t b =>
    if b.addr * g.SLOB_UNIT ≤ 16 then .ok s
    else if b.size = 0 then .error .bug
    else .ok { s with held := s.held.erase b, pc := update s.pc t (.load_used b) }
  | .go t page => s.advance g t page
  | .store u value => .ok { s with heap.mem := update s.heap.mem u value }

/-- What callers and the page allocator promise: a thread makes one call at a time, blocks are freed by those
    who have them, a page handed out is not in use, and cells are written by their owners. -/
def Move.Valid (s : Machine T) : Move T → Prop
  | .slob_alloc t a => s.pc t = .idle ∧ Request g a.size a.align ∧ a.align ≤ g.PAGE_SIZE
  | .slob_free t b => s.pc t = .idle ∧ b ∈ s.held
  | .go _ page => ∀ pfn, page = some pfn → 0 < pfn ∧ s.used pfn = false
  | .store u _ => LiveUnit g s.held u ∨ s.used (g.virt_to_page u) = false

/-- Boot: nothing handed out, no thread in the allocator. -/
structure Initial (s : Machine T) : Prop where
  heap : slob.Initial ⟨s.heap, s.live⟩
  held : s.held = []
  used : ∀ q, s.used q = false
  pc : ∀ t, s.pc t = .idle

end Machine

section Invariant

variable {T : Type} {g : Geometry} {s s' : Machine T} {t : T} {ph : Phase} {b : Block}
  {h' : Heap} {pfn : Nat}

/-- The pages in the hands of the threads. -/
def Machine.pages (s : Machine T) : T → Option Nat := Phase.page ∘ s.pc

/-- The blocks in the hands of the threads. -/
def Machine.blocks (s : Machine T) : T → Option Block := Phase.block ∘ s.pc

/-- The heap as everyone but the threads with a page in their hands may see it. -/
noncomputable def Machine.settled (s : Machine T) : Heap := s.heap.without (Held s.pages)

/-- What a thread relies on for the rest of its call. -/
def Phase.Ok (g : Geometry) (h : Heap) : Phase → Prop
  | .search a | .new_pages a => Request g a.size a.align ∧ a.align ≤ g.PAGE_SIZE
  | .set_slob_page a pfn | .fill a pfn => Request g a.size a.align ∧ a.align ≤ g.PAGE_SIZE ∧ 0 < pfn
  | .free_slob_page pfn => (h.page pfn).slab = false
  | .free_pages pfn => (h.page pfn).slab = false ∧ (h.page pfn).units = -1
  | _ => True

/-- Every live block is in one pair of hands, a caller's or those of one thread. -/
structure Owned (live held : List Block) (blocks : T → Option Block) : Prop where
  exclusive : Exclusive blocks
  live : ∀ b, b ∈ live ↔ b ∈ held ∨ Held blocks b
  apart : ∀ b ∈ held, ¬ Held blocks b
  nodup : held.Nodup

/-- The heap is in order but for the pages in the hands of the threads. Those are not on a list, no block is
    in them, and their flags need not agree with anything yet. -/
structure Inv (g : Geometry) (s : Machine T) : Prop where
  core : Core g s.settled s.live
  occupied : ∀ q, (s.settled.page q).slab = true → ∃ b ∈ s.live, g.virt_to_page b.addr = q
  returned : ∀ q, s.used q = false → (s.heap.page q).slab = false ∧ ¬ Held s.pages q
  phases : ∀ t, (s.pc t).Ok g s.heap
  pages : Exclusive s.pages
  owned : Owned s.live s.held s.blocks

/-- What a step of a thread leaves: the invariant, the blocks of the callers and what is in them. -/
structure Next (g : Geometry) (s s' : Machine T) : Prop where
  inv : Inv g s'
  mem : ∀ u, LiveUnit g s.held u → s'.heap.mem u = s.heap.mem u
  held : ∀ b ∈ s.held, b ∈ s'.held

theorem Initial.inv (hs : Initial s) : Inv g s := by
  have hpages : s.pages = fun _ => none := by
    funext t
    simp [Machine.pages, hs.pc, Phase.page]
  have hblocks : s.blocks = fun _ => none := by
    funext t
    simp [Machine.blocks, hs.pc, Phase.block]
  have hnone : ∀ q, ¬ Held s.pages q := by simp [Held, hpages]
  have hsettled : s.settled = s.heap :=
    Heap.eq_of_fields rfl (fun q => Heap.without_page (hnone q)) rfl rfl rfl
  have hinv : slob.Inv g ⟨s.heap, s.live⟩ := hs.heap.inv
  refine ⟨?_, ?_, fun q _ => ⟨hs.heap.slab q, hnone q⟩, fun t => ?_, ?_, ?_, fun b => ?_, ?_, ?_⟩
  · rw [hsettled]
    exact hinv.core
  · rw [hsettled]
    exact hinv.occupied
  · rw [hs.pc]
    exact trivial
  · simp [Exclusive, hpages]
  · simp [Exclusive, hblocks]
  · have hlive : s.live = [] := hs.heap.live
    simp [hlive, hs.held, hblocks, Held]
  · simp [hs.held]
  · simp [hs.held]

theorem Phase.Ok.frame (hok : ph.Ok g s.heap) (hsame : ∀ q, ph.page = some q → h'.page q = s.heap.page q) :
    ph.Ok g h' := by
  cases ph with
  | free_slob_page pfn =>
    rw [Phase.Ok, hsame pfn rfl]
    exact hok
  | free_pages pfn =>
    rw [Phase.Ok, hsame pfn rfl]
    exact hok
  | _ => exact hok

theorem Inv.held_live (hi : Inv g s) (hb : b ∈ s.held) : b ∈ s.live := (hi.owned.live b).mpr (.inl hb)

theorem Inv.block_live (hi : Inv g s) (hb : s.blocks t = some b) : b ∈ s.live :=
  (hi.owned.live b).mpr (.inr ⟨t, hb⟩)

theorem Inv.ok (hi : Inv g s) (hpc : s.pc t = ph) : ph.Ok g s.heap := hpc ▸ hi.phases t

theorem pages_eq (hpc : s.pc t = ph) : s.pages t = ph.page := congrArg Phase.page hpc

theorem blocks_eq (hpc : s.pc t = ph) : s.blocks t = ph.block := congrArg Phase.block hpc

theorem Inv.liveUnit_held (hi : Inv g s) {u : Nat} (hu : LiveUnit g s.held u) : LiveUnit g s.live u := by
  obtain ⟨x, hx, hcov⟩ := hu
  obtain ⟨a, ha, rfl⟩ := List.mem_map.mp hx
  exact liveUnit_of_mem (hi.held_live ha) hcov

theorem Inv.pos_of_slab (hi : Inv g s) {q : Nat} (hq : (s.settled.page q).slab = true) : 0 < q := by
  obtain ⟨b, hb, rfl⟩ := hi.occupied q hq
  exact (hi.core.blocks b hb).pos

/-- Listed pages are in nobody's hands. -/
theorem Inv.not_held_of_listed (hi : Inv g s) {c : SizeClass} {q : Nat} (hq : q ∈ s.heap.list c) :
    ¬ Held s.pages q :=
  Heap.not_out_of_slab (hi.core.listed c q hq).1

/-- Nor are the pages of live blocks. -/
theorem Inv.not_held_of_live (hi : Inv g s) (hb : b ∈ s.live) : ¬ Held s.pages (g.virt_to_page b.addr) :=
  Heap.not_out_of_slab (hi.core.blocks b hb).held

theorem Inv.settled_returned (hi : Inv g s) {q : Nat} (hq : s.used q = false) : (s.settled.page q).slab = false := by
  obtain ⟨hslab, hout⟩ := hi.returned q hq
  rw [Machine.settled, Heap.without_page hout]
  exact hslab

/-- The pages other than that of a block stay occupied without it. -/
theorem Inv.still_occupied (hi : Inv g s) {q : Nat} (hslab : (s.settled.page q).slab = true)
    (hqp : q ≠ g.virt_to_page b.addr) :
    ∃ a ∈ s.live.filter (fun a => a.addr ≠ b.addr), g.virt_to_page a.addr = q := by
  obtain ⟨a, ha, hpa⟩ := hi.occupied q hslab
  refine ⟨a, List.mem_filter.mpr ⟨ha, ?_⟩, hpa⟩
  rw [decide_eq_true_eq]
  exact fun haddr => hqp (by rw [← hpa, haddr])

/-- Writes by the owner of a cell. -/
theorem Inv.store (hi : Inv g s) {u : Nat} {value : Int} (hv : (Move.store u value : Move T).Valid g s) :
    Inv g { s with heap.mem := update s.heap.mem u value } := by
  refine { hi with core := ?_, phases := fun t => (hi.phases t).frame fun _ _ => rfl }
  apply hi.core.of_mem
  intro v hslab hlive
  apply update_of_ne
  rintro rfl
  obtain hheld | hused := hv
  · exact hlive (hi.liveUnit_held hheld)
  · rw [hi.settled_returned hused] at hslab
    exact Bool.noConfusion hslab

/-- When no call is under way, nothing is masked and every live block is a caller's. -/
theorem Inv.quiet (hi : Inv g s) (hidle : ∀ t, s.pc t = .idle) : slob.Inv g ⟨s.heap, s.held⟩ := by
  have hpages : ∀ q, ¬ Held s.pages q := by
    rintro q ⟨t, ht⟩
    simp [Machine.pages, hidle, Phase.page] at ht
  have hblocks : ∀ b, ¬ Held s.blocks b := by
    rintro b ⟨t, ht⟩
    simp [Machine.blocks, hidle, Phase.block] at ht
  have hsettled : s.settled = s.heap :=
    Heap.eq_of_fields rfl (fun q => Heap.without_page (hpages q)) rfl rfl rfl
  have hlive : ∀ b, b ∈ s.held ↔ b ∈ s.live := fun b => by simp [hi.owned.live b, hblocks b]
  refine ⟨?_, fun q hq => ?_⟩
  · have hcore := hi.core.of_mem_iff hlive hi.owned.nodup
    rwa [hsettled] at hcore
  · obtain ⟨b, hb, hpage⟩ := hi.occupied q (by rw [hsettled]; exact hq)
    exact ⟨b, (hlive b).mpr hb, hpage⟩

/-- What threads and callers can rely on. At every moment the lists, and the pages that no thread has in its
    hands between `set_slob_page` or `free_slob_page` and the page allocator, are well formed, and what is free
    in them is apart from all blocks. Carved blocks do not overlap, each lies aligned in a page that the heap
    holds, and each is in one pair of hands. A page at the page allocator is on no list. When no call is under
    way the heap is one that calls made one after another leave. -/
structure Safe (g : Geometry) (s : Machine T) : Prop where
  heap : Core g s.settled s.live
  apart : ∀ a ∈ s.live, ∀ b ∈ s.live, a ≠ b → Block.Apart g a b
  blocks : ∀ b ∈ s.live, BlockOk g s.heap b ∧ s.used (g.virt_to_page b.addr) = true
  owners : ∀ b ∈ s.live, (b ∈ s.held ∧ ∀ t, (s.pc t).block ≠ some b) ∨ (b ∉ s.held ∧ ∃! t, (s.pc t).block = some b)
  returned : ∀ q, s.used q = false → (s.heap.page q).slab = false ∧ ∀ c, q ∉ s.heap.list c
  quiet : (∀ t, s.pc t = .idle) → slob.Inv g ⟨s.heap, s.held⟩

theorem Inv.safe (hi : Inv g s) : Safe g s where
  heap := hi.core
  apart a ha b hb hne := hi.core.apart_of_ne ha hb hne
  blocks b hb := by
    obtain ⟨hheld, hpos, hsp, hsl, hfits, hal⟩ := hi.core.blocks b hb
    constructor
    · rw [Machine.settled, Heap.without_page (hi.not_held_of_live hb)] at hheld
      exact ⟨hheld, hpos, hsp, hsl, hfits, hal⟩
    · by_contra hused
      rw [hi.settled_returned (Bool.not_eq_true _ ▸ hused)] at hheld
      exact Bool.noConfusion hheld
  owners b hb := by
    by_cases hheld : b ∈ s.held
    · exact .inl ⟨hheld, fun t ht => hi.owned.apart b hheld ⟨t, ht⟩⟩
    · obtain ⟨t, ht⟩ := ((hi.owned.live b).mp hb).resolve_left hheld
      exact .inr ⟨hheld, t, ht, fun t' ht' => hi.owned.exclusive _ _ _ ht' ht⟩
  returned q hq := by
    refine ⟨(hi.returned q hq).1, fun c hin => ?_⟩
    have hslab := (hi.core.listed c q hin).1
    rw [hi.settled_returned hq] at hslab
    exact Bool.noConfusion hslab
  quiet := hi.quiet

end Invariant

end cs444.slob.smp
