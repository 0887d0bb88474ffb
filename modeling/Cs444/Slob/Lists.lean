import Cs444.Lib.Linked
import Cs444.Slob.Pages

open interval linked

namespace cs444.slob

variable {g : Geometry} {h : Heap} {s s' : State} {cs : List Call}

section Pointers

/-- The `struct list_head`s: those of the three lists and of the pages, and what `list_del` leaves. -/
inductive ListNode where
  | head (c : SizeClass)
  | page (pfn : Nat)
  | poison1
  | poison2
deriving DecidableEq, Repr

abbrev Pointers := Links ListNode

/-- `list_add(&sp->list, list)` in `set_slob_page_free`. -/
def add_page (p : Pointers) (pfn : Nat) (c : SizeClass) : Pointers :=
  p.list_add (.page pfn) (.head c)

/-- `list_del(&sp->list)` in `clear_slob_page_free`. -/
def del_page (p : Pointers) (pfn : Nat) : Pointers :=
  p.list_del (.page pfn) .poison1 .poison2

/-- What `slob_alloc` does to the pointers when it finds a block on a listed page, which
    `slob_page_alloc` takes off its list if it is full then. -/
def slob_alloc_links (p : Pointers) (c : SizeClass) (pfn : Nat) (full : Bool) : Pointers :=
  let prev := p.prev (.page pfn)
  let p := if full then del_page p pfn else p
  if prev ≠ p.prev (.head c) ∧ p.next (.head c) ≠ p.next prev then p.list_move_tail (.head c) (p.next prev)
  else p

/-- What `slob_alloc` does to the pointers when it takes a new page. -/
def slob_alloc_new_links (p : Pointers) (c : SizeClass) (pfn : Nat) (full : Bool) : Pointers :=
  let p := add_page p pfn c
  if full then del_page p pfn else p

/-- What `slob_free` does to the pointers. `full` is `!slob_page_free(sp)`. -/
def slob_free_links (p : Pointers) (c : SizeClass) (pfn : Nat) (released full : Bool) : Pointers :=
  if released then if full then p else del_page p pfn
  else if full then add_page p pfn c
  else p

/-- A position on a list as a node. -/
def node (c : SizeClass) : Option Nat → ListNode
  | none => .head c
  | some pfn => .page pfn

theorem node_injective (c : SizeClass) : Function.Injective (node c) := by
  intro a b hab
  cases a <;> cases b <;> simp_all [node]

/-- The nodes of a list from its head on. -/
def nodes (list : SizeClass → List Nat) (c : SizeClass) : List ListNode :=
  .head c :: (list c).map .page

/-- The pointers are those of the three lists. -/
def Represents (p : Pointers) (list : SizeClass → List Nat) : Prop :=
  ∀ c, p.Ring (nodes list c)

end Pointers

section Positions

variable {p : Pointers} {list : SizeClass → List Nat} {c : SizeClass}

theorem nodes_append {pre post : List Nat} {pfn : Nat} (hlist : list c = pre ++ pfn :: post) :
    nodes list c = .head c :: (pre.map .page ++ .page pfn :: post.map .page) := by
  simp [nodes, hlist]

theorem Represents.next_head (h : Represents p list) : p.next (.head c) = node c (ring.next (list c) none) := by
  have hring := h c
  rw [nodes] at hring
  cases hlist : list c with
  | nil =>
    rw [hlist] at hring
    exact hring.single.1
  | cons pfn l =>
    rw [hlist] at hring
    exact hring.first.1

theorem Represents.prev_head (h : Represents p list) : p.prev (.head c) = node c (ring.prev (list c) none) := by
  have hring := h c
  rw [nodes] at hring
  obtain hlist | ⟨l, pfn, hlist⟩ := List.eq_nil_or_concat (list c)
  · rw [hlist] at hring
    rw [hlist]
    exact hring.single.2
  · have hclosed : p.Ring (.head c :: l.map .page ++ [.page pfn]) := by
      rw [hlist] at hring
      simpa using hring
    rw [hclosed.closed.2, hlist, ring.prev]
    simp [node]

theorem Represents.next_page (h : Represents p list) {pfn : Nat} (hin : pfn ∈ list c) :
    p.next (.page pfn) = node c (ring.next (list c) (some pfn)) := by
  obtain ⟨pre, post, hlist, hnot⟩ := List.eq_append_cons_of_mem hin
  have hring := h c
  rw [nodes_append hlist] at hring
  rw [hlist, ring.next_eq hnot]
  cases post with
  | nil =>
    have hclosed : p.Ring (.head c :: pre.map .page ++ [.page pfn]) := by simpa using hring
    exact hclosed.closed.1
  | cons q post =>
    have hadjacent : p.Ring ((.head c :: pre.map .page) ++ .page pfn :: .page q :: post.map .page) := by
      simpa using hring
    exact hadjacent.adjacent.1

theorem Represents.prev_page (h : Represents p list) {pfn : Nat} (hin : pfn ∈ list c) :
    p.prev (.page pfn) = node c (ring.prev (list c) (some pfn)) := by
  obtain ⟨pre, post, hlist, hnot⟩ := List.eq_append_cons_of_mem hin
  have hring := h c
  rw [nodes_append hlist] at hring
  rw [hlist, ring.prev_eq hnot]
  obtain rfl | ⟨l, q, rfl⟩ := List.eq_nil_or_concat pre
  · exact hring.first.2
  · have hadjacent : p.Ring ((.head c :: l.map .page) ++ .page q :: .page pfn :: post.map .page) := by
      simpa using hring
    rw [hadjacent.adjacent.2]
    simp [node]

theorem Represents.next_node (h : Represents p list) {pos : Option Nat} (hpos : ∀ q, pos = some q → q ∈ list c) :
    p.next (node c pos) = node c (ring.next (list c) pos) := by
  cases pos with
  | none => exact h.next_head
  | some q => exact h.next_page (hpos q rfl)

end Positions

section Moves

variable {p : Pointers} {list : SizeClass → List Nat} {c : SizeClass} {pfn : Nat}

/-- No page is on two lists. -/
def Separate (list : SizeClass → List Nat) : Prop :=
  ∀ c c' pfn, pfn ∈ list c → pfn ∈ list c' → c = c'

theorem Separate.not_mem_nodes (h : Separate list) {c' : SizeClass} (hne : c' ≠ c) {d : ListNode}
    (hd : d ∈ nodes list c') : d ∉ nodes list c := by
  intro hd'
  simp only [nodes, List.mem_cons, List.mem_map] at hd hd'
  obtain rfl | ⟨q, hq, rfl⟩ := hd
  · simp [hne] at hd'
  · obtain hd' | ⟨q', hq', heq⟩ := hd'
    · cases hd'
    · obtain rfl := ListNode.page.inj heq
      exact hne (h c' c q' hq hq')

/-- Change one list, with pointers that the others do not have. -/
theorem Represents.update (h : Represents p list) (hsep : Separate list) {p' : Pointers}
    {list' : SizeClass → List Nat} (hother : ∀ c', c' ≠ c → list' c' = list c')
    (hring : p'.Ring (nodes list' c))
    (hsame : ∀ c', c' ≠ c → ∀ d ∈ nodes list c', d ∉ nodes list c → p.Same p' d) : Represents p' list' := by
  intro c'
  by_cases hc : c' = c
  · rw [hc]
    exact hring
  · have hnodes : nodes list' c' = nodes list c' := by rw [nodes, nodes, hother c' hc]
    rw [hnodes]
    exact (h c').same fun d hd => hsame c' hc d hd (hsep.not_mem_nodes hc hd)

/-- Taking a page off its list. -/
theorem Represents.del_page (h : Represents p list) (hsep : Separate list) (hin : pfn ∈ list c) :
    Represents (del_page p pfn) fun c => (list c).erase pfn := by
  obtain ⟨pre, post, hlist, hnot⟩ := List.eq_append_cons_of_mem hin
  have hring := h c
  rw [nodes_append hlist] at hring
  have hrot : (ListNode.head c :: (pre.map .page ++ .page pfn :: post.map .page)) ~r
      (.page pfn :: (post.map .page ++ .head c :: pre.map .page)) := by
    have happ : ((ListNode.head c :: pre.map .page) ++ (.page pfn :: post.map .page)) ~r
        ((.page pfn :: post.map .page) ++ (.head c :: pre.map .page)) := List.isRotated_append
    simpa only [List.cons_append] using happ
  have hturned := hring.isRotated hrot
  have hout := hturned.unlink_first (by simp)
  have hback : (post.map ListNode.page ++ .head c :: pre.map .page) ~r
      (.head c :: (pre.map .page ++ post.map .page)) := by
    have happ : (post.map ListNode.page ++ (.head c :: pre.map .page)) ~r
        ((.head c :: pre.map .page) ++ post.map .page) := List.isRotated_append
    simpa only [List.cons_append] using happ
  have hpage : ListNode.page pfn ∉ ListNode.head c :: (pre.map .page ++ post.map .page) := fun hmem =>
    (List.nodup_cons.mp hturned.1).1 (hback.mem_iff.mpr hmem)
  refine h.update hsep (c := c) (fun c' hc => ?_) ?_ fun c' hc d hd hdc => ?_
  · exact List.erase_of_not_mem fun hmem => hc (hsep c' c pfn hmem hin)
  · have herase : nodes (fun c => (list c).erase pfn) c = .head c :: (pre.map .page ++ post.map .page) := by
      simp [nodes, hlist, ring.erase_eq hnot]
    rw [herase]
    refine (hout.isRotated hback).same fun d hd => Links.list_del_same ?_
    rintro rfl
    exact hpage hd
  · rw [nodes_append hlist, hrot.mem_iff] at hdc
    have hne : d ≠ .page pfn := fun heq => hdc (heq ▸ List.mem_cons_self)
    exact (hturned.unlink_same hdc).trans (Links.list_del_same hne)

/-- Putting a page on a list. -/
theorem Represents.add_page (h : Represents p list) (hsep : Separate list) (hnew : ∀ c, pfn ∉ list c)
    (c : SizeClass) : Represents (add_page p pfn c) (Function.update list c (pfn :: list c)) := by
  have hnode : ∀ c, ListNode.page pfn ∉ nodes list c := by
    intro c hmem
    simp only [nodes, List.mem_cons, List.mem_map, reduceCtorEq, false_or] at hmem
    obtain ⟨q, hq, heq⟩ := hmem
    exact hnew c (ListNode.page.inj heq ▸ hq)
  refine h.update hsep (c := c) (fun c' hc => Function.update_of_ne hc ..) ?_ fun c' hc d hd hdc => ?_
  · have hnodes : nodes (Function.update list c (pfn :: list c)) c = .head c :: .page pfn :: (list c).map .page := by
      simp [nodes]
    rw [hnodes]
    exact (h c).add (hnode c)
  · exact (h c).add_same hdc fun heq => hnode c' (heq ▸ hd)

/-- Moving the head of a list in front of a page of it. -/
theorem Represents.move_head (h : Represents p list) (hsep : Separate list) (hin : pfn ∈ list c) :
    Represents (p.list_move_tail (.head c) (.page pfn))
      (Function.update list c (ring.moveHead (list c) (some pfn))) := by
  obtain ⟨pre, post, hlist, hnot⟩ := List.eq_append_cons_of_mem hin
  have hring := h c
  rw [nodes_append hlist] at hring
  refine h.update hsep (c := c) (fun c' hc => Function.update_of_ne hc ..) ?_ fun c' hc d hd hdc => ?_
  · have hnodes : nodes (Function.update list c (ring.moveHead (list c) (some pfn))) c =
        .head c :: .page pfn :: (post.map .page ++ pre.map .page) := by
      simp [nodes, hlist, ring.moveHead, ring.starting_eq hnot, ring.before_eq hnot]
    rw [hnodes]
    exact hring.move_tail
  · rw [nodes_append hlist] at hdc
    exact hring.move_tail_same hdc

end Moves

section Rotation

variable {p : Pointers} {c : SizeClass}

/-- The entry behind which there is none is the last. -/
theorem ring_prev_of_next_none {l : List Nat} {q : Nat} (hin : q ∈ l) (hnext : ring.next l (some q) = none) :
    ring.prev l none = some q := by
  obtain ⟨pre, post, rfl, hnot⟩ := List.eq_append_cons_of_mem hin
  rw [ring.next_eq hnot, List.head?_eq_none_iff] at hnext
  rw [hnext, ring.prev]
  simp

/-- The guards and the move of the list head, on the pointers and on the lists. -/
theorem Represents.rotate (hp : Represents p h.list) (hsep : Separate h.list) {prev : Option Nat}
    (hprev : ∀ q, prev = some q → q ∈ h.list c) :
    Represents (if node c prev ≠ p.prev (.head c) ∧ p.next (.head c) ≠ p.next (node c prev) then
      p.list_move_tail (.head c) (p.next (node c prev)) else p) (h.rotate c prev).list := by
  rw [hp.prev_head, hp.next_head, hp.next_node hprev, Heap.rotate]
  simp only [ne_eq, (node_injective c).eq_iff]
  split
  · rename_i hguard
    obtain ⟨hlast, hfirst⟩ := hguard
    cases hnext : ring.next (h.list c) prev with
    | none =>
      -- Only the last entry has the head behind it, and the first guard excludes it.
      cases prev with
      | none => exact absurd rfl hfirst
      | some q => exact absurd (ring_prev_of_next_none (hprev q rfl) hnext).symm hlast
    | some b =>
      have hin : b ∈ h.list c := by
        cases prev with
        | none => exact List.mem_of_mem_head? hnext
        | some q => exact List.mem_of_mem_erase (ring.next_mem_erase (hprev q rfl) hnext)
      exact hp.move_head hsep hin
  · exact hp

theorem rotate_list_of_ne {prev : Option Nat} {c' : SizeClass} (hc : c' ≠ c) :
    (h.rotate c prev).list c' = h.list c' := by
  rw [Heap.rotate]
  split
  · exact Function.update_of_ne hc ..
  · rfl

theorem rotate_isRotated (h : Heap) (c : SizeClass) (prev : Option Nat) : (h.rotate c prev).list c ~r h.list c := by
  rw [Heap.rotate]
  split
  · dsimp only
    rw [Function.update_self]
    exact ring.moveHead_isRotated _ _
  · exact List.IsRotated.refl _

end Rotation

/-- No unit of the page is free. -/
def Full (g : Geometry) (live : List Block) (pfn : Nat) : Prop :=
  ∀ u, g.virt_to_page u = pfn → LiveUnit g live u

theorem Full.iff_nil {live : List Block} {pfn : Nat} {l : List Interval} (hp : PageOk g h pfn l)
    (hcomp : Complements g live pfn l) : Full g live pfn ↔ l = [] := by
  constructor
  · intro hfull
    cases l with
    | nil => rfl
    | cons x l =>
      have hcov : covers (x :: l) x.start := ⟨x, List.mem_cons_self, le_refl _, by have := hp.gapped.2.1; omega⟩
      have hpage := hp.covers_page hcov
      exact absurd (hfull _ hpage) ((hcomp _ hpage).mp hcov)
  · rintro rfl u hu
    by_contra hnot
    obtain ⟨x, hx, -⟩ := (hcomp u hu).mpr hnot
    exact absurd hx List.not_mem_nil

/-- Each page with free units is on one list, once, and that is the list of the size class of its
    blocks. -/
structure Listed (g : Geometry) (s : State) : Prop where
  partly : ∀ pfn ∈ s.heap.held, ¬ Full g s.live pfn →
    ∃ c, (s.heap.list c).count pfn = 1 ∧ ∀ c', c' ≠ c → pfn ∉ s.heap.list c'
  full : ∀ pfn, Full g s.live pfn → ∀ c, pfn ∉ s.heap.list c
  held : ∀ c, ∀ pfn ∈ s.heap.list c, pfn ∈ s.heap.held
  oneClass : ∀ a ∈ s.live, ∀ b ∈ s.live, g.virt_to_page a.addr = g.virt_to_page b.addr →
    sizeClass a.size = sizeClass b.size
  ofClass : ∀ c, ∀ pfn ∈ s.heap.list c, ∀ b ∈ s.live, g.virt_to_page b.addr = pfn → sizeClass b.size = c

theorem Inv.listed_ok (hi : Inv g s) : Listed g s where
  partly pfn hpfn hnot := by
    obtain ⟨l, hp, hcomp⟩ := hi.core.pages pfn hpfn
    have hne : l ≠ [] := fun hl => hnot ((Full.iff_nil hp hcomp).mpr hl)
    obtain ⟨c, hin⟩ := hi.core.onList pfn hpfn (hp.flag.mpr hne)
    refine ⟨c, List.count_eq_one_of_mem (hi.core.nodup c) hin, fun c' hc hin' => hc ?_⟩
    exact hi.core.oneList c' c pfn hin' hin
  full pfn hfull c hin := by
    obtain ⟨hslab, hfree⟩ := hi.core.listed c pfn hin
    obtain ⟨l, hp, hcomp⟩ := hi.core.pages pfn hslab
    exact hp.flag.mp hfree ((Full.iff_nil hp hcomp).mp hfull)
  held c pfn hin := (hi.core.listed c pfn hin).1
  oneClass := hi.core.pageClass
  ofClass := hi.core.listClass

section Steps

/-- A block was taken from a page of a list: the list has turned, and a page that is full now has
    left it. -/
structure Rotated (g : Geometry) (s s' : State) (c : SizeClass) (pfn : Nat) (full : Bool) : Prop where
  listed : pfn ∈ s.heap.list c
  isFull : full = true ↔ Full g s'.live pfn
  other : ∀ c', c' ≠ c → s'.heap.list c' = s.heap.list c'
  rotated : s'.heap.list c ~r if full then (s.heap.list c).erase pfn else s.heap.list c
  links : ∀ p, Represents p s.heap.list → Represents (slob_alloc_links p c pfn full) s'.heap.list

/-- A block was taken from a new page, which is put first on a list unless it is full. -/
structure Added (g : Geometry) (s s' : State) (c : SizeClass) (pfn : Nat) (full : Bool) : Prop where
  new : pfn ∉ s.heap.held
  isFull : full = true ↔ Full g s'.live pfn
  other : ∀ c', c' ≠ c → s'.heap.list c' = s.heap.list c'
  first : s'.heap.list c = if full then s.heap.list c else pfn :: s.heap.list c
  links : ∀ p, Represents p s.heap.list → Represents (slob_alloc_new_links p c pfn full) s'.heap.list

/-- A block of a page was freed. -/
structure Returned (g : Geometry) (s s' : State) (c : SizeClass) (pfn : Nat) (released full : Bool) : Prop where
  handedBack : released = true ↔ pfn ∉ s'.heap.held
  wasFull : full = true ↔ Full g s.live pfn
  other : ∀ c', c' ≠ c → s'.heap.list c' = s.heap.list c'
  list : s'.heap.list c = if released then (s.heap.list c).erase pfn else
    if full then pfn :: s.heap.list c else s.heap.list c
  links : ∀ p, Represents p s.heap.list → Represents (slob_free_links p c pfn released full) s'.heap.list

/-- What a call does to the lists. -/
def Relisted (g : Geometry) (s s' : State) : Call → Prop
  | .slob_alloc size align _ page =>
    s'.live = s.live ∧ s'.heap.list = s.heap.list ∨
      ∃ addr full, s'.live = ⟨addr, size, align⟩ :: s.live ∧
        (Rotated g s s' (sizeClass size) (g.virt_to_page addr) full ∨
          page = some (g.virt_to_page addr) ∧ Added g s s' (sizeClass size) (g.virt_to_page addr) full)
  | .slob_free block size => ∃ released full, Returned g s s' (sizeClass size) (g.virt_to_page block) released full
  | .store _ _ => s'.heap.list = s.heap.list

theorem Separate.erase {list : SizeClass → List Nat} (hsep : Separate list) (pfn : Nat) :
    Separate fun c => (list c).erase pfn :=
  fun c c' q hq hq' => hsep c c' q (List.mem_of_mem_erase hq) (List.mem_of_mem_erase hq')

theorem Represents.slob_alloc_links {p : Pointers} (hp : Represents p h.list) (hsep : Separate h.list)
    {c : SizeClass} {pfn : Nat} (hin : pfn ∈ h.list c) {h₁ : Heap} {full : Bool}
    (hlist : h₁.list = if full then fun c => (h.list c).erase pfn else h.list) :
    Represents (slob_alloc_links p c pfn full) (h₁.rotate c (ring.prev (h.list c) (some pfn))).list := by
  rw [slob.slob_alloc_links, hp.prev_page hin]
  -- The predecessor taken before the page left the list is still on it.
  have hprev : ∀ q, ring.prev (h.list c) (some pfn) = some q → q ∈ (h.list c).erase pfn := fun q hq =>
    ring.prev_mem_erase hin hq
  cases full with
  | true =>
    rw [if_pos rfl] at hlist
    have hp₁ : Represents (slob.del_page p pfn) h₁.list := hlist ▸ hp.del_page hsep hin
    have hsep₁ : Separate h₁.list := hlist ▸ hsep.erase pfn
    exact hp₁.rotate hsep₁ fun q hq => hlist ▸ hprev q hq
  | false =>
    rw [if_neg Bool.false_ne_true] at hlist
    have hp₁ : Represents p h₁.list := hlist ▸ hp
    have hsep₁ : Separate h₁.list := hlist ▸ hsep
    exact hp₁.rotate hsep₁ fun q hq => hlist ▸ List.mem_of_mem_erase (hprev q hq)

/-- Whether a page is full after a carve. -/
theorem Core.full_iff {live : List Block} {pfn : Nat} {l : List Interval} (hc : Core g h live)
    (hslab : (h.page pfn).slab = true) (hp : PageOk g h pfn l) : Full g live pfn ↔ l = [] := by
  obtain ⟨l₂, hp₂, hcomp⟩ := hc.pages pfn hslab
  rw [hp₂.unique hp] at hcomp
  exact Full.iff_nil hp hcomp

theorem slob_alloc_zero_list (b size : Nat) (zero : Bool) : (g.slob_alloc_zero h b size zero).list = h.list := by
  cases zero <;> rfl

theorem slob_alloc_setup_list (size pfn : Nat) : (g.slob_alloc_setup h size pfn).list =
    Function.update h.list (sizeClass size) (pfn :: h.list (sizeClass size)) := rfl

theorem Inv.relisted_alloc (hi : Inv g s) {size align : Nat} {zero : Bool} {page : Option Nat}
    (hv : (Call.slob_alloc size align zero page).Valid g s)
    (hstep : step g s (.slob_alloc size align zero page) = .ok s') :
    Relisted g s s' (.slob_alloc size align zero page) := by
  obtain ⟨hreq, hout⟩ := hi.alloc_outcome hv
  obtain ⟨hpos, -, -, -, hpage⟩ := hv
  generalize hr : g.slob_alloc s.heap size align zero page = r at hout
  rw [step, hr] at hstep
  cases hout with
  | refused hnone =>
    cases hstep
    exact .inl ⟨rfl, rfl⟩
  | listed hlisted hcarved =>
    rename_i pfn b l l' h₁
    cases hstep
    have hheld := (hi.core.listed _ pfn hlisted).1
    have hcore := hcarved.core hi.core hlisted (hi.pos_of_held hheld) hreq
    have hfull := hcore.full_iff (by rw [hcarved.rest.slab_eq, hheld]) hcarved.after
    have hlist := hcarved.rest.list
    refine .inr ⟨b, decide (l' = []), rfl, .inl ?_⟩
    rw [hcarved.page_eq hpos]
    refine ⟨hlisted, by rw [hfull, decide_eq_true_eq], fun c' hc => ?_, ?_, fun p hp => ?_⟩
    · dsimp only
      rw [slob_alloc_zero_list, rotate_list_of_ne hc, hlist]
      split
      · exact List.erase_of_not_mem fun hin => hc (hi.core.oneList c' _ pfn hin hlisted)
      · rfl
    · dsimp only
      rw [slob_alloc_zero_list]
      refine (rotate_isRotated _ _ _).trans ?_
      dsimp only
      rw [hlist]
      by_cases hl : l' = []
      · simp only [hl, decide_true, if_true]
        exact List.IsRotated.refl _
      · simp only [hl, decide_false, Bool.false_eq_true, if_false]
        exact List.IsRotated.refl _
    · dsimp only
      rw [slob_alloc_zero_list]
      refine hp.slob_alloc_links hi.core.oneList hlisted ?_
      simpa only [decide_eq_true_eq] using hlist
  | fresh hnone hcarved =>
    rename_i pfn b l' h₁
    cases hstep
    obtain ⟨hpfn, hunheld⟩ := hpage pfn rfl
    obtain ⟨hcore', -⟩ := hi.core.slob_alloc_setup hunheld size
    have hin : pfn ∈ (g.slob_alloc_setup s.heap size pfn).list (sizeClass size) :=
      mem_slob_alloc_setup_list.mpr (.inr ⟨rfl, rfl⟩)
    have hcore := hcarved.core hcore' hin hpfn hreq
    have hfull := hcore.full_iff (by rw [hcarved.rest.slab_eq, slob_alloc_setup_slab]) hcarved.after
    have hnew : ∀ c, pfn ∉ s.heap.list c := by
      intro c hmem
      rw [(hi.core.listed c pfn hmem).1] at hunheld
      exact Bool.noConfusion hunheld
    have hlist := hcarved.rest.list
    refine .inr ⟨b, decide (l' = []), rfl, .inr ?_⟩
    rw [hcarved.page_eq hpos]
    refine ⟨rfl, by simp [Heap.held, hunheld], by rw [hfull, decide_eq_true_eq], fun c' hc => ?_, ?_, fun p hp => ?_⟩
    · dsimp only
      rw [slob_alloc_zero_list, hlist, slob_alloc_setup_list]
      split
      · dsimp only
        rw [Function.update_of_ne hc, List.erase_of_not_mem (hnew c')]
      · exact Function.update_of_ne hc ..
    · dsimp only
      rw [slob_alloc_zero_list, hlist, slob_alloc_setup_list]
      by_cases hl : l' = [] <;> simp [hl]
    · have hadd := hp.add_page hi.core.oneList hnew (sizeClass size)
      dsimp only
      rw [slob_alloc_zero_list, hlist, slob_alloc_new_links]
      by_cases hl : l' = []
      · simp only [hl, decide_true, if_true]
        exact hadd.del_page hcore'.oneList hin
      · simp only [hl, decide_false, Bool.false_eq_true, if_false]
        exact hadd

theorem Inv.relisted_free (hi : Inv g s) {b : Block} (hb : b ∈ s.live)
    (hstep : step g s (.slob_free b.addr b.size) = .ok s') : Relisted g s s' (.slob_free b.addr b.size) := by
  have hheld := (hi.core.blocks b hb).held
  obtain ⟨l, hpl, hcompl⟩ := hi.core.pages _ hheld
  have hfull := Full.iff_nil hpl hcompl
  -- A page that is on a list is on the list of the class of its blocks.
  have hclass : ∀ c', c' ≠ sizeClass b.size → g.virt_to_page b.addr ∉ s.heap.list c' := fun c' hc hin =>
    hc (hi.core.listClass c' _ hin b hb rfl).symm
  have hout := hi.core.slob_free hb
  generalize hr : g.slob_free s.heap b.addr b.size = r at hout
  rw [step, hr] at hstep
  cases hout with
  | released hlast hrel =>
    cases hstep
    have hlist := hrel.list
    refine ⟨true, decide (l = []), by simp [Heap.held, hrel.slab], by rw [hfull, decide_eq_true_eq],
      fun c' hc => ?_, ?_, fun p hp => ?_⟩
    · dsimp only
      rw [hlist]
      split
      · exact List.erase_of_not_mem (hclass c' hc)
      · rfl
    · dsimp only
      rw [hlist]
      split
      · rfl
      · rename_i hfree
        refine (List.erase_of_not_mem fun hin => hfree ?_).symm
        exact (hi.core.listed _ _ hin).2
    · dsimp only
      rw [hlist, slob_free_links]
      by_cases hl : l = []
      · have hfree : ¬ (s.heap.page (g.virt_to_page b.addr)).slobFree = true := fun h => hpl.flag.mp h hl
        simpa [hl, hfree] using hp
      · have hfree := hpl.flag.mpr hl
        obtain ⟨c, hin⟩ := hi.core.onList _ hheld hfree
        simpa [hl, hfree] using hp.del_page hi.core.oneList hin
  | returned hp₀ hcomp hp' hret hmore =>
    cases hstep
    have hlist := hret.list
    rw [hp₀.unique hpl] at hlist
    refine ⟨false, decide (l = []), by simp [Heap.held, hret.slab, hheld], by rw [hfull, decide_eq_true_eq],
      fun c' hc => ?_, ?_, fun p hp => ?_⟩
    · dsimp only
      rw [hlist]
      split
      · exact Function.update_of_ne hc ..
      · rfl
    · dsimp only
      rw [hlist]
      by_cases hl : l = [] <;> simp [hl]
    · dsimp only
      rw [hlist, slob_free_links]
      by_cases hl : l = []
      · have hnew : ∀ c, g.virt_to_page b.addr ∉ s.heap.list c := fun c hin =>
          hpl.flag.mp (hi.core.listed c _ hin).2 hl
        simpa [hl] using hp.add_page hi.core.oneList hnew (sizeClass b.size)
      · simpa [hl] using hp

theorem Inv.relisted (hi : Inv g s) {c : Call} (hv : c.Valid g s) (hstep : step g s c = .ok s') :
    Relisted g s s' c := by
  cases c with
  | slob_alloc size align zero page => exact hi.relisted_alloc hv hstep
  | slob_free block size =>
    obtain ⟨b, hb, rfl, rfl⟩ := hv
    exact hi.relisted_free hb hstep
  | store u value =>
    cases hstep
    exact rfl

end Steps

/-- The lists after every sequence of matched calls, and what the next call does to them. -/
theorem lists_in_order (hs : Initial s) (hv : ValidRun g s cs) :
    ∃ s', run g s cs = .ok s' ∧ Listed g s' ∧
      ∀ c, c.Valid g s' → ∃ s'', step g s' c = .ok s'' ∧ Listed g s'' ∧ Relisted g s' s'' c := by
  obtain ⟨s', hrun, hi⟩ := hs.inv.run_ok hv
  refine ⟨s', hrun, hi.listed_ok, fun c hc => ?_⟩
  obtain ⟨s'', hstep, hi'⟩ := hi.step_ok hc
  exact ⟨s'', hstep, hi'.listed_ok, hi.relisted hc hstep⟩

theorem lists_in_order_sample : Initial boot ∧ ValidRun page4096 boot sampleCalls ∧
    ∃ s', run page4096 boot sampleCalls = .ok s' ∧ Listed page4096 s' := by
  obtain ⟨s', hrun, hlisted, -⟩ := lists_in_order boot_initial sampleCalls_valid
  exact ⟨boot_initial, sampleCalls_valid, s', hrun, hlisted⟩

/-- The list heads as `LIST_HEAD` makes them represent the lists at boot. -/
example : Represents ⟨id, id⟩ boot.heap.list :=
  fun _ => ⟨List.nodup_singleton _, by simp [nodes, boot, Links.Linked]⟩

end cs444.slob
