import Mathlib.Data.List.Chain
import Mathlib.Data.List.Rotate
import Mathlib.Logic.Basic

open Function

namespace linked

/-- The pointers of circular doubly linked lists over some nodes. -/
structure Links (ν : Type) where
  next : ν → ν
  prev : ν → ν

variable {ν : Type}

namespace Links

section Rings

/-- The one is in front of the other. -/
def Linked (p : Links ν) (a b : ν) : Prop :=
  p.next a = b ∧ p.prev b = a

/-- Following the pointers leads through these nodes and back to the first. -/
def Ring (p : Links ν) (c : List ν) : Prop :=
  c.Nodup ∧ List.IsChain p.Linked (c ++ c.head?.toList)

/-- The pointers of a node have not changed. -/
def Same (p p' : Links ν) (d : ν) : Prop :=
  p'.next d = p.next d ∧ p'.prev d = p.prev d

variable {p p' : Links ν} {a b x y : ν} {c l : List ν}

theorem Ring.rotate_one (h : p.Ring (a :: l)) : p.Ring (l ++ [a]) := by
  refine ⟨(List.isRotated_concat a l).nodup_iff.mpr h.1, ?_⟩
  cases l with
  | nil => exact h.2
  | cons b l =>
    have hchain : List.IsChain p.Linked (a :: b :: (l ++ [a])) := h.2
    obtain ⟨hlinked, hrest⟩ := List.isChain_cons_cons.mp hchain
    have hclosed : List.IsChain p.Linked ((b :: l) ++ a :: b :: []) :=
      List.isChain_append_cons_cons.mpr ⟨hrest, hlinked, .singleton b⟩
    simpa using hclosed

/-- A ring may be read from any of its nodes on. -/
theorem Ring.isRotated (h : p.Ring c) {c' : List ν} (hrot : c ~r c') : p.Ring c' := by
  obtain ⟨n, rfl⟩ := hrot
  induction n generalizing c with
  | zero => simpa using h
  | succ n ih =>
    cases c with
    | nil => simpa using h
    | cons a l =>
      rw [List.rotate_cons_succ]
      exact ih h.rotate_one

theorem Ring.adjacent {pre post : List ν} (h : p.Ring (pre ++ a :: b :: post)) : p.Linked a b := by
  have hchain := List.IsChain.left_of_append h.2
  exact (List.isChain_append_cons_cons.mp hchain).2.1

theorem Ring.first (h : p.Ring (a :: b :: l)) : p.Linked a b :=
  Ring.adjacent (show p.Ring ([] ++ a :: b :: l) from h)

/-- The last node is in front of the first. -/
theorem Ring.closed {mid : List ν} (h : p.Ring (a :: mid ++ [b])) : p.Linked b a := by
  have hrot : (a :: mid ++ [b]) ~r (b :: a :: mid) := List.isRotated_concat b (a :: mid)
  exact (h.isRotated hrot).first

theorem Ring.single (h : p.Ring [a]) : p.Linked a a :=
  List.isChain_pair.mp h.2

/-- The node in front of the first is on the ring, and is the last. -/
theorem Ring.exists_last (h : p.Ring (a :: l)) : ∃ l₀, a :: l = l₀ ++ [p.prev a] ∧ p.next (p.prev a) = a := by
  obtain rfl | ⟨mid, z, rfl⟩ := List.eq_nil_or_concat l
  · obtain ⟨hnext, hprev⟩ := h.single
    exact ⟨[], by rw [hprev]; rfl, by rw [hprev, hnext]⟩
  · have hring : p.Ring (a :: mid ++ [z]) := by simpa using h
    have hlinked : p.Linked z a := hring.closed
    refine ⟨a :: mid, ?_, ?_⟩
    · rw [hlinked.2]
      simp
    · rw [hlinked.2, hlinked.1]

/-- Pointers that are the same on the nodes of a ring. -/
theorem Ring.congr (h : p.Ring c) (hnext : ∀ a ∈ c, p'.next a = p.next a)
    (hprev : ∀ a ∈ c, p'.prev a = p.prev a) : p'.Ring c := by
  refine ⟨h.1, h.2.imp_of_mem_imp fun a b ha hb hlinked => ?_⟩
  have hin : ∀ d, d ∈ c ++ c.head?.toList → d ∈ c := by
    intro d hd
    obtain hd | hd := List.mem_append.mp hd
    · exact hd
    · exact List.mem_of_mem_head? (by simpa using hd)
  exact ⟨(hnext a (hin a ha)).trans hlinked.1, (hprev b (hin b hb)).trans hlinked.2⟩

/-- Linking the last node to the first closes a ring. -/
theorem ring_of_last {z : ν} {l₀ : List ν} (hnodup : (a :: l).Nodup) (hlast : a :: l = l₀ ++ [z])
    (hchain : List.IsChain p.Linked (a :: l)) (hclosed : p.Linked z a) : p.Ring (a :: l) := by
  refine ⟨hnodup, ?_⟩
  rw [List.head?_cons, Option.toList_some]
  rw [hlast] at hchain ⊢
  rw [List.append_assoc]
  exact List.isChain_append_cons_cons.mpr ⟨hchain, hclosed, .singleton a⟩

theorem Ring.isChain (h : p.Ring c) : List.IsChain p.Linked c :=
  h.2.left_of_append

theorem Ring.same (h : p.Ring c) (hsame : ∀ d ∈ c, p.Same p' d) : p'.Ring c :=
  h.congr (fun d hd => (hsame d hd).1) fun d hd => (hsame d hd).2

theorem Ring.prev_mem (h : p.Ring (a :: l)) : p.prev a ∈ a :: l := by
  obtain ⟨l₀, hl₀, -⟩ := h.exists_last
  rw [hl₀]
  simp

theorem Ring.next_mem (h : p.Ring (a :: l)) : p.next a ∈ a :: l := by
  cases l with
  | nil =>
    rw [h.single.1]
    exact List.mem_cons_self
  | cons b l =>
    rw [h.first.1]
    exact List.mem_cons_of_mem _ List.mem_cons_self

theorem Same.trans {q : Links ν} {d : ν} (h : p.Same p' d) (h' : p'.Same q d) : p.Same q d :=
  ⟨h'.1.trans h.1, h'.2.trans h.2⟩

end Rings

variable [DecidableEq ν]

/-- Make two nodes point at each other. -/
def link (p : Links ν) (a b : ν) : Links ν where
  next := update p.next a b
  prev := update p.prev b a

section Link

variable (p : Links ν) {a b d : ν}

@[simp] theorem link_next_self : (p.link a b).next a = b := update_self ..

@[simp] theorem link_prev_self : (p.link a b).prev b = a := update_self ..

theorem link_next_of_ne (h : d ≠ a) : (p.link a b).next d = p.next d := update_of_ne h ..

theorem link_prev_of_ne (h : d ≠ b) : (p.link a b).prev d = p.prev d := update_of_ne h ..

end Link

/-- Make the neighbours of an entry point at each other. -/
def unlink (p : Links ν) (entry : ν) : Links ν :=
  p.link (p.prev entry) (p.next entry)

/-- `list_del`, which leaves the entry with two poisonous pointers. -/
def list_del (p : Links ν) (entry poison₁ poison₂ : ν) : Links ν where
  next := update (p.unlink entry).next entry poison₁
  prev := update (p.unlink entry).prev entry poison₂

/-- Put an entry between two nodes. -/
def insert (p : Links ν) (new prev next : ν) : Links ν :=
  (p.link new next).link prev new

def list_add (p : Links ν) (new head : ν) : Links ν :=
  p.insert new head (p.next head)

def list_add_tail (p : Links ν) (new head : ν) : Links ν :=
  p.insert new (p.prev head) head

def list_move_tail (p : Links ν) (entry head : ν) : Links ν :=
  (p.unlink entry).list_add_tail entry head

variable {p p' : Links ν} {a b x y : ν} {c l : List ν}

/-- The links between the nodes of a list stay when a node that is in front of none of them is
    made to point at one that is behind none of them. -/
theorem isChain_link {z : ν} (hchain : List.IsChain p.Linked (a :: l)) (hz : z ∈ a :: l → p.next z ∉ l)
    (hy : y ∉ l) : List.IsChain (p.link z y).Linked (a :: l) := by
  refine hchain.imp_of_mem_tail_imp fun u v hu hv hlinked => ?_
  have hv : v ∈ l := hv
  have huz : u ≠ z := by
    rintro rfl
    exact hz hu (hlinked.1 ▸ hv)
  have hvy : v ≠ y := fun heq => hy (heq ▸ hv)
  exact ⟨(p.link_next_of_ne huz).trans hlinked.1, (p.link_prev_of_ne hvy).trans hlinked.2⟩

/-- Taking a node out. -/
theorem Ring.unlink (h : p.Ring (x :: y :: l)) : (p.unlink x).Ring (y :: l) := by
  have hxy : p.Linked x y := h.first
  obtain ⟨hx, hnodup⟩ := List.nodup_cons.mp h.1
  obtain ⟨l₀, hl₀, hnext⟩ := h.exists_last
  obtain ⟨l₁, hl₁⟩ : ∃ l₁, y :: l = l₁ ++ [p.prev x] := by
    cases l₀ with
    | nil => exact absurd hl₀ (by simp)
    | cons d l₁ => exact ⟨l₁, (List.cons.inj hl₀).2⟩
  have hrest : List.IsChain p.Linked (y :: l) := (List.isChain_cons_cons.mp h.isChain).2
  rw [Links.unlink, hxy.1]
  refine ring_of_last hnodup hl₁ (isChain_link hrest ?_ (List.nodup_cons.mp hnodup).1) ⟨by simp, by simp⟩
  intro _ hmem
  rw [hnext] at hmem
  exact hx (List.mem_cons_of_mem _ hmem)

/-- Putting a node in front of the first. -/
theorem Ring.add_tail (h : p.Ring (a :: l)) (hx : x ∉ a :: l) : (p.list_add_tail x a).Ring (x :: a :: l) := by
  obtain ⟨l₀, hl₀, hnext⟩ := h.exists_last
  obtain ⟨hal, -⟩ := List.nodup_cons.mp h.1
  have hxa : a ≠ x := fun heq => hx (heq ▸ List.mem_cons_self)
  have hxz : x ≠ p.prev a := by
    rintro rfl
    exact hx (by rw [hl₀]; simp)
  -- The new node points at the first, then the last points at the new node.
  have hfirst : List.IsChain (p.link x a).Linked (a :: l) := isChain_link h.isChain (fun hmem => absurd hmem hx) hal
  have hlast : List.IsChain ((p.link x a).link (p.prev a) x).Linked (a :: l) := by
    refine isChain_link hfirst (fun _ => ?_) fun hmem => hx (List.mem_cons_of_mem _ hmem)
    rw [p.link_next_of_ne (Ne.symm hxz), hnext]
    exact hal
  rw [list_add_tail, Links.insert]
  have hend : x :: a :: l = (x :: l₀) ++ [p.prev a] := by rw [hl₀]; rfl
  refine ring_of_last (List.nodup_cons.mpr ⟨hx, h.1⟩) hend (List.isChain_cons_cons.mpr ⟨⟨?_, ?_⟩, hlast⟩)
    ⟨by simp, by simp⟩
  · rw [link_next_of_ne _ hxz]
    simp
  · rw [link_prev_of_ne _ hxa]
    simp

/-- Putting a node behind the first. -/
theorem Ring.add (h : p.Ring (a :: l)) (hx : x ∉ a :: l) : (p.list_add x a).Ring (a :: x :: l) := by
  cases l with
  | nil =>
    obtain ⟨hnext, hprev⟩ := h.single
    have hadded := h.add_tail hx
    rw [list_add_tail, hprev] at hadded
    rw [list_add, hnext]
    exact hadded.rotate_one
  | cons b l =>
    have hab : p.Linked a b := h.first
    have hturned : p.Ring (b :: (l ++ [a])) := h.rotate_one
    have hx' : x ∉ b :: (l ++ [a]) := by
      rw [← List.cons_append, (List.isRotated_concat a (b :: l)).mem_iff]
      exact hx
    have hadded := hturned.add_tail hx'
    rw [list_add_tail, hab.2] at hadded
    rw [list_add, hab.1]
    exact hadded.isRotated (List.isRotated_concat a (x :: b :: l))

/-- The ring without its first node. -/
theorem Ring.unlink_first (h : p.Ring (x :: c)) (hc : c ≠ []) : (p.unlink x).Ring c := by
  cases c with
  | nil => exact absurd rfl hc
  | cons y l => exact h.unlink

/-- Moving the first node in front of another one. -/
theorem Ring.move_tail {pre post : List ν} (h : p.Ring (x :: (pre ++ b :: post))) :
    (p.list_move_tail x b).Ring (x :: b :: (post ++ pre)) := by
  have hx : x ∉ pre ++ b :: post := (List.nodup_cons.mp h.1).1
  have hrest := h.unlink_first (by simp)
  have hrot : (pre ++ b :: post) ~r (b :: (post ++ pre)) := List.isRotated_append
  exact (hrest.isRotated hrot).add_tail fun hmem => hx (hrot.mem_iff.mpr hmem)

theorem link_same {d : ν} (ha : d ≠ a) (hb : d ≠ b) : p.Same (p.link a b) d :=
  ⟨p.link_next_of_ne ha, p.link_prev_of_ne hb⟩

/-- Taking a node out of a ring touches that ring only. -/
theorem Ring.unlink_same (h : p.Ring (x :: l)) {d : ν} (hd : d ∉ x :: l) : p.Same (p.unlink x) d :=
  link_same (fun heq => hd (heq ▸ h.prev_mem)) fun heq => hd (heq ▸ h.next_mem)

theorem Ring.add_tail_same (h : p.Ring (a :: l)) {d : ν} (hd : d ∉ a :: l) (hdx : d ≠ x) :
    p.Same (p.list_add_tail x a) d := by
  have ha : d ≠ a := fun heq => hd (heq ▸ List.mem_cons_self)
  have hprev : d ≠ p.prev a := fun heq => hd (heq ▸ h.prev_mem)
  exact (link_same hdx ha).trans (link_same hprev hdx)

theorem Ring.add_same (h : p.Ring (a :: l)) {d : ν} (hd : d ∉ a :: l) (hdx : d ≠ x) : p.Same (p.list_add x a) d := by
  have ha : d ≠ a := fun heq => hd (heq ▸ List.mem_cons_self)
  have hnext : d ≠ p.next a := fun heq => hd (heq ▸ h.next_mem)
  exact (link_same hdx hnext).trans (link_same ha hdx)

theorem Ring.move_tail_same {pre post : List ν} (h : p.Ring (x :: (pre ++ b :: post))) {d : ν}
    (hd : d ∉ x :: (pre ++ b :: post)) : p.Same (p.list_move_tail x b) d := by
  have hfirst := h.unlink_same hd
  have hdx : d ≠ x := fun heq => hd (heq ▸ List.mem_cons_self)
  have hrest := h.unlink_first (by simp)
  have hrot : (pre ++ b :: post) ~r (b :: (post ++ pre)) := List.isRotated_append
  refine hfirst.trans ((hrest.isRotated hrot).add_tail_same (fun hmem => hd ?_) hdx)
  exact List.mem_cons_of_mem _ (hrot.mem_iff.mpr hmem)

/-- `list_del` leaves every other node as taking the entry out does. -/
theorem list_del_same {d poison₁ poison₂ : ν} (hd : d ≠ x) : (p.unlink x).Same (p.list_del x poison₁ poison₂) d :=
  ⟨update_of_ne hd .., update_of_ne hd ..⟩

end Links

end linked
