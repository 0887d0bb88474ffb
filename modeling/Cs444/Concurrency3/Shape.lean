import Cs444.Concurrency3.Abstraction

open interleaving singly

open Function

namespace cs444.concurrency3.nodes

variable {R S I D : Nat} {s s' : State S I D} {as : List Nat} {xs xs' : List Int}

section Memory

/-- What a searcher knows of the nodes `as` of the list: those before its own do not have the
    value. -/
def Searcher.Ok (mem : Nat → node) (as : List Nat) : Searcher → Prop
  | .walk val (some temp) => ∃ pre post, as = pre ++ temp :: post ∧ ∀ a ∈ pre, (mem a).data ≠ val
  | .advance val temp => ∃ pre post, as = pre ++ temp :: post ∧ ∀ a ∈ pre ++ [temp], (mem a).data ≠ val
  | _ => True

/-- A new node that is not on the list yet. -/
structure Fresh (mem : Nat → node) (allocated : Nat → Bool) (as : List Nat) (val : Int) (new_node : Nat) : Prop where
  allocated : allocated new_node = true
  outside : new_node ∉ as
  data : (mem new_node).data = val
  next : (mem new_node).next = none

/-- An inserter has the head of the list, and its `temp` is on the list. -/
def Inserter.Ok (list : Option Nat) (mem : Nat → node) (allocated : Nat → Bool) (as : List Nat) : Inserter → Prop
  | .scan _ _ head temp => list = some head ∧ temp ∈ as
  | .follow _ _ head temp => list = some head ∧ temp ∈ as ∧ (mem temp).next ≠ none
  | .create _ _ none => list = none
  | .create _ _ (some (head, temp)) => list = some head ∧ temp ∈ as ∧ (mem temp).next = none
  | .link _ val head temp new_node =>
    (list = some head ∧ temp ∈ as ∧ (mem temp).next = none) ∧ Fresh mem allocated as val new_node
  | .first _ val new_node => list = none ∧ Fresh mem allocated as val new_node
  | .store _ head => list = some head
  | _ => True

/-- The calls on the stack of a deleter are those for the nodes before its own, and none of them
    has the value. -/
def Deleter.Ok (mem : Nat → node) (as : List Nat) : Deleter → Prop
  | .descend val stack curr =>
    (∃ rest, as = stack.reverse ++ rest ∧ curr = rest.head?) ∧ ∀ a ∈ stack, (mem a).data ≠ val
  | .recurse val stack curr =>
    (∃ rest, as = stack.reverse ++ curr :: rest) ∧ (∀ a ∈ stack, (mem a).data ≠ val) ∧ (mem curr).data ≠ val
  | .take_next val stack curr =>
    (∃ rest, as = stack.reverse ++ curr :: rest) ∧ (∀ a ∈ stack, (mem a).data ≠ val) ∧ (mem curr).data = val
  | .free val stack curr temp =>
    (∃ rest, as = stack.reverse ++ curr :: rest ∧ temp = rest.head?) ∧
      (∀ a ∈ stack, (mem a).data ≠ val) ∧ (mem curr).data = val
  | _ => True

/-- The list is made of the nodes `as`, and every thread is where it can be with them. -/
structure Shape (s : State S I D) (as : List Nat) (xs : List Int) : Prop where
  chain : Chain (fun a => (s.mem a).next) s.list as
  nodup : as.Nodup
  allocated : ∀ a ∈ as, s.allocated a = true
  values : as.map (fun a => (s.mem a).data) = xs
  searcher : ∀ i, (s.searcher i).Ok s.mem as
  inserter : ∀ i, (s.inserter i).Ok s.list s.mem s.allocated as
  deleter : ∀ i, (s.deleter i).Ok s.mem as

/-- The calls of a deleter return: from `result` on the nodes are linked, those on the stack still
    have to be, and all together they are what is left of `xs`. -/
def Assigning (s : State S I D) (xs : List Int) (val : Int) (stack : List Nat) (result : Option Nat) : Prop :=
  ∃ built, Chain (fun a => (s.mem a).next) result built ∧ (stack.reverse ++ built).Nodup ∧
    (∀ a ∈ stack.reverse ++ built, s.allocated a = true) ∧
    (stack.reverse ++ built).map (fun a => (s.mem a).data) = remove_node xs val

def Deleter.assigning : Deleter → Bool
  | .assign .. => true
  | _ => false

/-- The nodes in memory hold the list `xs`. While a deleter assigns pointers its calls know what is
    left of the list; at all other times the list is linked and whole. -/
structure Stored (s : State S I D) (xs : List Int) : Prop where
  shape : (∀ i, (s.deleter i).assigning = false) → ∃ as, Shape s as xs
  assigning : ∀ i val stack result, s.deleter i = .assign val stack result → Assigning s xs val stack result

/-- The nodes in memory hold the abstract list, and the permits are where the abstract program has
    them. -/
structure Refines (R : Nat) (s : State S I D) (xs : List Int) : Prop extends Stored s xs where
  inv : Inv R (s.abs R xs)

/-- What is shown of every step: the abstract program follows it, from the list `xs` to `xs'`, and
    the memory then holds `xs'`. The permits need no attention, since those of the abstract program
    are known to be in order. -/
structure Follows (R : Nat) (s s' : State S I D) (xs xs' : List Int) : Prop where
  simulates : Simulates R s s' xs xs'
  stored : Stored s' xs'

theorem Follows.refines (h : Follows R s s' xs xs') (hs : Refines R s xs) : Refines R s' xs' :=
  ⟨h.stored, h.simulates.inv hs.inv⟩

theorem Shape.searcher_ok (h : Shape s as xs) {i : Fin S} {p : Searcher} (hp : s.searcher i = p) :
    p.Ok s.mem as :=
  hp ▸ h.searcher i

theorem Shape.inserter_ok (h : Shape s as xs) {i : Fin I} {p : Inserter} (hp : s.inserter i = p) :
    p.Ok s.list s.mem s.allocated as :=
  hp ▸ h.inserter i

theorem Shape.deleter_ok (h : Shape s as xs) {i : Fin D} {p : Deleter} (hp : s.deleter i = p) : p.Ok s.mem as :=
  hp ▸ h.deleter i

end Memory

section Values

theorem search_by_value_eq_true {xs : List Int} {val : Int} : search_by_value xs val = true ↔ val ∈ xs := by
  induction xs with
  | nil => simp [search_by_value]
  | cons x xs ih =>
    rw [search_by_value, List.mem_cons]
    split
    · rename_i heq
      simp [heq]
    · rename_i hne
      rw [ih]
      simp [Ne.symm hne]

theorem search_by_value_eq_false {xs : List Int} {val : Int} : search_by_value xs val = false ↔ val ∉ xs := by
  rw [← search_by_value_eq_true, Bool.not_eq_true]

theorem remove_node_eq_erase (xs : List Int) (val : Int) : remove_node xs val = xs.erase val := by
  induction xs with
  | nil => rfl
  | cons x xs ih =>
    rw [remove_node, List.erase_cons, ih]
    simp only [beq_iff_eq]

@[simp] theorem set_next_data (mem : Nat → node) (a b : Nat) (p : Option Nat) :
    (set_next mem a p b).data = (mem b).data := by
  rw [set_next]
  by_cases hb : b = a
  · rw [hb, update_self]
  · rw [update_of_ne hb]

theorem set_next_next (mem : Nat → node) (a : Nat) (p : Option Nat) :
    (fun b => (set_next mem a p b).next) = update (fun b => (mem b).next) a p := by
  funext b
  rw [set_next]
  by_cases hb : b = a
  · rw [hb, update_self, update_self]
  · rw [update_of_ne hb, update_of_ne hb]

end Values

section Exclusion

theorem Searcher.ok_of_outside {mem : Nat → node} {as : List Nat} {p : Searcher} (h : p.abs.inside = false) :
    p.Ok mem as := by
  cases p with
  | walk val temp =>
    cases temp with
    | none => exact trivial
    | some temp => simp [Searcher.abs, concurrency3.Searcher.inside] at h
  | advance => simp [Searcher.abs, concurrency3.Searcher.inside] at h
  | read_wait | search | print_list _ _ | printing _ _ _ | read_post | returned => exact trivial

theorem Inserter.ok_of_outside {list : Option Nat} {mem : Nat → node} {allocated : Nat → Bool} {as : List Nat}
    {p : Inserter} (h : p.abs.inside = false) : p.Ok list mem allocated as := by
  cases p with
  | scan | follow | create | link | first => simp [Inserter.abs, concurrency3.Inserter.inside] at h
  | store t _ => simp [Inserter.abs, insert_loop_inside] at h
  | write_wait | insert _ | print_list _ | printing _ _ | write_post | returned => exact trivial

theorem Deleter.ok_of_outside {mem : Nat → node} {as : List Nat} {p : Deleter} (h : (p.abs R).inside = false) :
    p.Ok mem as := by
  cases p with
  | descend | recurse | take_next | free | assign =>
    simp [Deleter.abs, concurrency3.Deleter.inside] at h
  | write_wait | read_wait _ | remove | print_list | printing _ | read_post _ | write_post | returned => trivial

theorem Deleter.assigning_of_outside {p : Deleter} (h : (p.abs R).inside = false) : p.assigning = false := by
  cases p with
  | assign => simp [Deleter.abs, concurrency3.Deleter.inside] at h
  | descend | recurse | take_next | free => rfl
  | write_wait | read_wait _ | remove | print_list | printing _ | read_post _ | write_post | returned => rfl

theorem Deleter.deleting_of_assigning {p : Deleter} (h : p.assigning = true) : (p.abs R).deleting = true := by
  cases p with
  | assign _ _ _ => rfl
  | _ => simp [Deleter.assigning] at h

theorem Deleter.ne_assign {p : Deleter} (h : p.assigning = false) {val : Int} {stack : List Nat}
    {result : Option Nat} : p ≠ .assign val stack result := by
  rintro rfl
  simp [Deleter.assigning] at h

/-- While a searcher reads, no deleter assigns pointers, so the list is whole. -/
theorem Refines.shape_of_searcher (h : Refines R s xs) {i : Fin S} {p : Searcher} (hp : s.searcher i = p)
    (hin : p.abs.inside = true) : ∃ as, Shape s as xs := by
  refine h.shape fun j => ?_
  by_contra hassigning
  have hdeleting : ((s.abs R xs).deleter j).deleting = true :=
    Deleter.deleting_of_assigning (by simpa using hassigning)
  have hout : (s.searcher i).abs.inside = false := (h.inv.exclusive.deleter j hdeleting).1 i
  rw [hp] at hout
  exact absurd (hin.symm.trans hout) (by simp)

/-- Nobody else has `write_sem`. -/
structure Alone (R : Nat) (s : State S I D) (i : Fin I) : Prop where
  inserter : ∀ j, j ≠ i → (s.inserter j).abs.inside = false
  deleter : ∀ j, ((s.deleter j).abs R).inside = false

theorem Refines.alone (h : Refines R s xs) {i : Fin I} (hin : (s.inserter i).abs.inside = true) : Alone R s i := by
  have hwrite := h.inv.write
  have hheld : 0 < count fun j => ((s.abs R xs).inserter j).inside := count_pos.mpr ⟨i, hin⟩
  refine ⟨fun j hj => ?_, fun j => ?_⟩
  · by_contra hother
    exact hj (h.inv.exclusive.inserter j i ((Bool.not_eq_false _).mp hother) hin)
  · by_contra hother
    have hpos : 0 < count fun j => ((s.abs R xs).deleter j).inside :=
      count_pos.mpr ⟨j, (Bool.not_eq_false _).mp hother⟩
    omega

theorem Refines.shape_of_inserter (h : Refines R s xs) {i : Fin I} (hin : (s.inserter i).abs.inside = true) :
    ∃ as, Shape s as xs :=
  h.shape fun j => Deleter.assigning_of_outside ((h.alone hin).deleter j)

/-- A deleter that removes is the only thread inside. -/
theorem Refines.removing (h : Refines R s xs) {i : Fin D} (hi : (s.deleter i).abs R = .remove) :
    (∀ j, (s.searcher j).abs.inside = false) ∧ (∀ j, (s.inserter j).abs.inside = false) ∧
      ∀ j, j ≠ i → ((s.deleter j).abs R).inside = false := by
  have hdeleting : ((s.abs R xs).deleter i).deleting = true := by
    have hpos : (s.abs R xs).deleter i = .remove := hi
    rw [hpos]
    rfl
  exact h.inv.exclusive.deleter i hdeleting

theorem Refines.shape_of_removing (h : Refines R s xs) {i : Fin D} (hi : (s.deleter i).abs R = .remove)
    (hold : (s.deleter i).assigning = false) : ∃ as, Shape s as xs := by
  refine h.shape fun j => ?_
  by_cases hj : j = i
  · rw [hj]
    exact hold
  · exact Deleter.assigning_of_outside ((h.removing hi).2.2 j hj)

end Exclusion

end cs444.concurrency3.nodes
