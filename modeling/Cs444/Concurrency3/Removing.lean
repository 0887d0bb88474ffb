import Cs444.Concurrency3.Shape

open interleaving singly

open Function

namespace cs444.concurrency3.nodes

variable {R S I D : Nat} {s s' : State S I D} {as : List Nat} {xs : List Int} {i : Fin D} {p q : Deleter}

theorem deleter_abs (hq : s.deleter i = q) : (s.abs R xs).deleter i = q.abs R :=
  congrArg (Deleter.abs R) hq

section Moves

/-- A deleter that does not assign pointers, before or after its step. -/
theorem Stored.deleterAt (h : Stored s xs) (read_sem write_sem : Nat) (hq : s.deleter i = q)
    (hold : q.assigning = false) (hnew : p.assigning = false) (hok : ∀ as, Shape s as xs → p.Ok s.mem as) :
    Stored ({ s with read_sem, write_sem }.deleterAt i p) xs := by
  refine ⟨fun hquiet => ?_, ?_⟩
  · have hothers := ((forall_update_iff s.deleter fun _ q => q.assigning = false).mp hquiet).2
    have hall : ∀ j, (s.deleter j).assigning = false := by
      intro j
      by_cases hj : j = i
      · rw [hj, hq]
        exact hold
      · exact hothers j hj
    obtain ⟨as, hshape⟩ := h.shape hall
    have hdeleter : ∀ j, (update s.deleter i p j).Ok s.mem as :=
      (forall_update_iff s.deleter fun _ q => q.Ok s.mem as).mpr
        ⟨hok as hshape, fun j _ => hshape.deleter j⟩
    exact ⟨as, { hshape with deleter := hdeleter }⟩
  · exact (forall_update_iff s.deleter fun _ q => ∀ val stack result, q = .assign val stack result →
      Assigning s xs val stack result).mpr
        ⟨fun _ _ _ hp => absurd hp (Deleter.ne_assign hnew), fun j _ => h.assigning j⟩

theorem Stored.deleter_stutter (h : Stored s xs) (hq : s.deleter i = q) (hpq : p.abs R = q.abs R)
    (hold : q.assigning = false) (hnew : p.assigning = false) (hok : ∀ as, Shape s as xs → p.Ok s.mem as) :
    Follows R s (s.deleterAt i p) xs xs :=
  ⟨deleter_stutters (by rw [hq, hpq]), h.deleterAt s.read_sem s.write_sem hq hold hnew hok⟩

/-- A step of a deleter outside of `remove_node` is the same one in the abstract program. -/
theorem Stored.deleter_same (h : Stored s xs) (val : Int) (read_sem write_sem : Nat) (hq : s.deleter i = q)
    (hold : q.assigning = false) (hnew : p.assigning = false) (hok : ∀ mem as, p.Ok mem as)
    (hnext : concurrency3.deleter_next R (s.abs R xs) i val = some
      { s.abs R xs with read_sem, write_sem, deleter := update (s.abs R xs).deleter i (p.abs R) }) :
    Follows R s ({ s with read_sem, write_sem }.deleterAt i p) xs xs := by
  refine ⟨.inr ⟨.deleter i val, ?_⟩, h.deleterAt read_sem write_sem hq hold hnew fun as _ => hok s.mem as⟩
  rw [concurrency3.next, hnext, abs_deleter]

/-- A deleter begins or goes on to assign pointers. Nobody else is inside, so only its own calls
    have to know the nodes. -/
theorem Refines.assigning_move (h : Refines R s xs) (hq : s.deleter i = q) (hi : q.abs R = .remove)
    {val : Int} {stack : List Nat} {result : Option Nat} {mem : Nat → node} {allocated : Nat → Bool}
    (hassigning : Assigning { s with mem, allocated } xs val stack result) :
    Follows R s ({ s with mem, allocated }.deleterAt i (.assign val stack result)) xs xs := by
  refine ⟨deleter_stutters (by rw [hq, hi]; rfl), fun hquiet => ?_, ?_⟩
  · have hself := ((forall_update_iff s.deleter fun _ q => q.assigning = false).mp hquiet).1
    simp [Deleter.assigning] at hself
  · refine (forall_update_iff s.deleter fun _ q => ∀ val' stack' result', q = .assign val' stack' result' →
      Assigning { s with mem, allocated } xs val' stack' result').mpr ⟨fun _ _ _ hp => ?_, fun j hj _ _ _ hp => ?_⟩
    · obtain ⟨rfl, rfl, rfl⟩ := Deleter.assign.inj hp
      exact hassigning
    · have hout := (h.removing (i := i) (by rw [hq, hi])).2.2 j hj
      exact absurd hp (Deleter.ne_assign (Deleter.assigning_of_outside hout))

end Moves

section Remove

variable {val : Int} {stack : List Nat} {curr : Nat}

/-- Without a node that has the value, the calls return what they were called for. -/
theorem Shape.assigning_none (h : Shape s as xs) (has : as = stack.reverse)
    (hstack : ∀ a ∈ stack, (s.mem a).data ≠ val) : Assigning s xs val stack none := by
  refine ⟨[], rfl, ?_, ?_, ?_⟩
  · rw [List.append_nil, ← has]
    exact h.nodup
  · rw [List.append_nil, ← has]
    exact h.allocated
  · have hnot : val ∉ xs := by
      rw [← h.values, has]
      intro hmem
      obtain ⟨a, ha, hval⟩ := List.mem_map.mp hmem
      exact hstack a (List.mem_reverse.mp ha) hval
    rw [List.append_nil, ← has, h.values, remove_node_eq_erase, List.erase_of_not_mem hnot]

/-- When the first node with the value is freed, the others are what is left. -/
theorem Shape.assigning_free (h : Shape s as xs) {rest : List Nat}
    (has : as = stack.reverse ++ curr :: rest) (hstack : ∀ a ∈ stack, (s.mem a).data ≠ val)
    (hcurr : (s.mem curr).data = val) :
    Assigning { s with allocated := update s.allocated curr false } xs val stack rest.head? := by
  have hnodup := h.nodup
  have hchain := h.chain
  rw [has] at hnodup hchain
  have hcurr_notin : curr ∉ stack.reverse ++ rest := (List.nodup_middle.mp hnodup).notMem
  refine ⟨rest, ?_, (List.nodup_middle.mp hnodup).of_cons, fun a ha => ?_, ?_⟩
  · have hsuffix : stack.reverse ++ curr :: rest = (stack.reverse ++ [curr]) ++ rest := by simp
    rw [hsuffix] at hchain
    exact hchain.drop
  · have hne : a ≠ curr := fun heq => hcurr_notin (heq ▸ ha)
    dsimp only
    rw [update_of_ne hne]
    refine h.allocated a ?_
    rw [has]
    simp only [List.mem_append, List.mem_cons] at ha ⊢
    tauto
  · have hnot : val ∉ stack.reverse.map fun a => (s.mem a).data := by
      intro hmem
      obtain ⟨a, ha, hval⟩ := List.mem_map.mp hmem
      exact hstack a (List.mem_reverse.mp ha) hval
    rw [← h.values, has, remove_node_eq_erase, List.map_append, List.map_append, List.map_cons, hcurr,
      List.erase_append_right _ hnot, List.erase_cons_head]

/-- A call that returns links its node to what the inner call returned. -/
theorem Assigning.push {result : Option Nat} (h : Assigning s xs val (curr :: stack) result) :
    Assigning { s with mem := set_next s.mem curr result } xs val stack (some curr) := by
  obtain ⟨built, hchain, hnodup, hallocated, hvalues⟩ := h
  have hsplit : (curr :: stack).reverse ++ built = stack.reverse ++ curr :: built := by simp
  rw [hsplit] at hnodup hallocated hvalues
  refine ⟨curr :: built, ?_, hnodup, hallocated, ?_⟩
  · have hnotin : curr ∉ built := fun hmem =>
      (List.nodup_middle.mp hnodup).notMem (List.mem_append_right _ hmem)
    dsimp only
    rw [set_next_next]
    exact hchain.push hnotin
  · dsimp only
    simp only [set_next_data]
    exact hvalues

/-- The end of the list: no node has the value, and the calls begin to return. -/
theorem Refines.descend_end (h : Refines R s xs) (hq : s.deleter i = .descend val stack none) :
    Follows R s (s.deleterAt i (.assign val stack none)) xs xs := by
  obtain ⟨as, hshape⟩ := h.shape_of_removing (i := i) (by rw [hq]; rfl) (by rw [hq]; rfl)
  obtain ⟨⟨rest, has, hcurr⟩, hstack⟩ := hshape.deleter_ok hq
  obtain rfl := List.head?_eq_none_iff.mp hcurr.symm
  exact h.assigning_move hq rfl (hshape.assigning_none (by simpa using has) hstack)

/-- What the call for `curr` knows of the nodes before it. -/
theorem Shape.descend_split (h : Shape s as xs) (hq : s.deleter i = .descend val stack (some curr)) :
    (∃ rest, as = stack.reverse ++ curr :: rest) ∧ ∀ a ∈ stack, (s.mem a).data ≠ val := by
  obtain ⟨⟨rest, has, hcurr⟩, hstack⟩ := h.deleter_ok hq
  obtain ⟨rest', rfl⟩ := List.head?_eq_some_iff.mp hcurr.symm
  exact ⟨⟨rest', has⟩, hstack⟩

theorem Stored.descend_hit (h : Stored s xs) (hq : s.deleter i = .descend val stack (some curr))
    (hdata : (s.mem curr).data = val) : Follows R s (s.deleterAt i (.take_next val stack curr)) xs xs := by
  refine h.deleter_stutter hq rfl rfl rfl fun as hshape => ?_
  obtain ⟨hsplit, hstack⟩ := hshape.descend_split hq
  exact ⟨hsplit, hstack, hdata⟩

theorem Stored.descend_on (h : Stored s xs) (hq : s.deleter i = .descend val stack (some curr))
    (hdata : (s.mem curr).data ≠ val) : Follows R s (s.deleterAt i (.recurse val stack curr)) xs xs := by
  refine h.deleter_stutter hq rfl rfl rfl fun as hshape => ?_
  obtain ⟨hsplit, hstack⟩ := hshape.descend_split hq
  exact ⟨hsplit, hstack, hdata⟩

/-- The call for the next node goes on the stack. -/
theorem Stored.recurse_ok (h : Stored s xs) (hq : s.deleter i = .recurse val stack curr) :
    Follows R s (s.deleterAt i (.descend val (curr :: stack) (s.mem curr).next)) xs xs := by
  refine h.deleter_stutter hq rfl rfl rfl fun as hshape => ?_
  obtain ⟨⟨rest, rfl⟩, hstack, hcurr⟩ := hshape.deleter_ok hq
  refine ⟨⟨rest, by simp, hshape.chain.next_eq⟩, fun a ha => ?_⟩
  obtain rfl | ha := List.mem_cons.mp ha
  · exact hcurr
  · exact hstack a ha

theorem Stored.take_next_ok (h : Stored s xs) (hq : s.deleter i = .take_next val stack curr) :
    Follows R s (s.deleterAt i (.free val stack curr (s.mem curr).next)) xs xs := by
  refine h.deleter_stutter hq rfl rfl rfl fun as hshape => ?_
  obtain ⟨⟨rest, rfl⟩, hstack, hcurr⟩ := hshape.deleter_ok hq
  exact ⟨⟨rest, rfl, hshape.chain.next_eq⟩, hstack, hcurr⟩

/-- The node is freed while the one before it still points to it. -/
theorem Refines.free_ok (h : Refines R s xs) {temp : Option Nat} (hq : s.deleter i = .free val stack curr temp) :
    Follows R s ({ s with allocated := update s.allocated curr false }.deleterAt i
      (.assign val stack temp)) xs xs := by
  obtain ⟨as, hshape⟩ := h.shape_of_removing (i := i) (by rw [hq]; rfl) (by rw [hq]; rfl)
  obtain ⟨⟨rest, has, rfl⟩, hstack, hcurr⟩ := hshape.deleter_ok hq
  exact h.assigning_move hq rfl (hshape.assigning_free has hstack hcurr)

/-- The list is assigned what the outermost call returned. -/
theorem Refines.assign_ok (h : Refines R s xs) {result : Option Nat} (hq : s.deleter i = .assign val [] result) :
    Follows R s ({ s with list := result }.deleterAt i .print_list) xs (remove_node xs val) := by
  obtain ⟨hsearcher, hinserter, hdeleter⟩ := h.removing (i := i) (by rw [hq]; rfl)
  obtain ⟨built, hchain, hnodup, hallocated, hvalues⟩ := h.assigning i val [] result hq
  refine ⟨.inr ⟨.deleter i val, ?_⟩, fun _ => ⟨built, hchain, hnodup, hallocated, hvalues,
    fun j => Searcher.ok_of_outside (hsearcher j), fun j => Inserter.ok_of_outside (hinserter j), ?_⟩, ?_⟩
  · rw [concurrency3.next, concurrency3.deleter_next, deleter_abs hq, abs_deleter]
    rfl
  · exact (forall_update_iff s.deleter fun _ q => q.Ok s.mem built).mpr
      ⟨trivial, fun j hj => Deleter.ok_of_outside (hdeleter j hj)⟩
  · refine (forall_update_iff s.deleter fun _ q => ∀ val' stack' result', q = .assign val' stack' result' →
      Assigning { s with list := result } (remove_node xs val) val' stack' result').mpr
        ⟨fun _ _ _ hp => absurd hp (Deleter.ne_assign rfl), fun j hj _ _ _ hp => ?_⟩
    exact absurd hp (Deleter.ne_assign (Deleter.assigning_of_outside (hdeleter j hj)))

end Remove

section Loops

theorem wait_loop_ok (t : Nat) (mem : Nat → node) (as : List Nat) : (wait_loop R t).Ok mem as := by
  rw [wait_loop]
  split <;> trivial

theorem wait_loop_assigning (t : Nat) : (wait_loop R t).assigning = false := by
  rw [wait_loop]
  split <;> rfl

theorem post_loop_ok (t : Nat) (mem : Nat → node) (as : List Nat) : (post_loop R t).Ok mem as := by
  rw [post_loop]
  split <;> trivial

theorem post_loop_assigning (t : Nat) : (post_loop R t).assigning = false := by
  rw [post_loop]
  split <;> rfl

end Loops

theorem Refines.deleter_next (h : Refines R s xs) {val : Int} (hnext : deleter_next R s i val = some s') :
    Follows R s s' xs (effect s (.deleter i val) xs) := by
  cases hq : s.deleter i with simp only [nodes.deleter_next, effect, hq] at hnext ⊢
  | write_wait =>
    split at hnext
    · rename_i hsem
      cases hnext
      refine h.deleter_same val s.read_sem (s.write_sem - 1) hq rfl (wait_loop_assigning 0) (wait_loop_ok 0) ?_
      rw [concurrency3.deleter_next, deleter_abs hq, wait_loop_abs]
      exact if_pos hsem
    · cases hnext
  | read_wait t =>
    split at hnext
    · rename_i hsem
      cases hnext
      refine h.deleter_same val (s.read_sem - 1) s.write_sem hq rfl (wait_loop_assigning _) (wait_loop_ok _) ?_
      rw [concurrency3.deleter_next, deleter_abs hq, wait_loop_abs]
      exact if_pos hsem
    · cases hnext
  | remove =>
    cases hnext
    exact h.deleter_stutter hq rfl rfl rfl fun as hshape => ⟨⟨as, rfl, hshape.chain.head_eq⟩, by simp⟩
  | descend val stack curr =>
    cases curr with
    | none =>
      cases hnext
      exact h.descend_end hq
    | some curr =>
      dsimp only at hnext
      split at hnext
      · rename_i hdata
        cases hnext
        exact h.descend_hit hq hdata
      · rename_i hdata
        cases hnext
        exact h.descend_on hq hdata
  | recurse val stack curr =>
    cases hnext
    exact h.recurse_ok hq
  | take_next val stack curr =>
    cases hnext
    exact h.take_next_ok hq
  | free val stack curr temp =>
    cases hnext
    exact h.free_ok hq
  | assign val stack result =>
    cases stack with
    | nil =>
      cases hnext
      exact h.assign_ok hq
    | cons curr stack =>
      cases hnext
      exact h.assigning_move hq rfl (h.assigning i val (curr :: stack) result hq).push
  | print_list =>
    cases hnext
    exact h.deleter_stutter hq rfl rfl rfl fun _ _ => trivial
  | printing current =>
    cases current with
    | none =>
      cases hnext
      exact h.deleter_stutter hq (post_loop_abs R 0) rfl (post_loop_assigning 0) fun _ _ => post_loop_ok 0 _ _
    | some current =>
      cases hnext
      exact h.deleter_stutter hq rfl rfl rfl fun _ _ => trivial
  | read_post t =>
    cases hnext
    refine h.deleter_same val (s.read_sem + 1) s.write_sem hq rfl (post_loop_assigning _) (post_loop_ok _) ?_
    rw [concurrency3.deleter_next, deleter_abs hq, post_loop_abs]
    rfl
  | write_post =>
    cases hnext
    refine h.deleter_same val s.read_sem (s.write_sem + 1) (p := .returned) hq rfl rfl (fun _ _ => trivial) ?_
    rw [concurrency3.deleter_next, deleter_abs hq]
    rfl
  | returned => cases hnext

end cs444.concurrency3.nodes
