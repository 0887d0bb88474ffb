import Cs444.Concurrency3.Shape

open interleaving singly

open Function

namespace cs444.concurrency3.nodes

variable {R S I D : Nat} {s s' : State S I D} {as : List Nat} {xs : List Int} {i : Fin S} {p q : Searcher}

theorem searcher_abs (hq : s.searcher i = q) : (s.abs R xs).searcher i = q.abs :=
  congrArg Searcher.abs hq

/-- A searcher writes nothing, so what the memory holds stays as it is, and only its own knowledge
    of the list is to be shown. -/
theorem Stored.searcherAt (h : Stored s xs) (read_sem : Nat) (hok : ∀ as, Shape s as xs → p.Ok s.mem as) :
    Stored ({ s with read_sem }.searcherAt i p) xs := by
  refine ⟨fun hquiet => ?_, h.assigning⟩
  obtain ⟨as, hshape⟩ := h.shape hquiet
  have hsearcher : ∀ j, (update s.searcher i p j).Ok s.mem as :=
    (forall_update_iff s.searcher fun _ q => q.Ok s.mem as).mpr
      ⟨hok as hshape, fun j _ => hshape.searcher j⟩
  exact ⟨as, { hshape with searcher := hsearcher }⟩

/-- A step of a searcher that changes nothing in the abstract program. -/
theorem Stored.searcher_stutter (h : Stored s xs) (hq : s.searcher i = q) (hpq : p.abs = q.abs)
    (hok : ∀ as, Shape s as xs → p.Ok s.mem as) : Follows R s (s.searcherAt i p) xs xs :=
  ⟨searcher_stutters (by rw [hq, hpq]), h.searcherAt s.read_sem hok⟩

/-- The abstract searcher takes the same step. It gets or posts the semaphore, or it has the result
    of its search; of the list it then knows nothing any more. -/
theorem Stored.searcher_same (h : Stored s xs) (val : Int) (read_sem : Nat) (hok : ∀ mem as, p.Ok mem as)
    (hnext : concurrency3.searcher_next (s.abs R xs) i val = some
      { s.abs R xs with read_sem, searcher := update (s.abs R xs).searcher i p.abs }) :
    Follows R s ({ s with read_sem }.searcherAt i p) xs xs := by
  refine ⟨.inr ⟨.searcher i val, ?_⟩, h.searcherAt read_sem fun as _ => hok s.mem as⟩
  rw [concurrency3.next, hnext, abs_searcher]

/-- The abstract search, at the step at which the result is certain. -/
theorem Stored.search_done (h : Stored s xs) (val : Int) {result : Bool} (hq : s.searcher i = q)
    (hold : q.abs = .search) (hnew : p.abs = .print result) (hok : ∀ mem as, p.Ok mem as)
    (hresult : search_by_value xs val = result) : Follows R s (s.searcherAt i p) xs xs := by
  refine h.searcher_same val s.read_sem hok ?_
  rw [concurrency3.searcher_next, searcher_abs hq, hold, hnew, ← hresult]
  rfl

section Search

theorem Shape.search_hit (h : Shape s as xs) {val : Int} {temp : Nat} {pre post : List Nat}
    (has : as = pre ++ temp :: post) (hdata : (s.mem temp).data = val) : val ∈ xs := by
  rw [← h.values, has]
  exact List.mem_map.mpr ⟨temp, by simp, hdata⟩

/-- A searcher that has read the null pointer behind its node has seen the whole list. -/
theorem Shape.search_miss (h : Shape s as xs) {val : Int} {temp : Nat} {pre post : List Nat}
    (has : as = pre ++ temp :: post) (hdata : ∀ a ∈ pre ++ [temp], (s.mem a).data ≠ val)
    (hnext : (s.mem temp).next = none) : val ∉ xs := by
  have hchain := h.chain
  rw [has] at hchain
  have hlast : post.head? = none := hchain.next_eq.symm.trans hnext
  obtain rfl := List.head?_eq_none_iff.mp hlast
  rw [← h.values, has]
  intro hmem
  obtain ⟨a, ha, hval⟩ := List.mem_map.mp hmem
  exact hdata a ha hval

/-- `search_by_value` is called: it starts at the head of the list, or has missed already. -/
theorem Refines.search_ok (h : Refines R s xs) (hq : s.searcher i = .search) (val : Int) :
    Follows R s (s.searcherAt i (.walk val s.list)) xs xs := by
  cases hlist : s.list with
  | none =>
    obtain ⟨as, hshape⟩ := h.shape_of_searcher hq rfl
    have hchain := hshape.chain.head_eq
    rw [hlist] at hchain
    obtain rfl := List.head?_eq_none_iff.mp hchain.symm
    refine h.search_done val hq rfl rfl (fun _ _ => trivial) ?_
    rw [← hshape.values]
    rfl
  | some temp =>
    refine h.searcher_stutter hq rfl fun as hshape => ?_
    have hchain := hshape.chain.head_eq
    rw [hlist] at hchain
    obtain ⟨post, rfl⟩ := List.head?_eq_some_iff.mp hchain.symm
    exact ⟨[], post, rfl, by simp⟩

/-- The node has the value. -/
theorem Refines.walk_hit (h : Refines R s xs) {val : Int} {temp : Nat} (hq : s.searcher i = .walk val (some temp))
    (hdata : (s.mem temp).data = val) : Follows R s (s.searcherAt i (.print_list val true)) xs xs := by
  obtain ⟨as, hshape⟩ := h.shape_of_searcher hq rfl
  obtain ⟨pre, post, has, -⟩ := hshape.searcher_ok hq
  exact h.search_done _ hq rfl rfl (fun _ _ => trivial)
    (search_by_value_eq_true.mpr (hshape.search_hit has hdata))

/-- The node has another value. -/
theorem Refines.walk_on (h : Refines R s xs) {val : Int} {temp : Nat} (hq : s.searcher i = .walk val (some temp))
    (hdata : (s.mem temp).data ≠ val) : Follows R s (s.searcherAt i (.advance val temp)) xs xs := by
  refine h.searcher_stutter hq rfl fun as hshape => ?_
  obtain ⟨pre, post, has, hpre⟩ := hshape.searcher_ok hq
  refine ⟨pre, post, has, fun a ha => ?_⟩
  obtain ha | ha := List.mem_append.mp ha
  · exact hpre a ha
  · rw [List.mem_singleton.mp ha]
    exact hdata

/-- The search comes to the next node, or it has missed at the end of the list. -/
theorem Refines.advance_ok (h : Refines R s xs) {val : Int} {temp : Nat} (hq : s.searcher i = .advance val temp) :
    Follows R s (s.searcherAt i (.walk val (s.mem temp).next)) xs xs := by
  cases htemp : (s.mem temp).next with
  | none =>
    obtain ⟨as, hshape⟩ := h.shape_of_searcher hq rfl
    obtain ⟨pre, post, has, hpre⟩ := hshape.searcher_ok hq
    exact h.search_done _ hq rfl rfl (fun _ _ => trivial)
      (search_by_value_eq_false.mpr (hshape.search_miss has hpre htemp))
  | some next =>
    refine h.searcher_stutter hq rfl fun as hshape => ?_
    obtain ⟨pre, post, has, hpre⟩ := hshape.searcher_ok hq
    have hchain := hshape.chain
    rw [has] at hchain
    have hpost : (s.mem temp).next = post.head? := hchain.next_eq
    rw [htemp] at hpost
    obtain ⟨post', rfl⟩ := List.head?_eq_some_iff.mp hpost.symm
    exact ⟨pre ++ [temp], post', by simpa using has, hpre⟩

end Search

theorem Refines.searcher_next (h : Refines R s xs) {val : Int} (hnext : searcher_next s i val = some s') :
    Follows R s s' xs xs := by
  cases hq : s.searcher i with simp only [nodes.searcher_next, hq] at hnext
  | read_wait =>
    split at hnext
    · rename_i hsem
      cases hnext
      refine h.searcher_same val _ (fun _ _ => trivial) ?_
      rw [concurrency3.searcher_next, searcher_abs hq]
      exact if_pos hsem
    · cases hnext
  | search =>
    cases hnext
    exact h.search_ok hq val
  | walk val temp =>
    cases temp with
    | none =>
      cases hnext
      exact h.searcher_stutter hq rfl fun _ _ => trivial
    | some temp =>
      dsimp only at hnext
      split at hnext
      · rename_i hdata
        cases hnext
        exact h.walk_hit hq hdata
      · rename_i hdata
        cases hnext
        exact h.walk_on hq hdata
  | advance val temp =>
    cases hnext
    exact h.advance_ok hq
  | print_list val result =>
    cases hnext
    exact h.searcher_stutter hq rfl fun _ _ => trivial
  | printing val' result current =>
    cases current with
    | none =>
      cases hnext
      refine h.searcher_same val _ (fun _ _ => trivial) ?_
      rw [concurrency3.searcher_next, searcher_abs hq]
      rfl
    | some current =>
      cases hnext
      exact h.searcher_stutter hq rfl fun _ _ => trivial
  | read_post =>
    cases hnext
    refine h.searcher_same val _ (fun _ _ => trivial) ?_
    rw [concurrency3.searcher_next, searcher_abs hq]
    rfl
  | returned => cases hnext

end cs444.concurrency3.nodes
