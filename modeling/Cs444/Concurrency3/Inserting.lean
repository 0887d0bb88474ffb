import Cs444.Concurrency3.Shape

open interleaving singly

open Function

namespace cs444.concurrency3.nodes

variable {R S I D : Nat} {s s' : State S I D} {as : List Nat} {xs xs' : List Int} {i : Fin I} {p q : Inserter}

theorem inserter_abs (hq : s.inserter i = q) : (s.abs R xs).inserter i = q.abs :=
  congrArg Inserter.abs hq

section Moves

theorem Stored.inserterAt (h : Stored s xs) (write_sem : Nat)
    (hok : ∀ as, Shape s as xs → p.Ok s.list s.mem s.allocated as) :
    Stored ({ s with write_sem }.inserterAt i p) xs := by
  refine ⟨fun hquiet => ?_, h.assigning⟩
  obtain ⟨as, hshape⟩ := h.shape hquiet
  have hinserter : ∀ j, (update s.inserter i p j).Ok s.list s.mem s.allocated as :=
    (forall_update_iff s.inserter fun _ q => q.Ok s.list s.mem s.allocated as).mpr
      ⟨hok as hshape, fun j _ => hshape.inserter j⟩
  exact ⟨as, { hshape with inserter := hinserter }⟩

/-- A step of an inserter that only moves it on, without a trace in the abstract program. -/
theorem Stored.inserter_stutter (h : Stored s xs) (hq : s.inserter i = q) (hpq : p.abs = q.abs)
    (hok : ∀ as, Shape s as xs → p.Ok s.list s.mem s.allocated as) : Follows R s (s.inserterAt i p) xs xs :=
  ⟨inserter_stutters (by rw [hq, hpq]), h.inserterAt s.write_sem hok⟩

/-- The abstract inserter takes the same step: it gets or posts the semaphore. -/
theorem Stored.inserter_same (h : Stored s xs) (val : Int) (write_sem : Nat)
    (hok : ∀ list mem allocated as, p.Ok list mem allocated as)
    (hnext : concurrency3.inserter_next (s.abs R xs) i val = some
      { s.abs R xs with write_sem, inserter := update (s.abs R xs).inserter i p.abs }) :
    Follows R s ({ s with write_sem }.inserterAt i p) xs xs := by
  refine ⟨.inr ⟨.inserter i val, ?_⟩, h.inserterAt write_sem fun as _ => hok _ _ _ as⟩
  rw [concurrency3.next, hnext, abs_inserter]

/-- Only the data of the nodes on the list matters to a searcher, and more nodes may follow. -/
theorem Searcher.Ok.append {mem mem' : Nat → node} {as : List Nat} {p : Searcher} (h : p.Ok mem as)
    (hdata : ∀ a ∈ as, (mem' a).data = (mem a).data) (bs : List Nat) : p.Ok mem' (as ++ bs) := by
  cases p with
  | walk val temp =>
    cases temp with
    | none => exact trivial
    | some temp =>
      obtain ⟨pre, post, rfl, hpre⟩ := h
      refine ⟨pre, post ++ bs, by simp, fun a ha => ?_⟩
      rw [hdata a (List.mem_append_left _ ha)]
      exact hpre a ha
  | advance val temp =>
    obtain ⟨pre, post, rfl, hpre⟩ := h
    refine ⟨pre, post ++ bs, by simp, fun a ha => ?_⟩
    have hmem : a ∈ pre ++ temp :: post := by
      obtain ha | ha := List.mem_append.mp ha
      · exact List.mem_append_left _ ha
      · simp [List.mem_singleton.mp ha]
    rw [hdata a hmem]
    exact hpre a ha
  | _ => exact trivial

/-- The inserter that is alone writes: the nodes `bs` are added to the list. Searchers may be on
    their way through it, and find more nodes behind those they know. -/
theorem Shape.inserter_write (hshape : Shape s as xs) (halone : Alone R s i) {list : Option Nat} {mem : Nat → node}
    {allocated : Nat → Bool} (bs : List Nat) (hdata : ∀ a ∈ as, (mem a).data = (s.mem a).data)
    (hchain : Chain (fun a => (mem a).next) list (as ++ bs)) (hnodup : (as ++ bs).Nodup)
    (hallocated : ∀ a ∈ as ++ bs, allocated a = true) (hvalues : xs' = xs ++ bs.map fun a => (mem a).data)
    (hok : p.Ok list mem allocated (as ++ bs)) : Stored ({ s with list, mem, allocated }.inserterAt i p) xs' := by
  refine ⟨fun _ => ⟨as ++ bs, hchain, hnodup, hallocated, ?_, fun j => ?_, ?_, fun j => ?_⟩,
    fun j val stack result hj => ?_⟩
  · dsimp only
    rw [List.map_append, hvalues, ← hshape.values]
    exact congrArg (· ++ _) (List.map_congr_left hdata)
  · exact (hshape.searcher j).append hdata bs
  · exact (forall_update_iff s.inserter fun _ q => q.Ok list mem allocated (as ++ bs)).mpr
      ⟨hok, fun j hj => Inserter.ok_of_outside (halone.inserter j hj)⟩
  · exact Deleter.ok_of_outside (halone.deleter j)
  · exact absurd hj (Deleter.ne_assign (Deleter.assigning_of_outside (halone.deleter j)))

end Moves

section Insert

variable {t head temp new_node : Nat} {val : Int}

/-- `insert_node` is called: it scans from the head of the list, or creates the first node. -/
theorem Stored.insert_some (h : Stored s xs) (hq : s.inserter i = .insert t) (hlist : s.list = some head) :
    Follows R s (s.inserterAt i (.scan t val head head)) xs xs := by
  refine h.inserter_stutter hq rfl fun as hshape => ⟨hlist, ?_⟩
  have hhead := hshape.chain.head_eq
  rw [hlist] at hhead
  exact List.mem_of_head? hhead.symm

theorem Stored.scan_last (h : Stored s xs) (hq : s.inserter i = .scan t val head temp)
    (hnone : (s.mem temp).next = none) :
    Follows R s (s.inserterAt i (.create t val (some (head, temp)))) xs xs := by
  refine h.inserter_stutter hq rfl fun as hshape => ?_
  obtain ⟨hlist, htemp⟩ := hshape.inserter_ok hq
  exact ⟨hlist, htemp, hnone⟩

theorem Stored.scan_on (h : Stored s xs) (hq : s.inserter i = .scan t val head temp)
    (hsome : (s.mem temp).next ≠ none) : Follows R s (s.inserterAt i (.follow t val head temp)) xs xs := by
  refine h.inserter_stutter hq rfl fun as hshape => ?_
  obtain ⟨hlist, htemp⟩ := hshape.inserter_ok hq
  exact ⟨hlist, htemp, hsome⟩

theorem Stored.follow_ok (h : Stored s xs) (hq : s.inserter i = .follow t val head temp) {temp' : Nat}
    (hsome : (s.mem temp).next = some temp') : Follows R s (s.inserterAt i (.scan t val head temp')) xs xs := by
  refine h.inserter_stutter hq rfl fun as hshape => ?_
  obtain ⟨hlist, htemp, -⟩ := hshape.inserter_ok hq
  obtain ⟨pre, post, rfl⟩ := List.append_of_mem htemp
  have hpost : (s.mem temp).next = post.head? := hshape.chain.next_eq
  rw [hsome] at hpost
  have hmem := List.mem_of_head? hpost.symm
  exact ⟨hlist, by simp [hmem]⟩

/-- `create_node` fills a node that is not allocated, so not one of the list. -/
theorem Refines.create_ok (h : Refines R s xs) {addr : Nat} {place : Option (Nat × Nat)}
    (hq : s.inserter i = .create t val place) (hfree : s.allocated addr = false) {mem : Nat → node}
    {allocated : Nat → Bool} (hmem : mem = update s.mem addr { data := val, next := none })
    (hallocated : allocated = update s.allocated addr true) :
    Follows R s ({ s with mem, allocated }.inserterAt i (created t val addr place)) xs xs := by
  have hin : (s.inserter i).abs.inside = true := by rw [hq]; rfl
  obtain ⟨as, hshape⟩ := h.shape_of_inserter hin
  have hne : ∀ a ∈ as, a ≠ addr := by
    rintro a ha rfl
    exact absurd (hfree.symm.trans (hshape.allocated a ha)) (by simp)
  have hsame : ∀ a ∈ as, mem a = s.mem a := fun a ha => by rw [hmem, update_of_ne (hne a ha)]
  have hfresh : Fresh mem allocated as val addr := by
    refine ⟨?_, fun ha => hne addr ha rfl, ?_, ?_⟩
    · rw [hallocated, update_self]
    · rw [hmem, update_self]
    · rw [hmem, update_self]
  have hold := hshape.inserter_ok hq
  refine ⟨inserter_stutters ?_,
    hshape.inserter_write (h.alone hin) [] (fun a ha => by rw [hsame a ha]) ?_ ?_ ?_ (by simp) ?_⟩
  · rw [hq]
    cases place <;> rfl
  · rw [List.append_nil]
    exact hshape.chain.congr fun a ha => by rw [hsame a ha]
  · rw [List.append_nil]
    exact hshape.nodup
  · rw [List.append_nil]
    intro a ha
    rw [hallocated, update_of_ne (hne a ha)]
    exact hshape.allocated a ha
  · rw [List.append_nil]
    cases place with
    | none => exact ⟨hold, hfresh⟩
    | some place =>
      obtain ⟨hlist, htemp, hnext⟩ := hold
      exact ⟨⟨hlist, htemp, by rw [hsame _ htemp]; exact hnext⟩, hfresh⟩

/-- The abstract insertion, at the step that makes the new node part of the list. -/
theorem insert_simulates {list : Option Nat} {mem : Nat → node} (hq : s.inserter i = q) (hold : q.abs = .insert t)
    (hnew : p.abs = concurrency3.insert_loop (t + 1)) :
    Simulates R s ({ s with list, mem }.inserterAt i p) xs (insert_node xs val) := by
  refine .inr ⟨.inserter i val, ?_⟩
  rw [concurrency3.next, concurrency3.inserter_next, inserter_abs hq, hold, abs_inserter, hnew]
  rfl

/-- The new node is linked behind the last one of the list. -/
theorem Refines.link_ok (h : Refines R s xs) (hq : s.inserter i = .link t val head temp new_node) {mem : Nat → node}
    (hmem : mem = set_next s.mem temp (some new_node)) :
    Follows R s ({ s with mem }.inserterAt i (.store t head)) xs (insert_node xs val) := by
  have hin : (s.inserter i).abs.inside = true := by rw [hq]; rfl
  obtain ⟨as, hshape⟩ := h.shape_of_inserter hin
  obtain ⟨⟨hlist, htemp, hnext⟩, hfresh⟩ := hshape.inserter_ok hq
  obtain ⟨pre, rfl⟩ := hshape.chain.last_of_next htemp hnext
  have hdata : ∀ a, (mem a).data = (s.mem a).data := fun a => by rw [hmem, set_next_data]
  have hnotin : temp ∉ pre := by
    have hnodup := hshape.nodup
    rw [List.nodup_append] at hnodup
    exact fun hmem => hnodup.2.2 temp hmem temp (by simp) rfl
  refine ⟨insert_simulates hq rfl rfl,
    hshape.inserter_write (h.alone hin) [new_node] (fun a _ => hdata a) ?_ ?_ ?_ ?_ hlist⟩
  · rw [hmem, set_next_next]
    exact hshape.chain.append hnotin hfresh.outside hfresh.next
  · rw [List.nodup_append]
    refine ⟨hshape.nodup, List.nodup_singleton _, fun a ha b hb => ?_⟩
    rw [List.mem_singleton.mp hb]
    rintro rfl
    exact hfresh.outside ha
  · intro a ha
    obtain ha | ha := List.mem_append.mp ha
    · exact hshape.allocated a ha
    · rw [List.mem_singleton.mp ha]
      exact hfresh.allocated
  · rw [insert_node, List.map_singleton, hdata, hfresh.data]

/-- The list was empty, and the new node becomes its head. -/
theorem Refines.first_ok (h : Refines R s xs) (hq : s.inserter i = .first t val new_node) :
    Follows R s ({ s with list := some new_node }.inserterAt i (.print_list t)) xs (insert_node xs val) := by
  have hin : (s.inserter i).abs.inside = true := by rw [hq]; rfl
  obtain ⟨as, hshape⟩ := h.shape_of_inserter hin
  obtain ⟨hlist, hfresh⟩ := hshape.inserter_ok hq
  have hempty := hshape.chain.head_eq
  rw [hlist] at hempty
  obtain rfl := List.head?_eq_none_iff.mp hempty.symm
  refine ⟨insert_simulates hq rfl rfl,
    hshape.inserter_write (h.alone hin) [new_node] (fun a _ => rfl) ⟨rfl, hfresh.next⟩ (List.nodup_singleton _) ?_ ?_
      trivial⟩
  · intro a ha
    obtain rfl : a = new_node := by simpa using ha
    exact hfresh.allocated
  · rw [insert_node, List.map_singleton, hfresh.data]

/-- The list is assigned the head it has. -/
theorem Refines.store_ok (h : Refines R s xs) (hq : s.inserter i = .store t head) :
    Follows R s ({ s with list := some head }.inserterAt i (.print_list t)) xs xs := by
  obtain ⟨as, hshape⟩ := h.shape_of_inserter (i := i) (by rw [hq]; exact insert_loop_inside _)
  have hlist : s.list = some head := hshape.inserter_ok hq
  rw [← hlist]
  exact h.inserter_stutter hq rfl fun _ _ => trivial

theorem insert_loop_ok (t : Nat) (list : Option Nat) (mem : Nat → node) (allocated : Nat → Bool) (as : List Nat) :
    (insert_loop t).Ok list mem allocated as := by
  rw [insert_loop]
  split <;> trivial

end Insert

theorem Refines.inserter_next (h : Refines R s xs) {val : Int} {addr : Nat}
    (hnext : inserter_next s i val addr = some s') : Follows R s s' xs (effect s (.inserter i val addr) xs) := by
  cases hq : s.inserter i with simp only [nodes.inserter_next, effect, hq] at hnext ⊢
  | write_wait =>
    split at hnext
    · rename_i hsem
      cases hnext
      refine h.inserter_same val (s.write_sem - 1) (insert_loop_ok 0) ?_
      rw [concurrency3.inserter_next, inserter_abs hq, insert_loop_abs]
      exact if_pos hsem
    · cases hnext
  | insert t =>
    split at hnext
    · rename_i hlist
      cases hnext
      exact h.inserter_stutter hq rfl fun _ _ => hlist
    · rename_i head hlist
      cases hnext
      exact h.insert_some hq hlist
  | scan t val head temp =>
    split at hnext
    · rename_i hnone
      cases hnext
      exact h.scan_last hq hnone
    · rename_i hsome
      cases hnext
      exact h.scan_on hq (by simp [hsome])
  | follow t val head temp =>
    split at hnext
    · cases hnext
    · rename_i temp' hsome
      cases hnext
      exact h.follow_ok hq hsome
  | create t val place =>
    split at hnext
    · cases hnext
    · rename_i hfree
      cases hnext
      exact h.create_ok hq (by simpa using hfree) rfl rfl
  | link t val head temp new_node =>
    cases hnext
    exact h.link_ok hq rfl
  | first t val new_node =>
    cases hnext
    exact h.first_ok hq
  | store t head =>
    cases hnext
    exact h.store_ok hq
  | print_list t =>
    cases hnext
    exact h.inserter_stutter hq rfl fun _ _ => trivial
  | printing t current =>
    cases current with
    | none =>
      cases hnext
      exact h.inserter_stutter hq (insert_loop_abs _) fun _ _ => insert_loop_ok _ _ _ _ _
    | some current =>
      cases hnext
      exact h.inserter_stutter hq rfl fun _ _ => trivial
  | write_post =>
    cases hnext
    refine h.inserter_same val (s.write_sem + 1) (p := .returned) (fun _ _ _ _ => trivial) ?_
    rw [concurrency3.inserter_next, inserter_abs hq]
    rfl
  | returned => cases hnext

end cs444.concurrency3.nodes
