import Cs444.Lib.Cyclic
import Cs444.Lib.Interleaving
import Cs444.Sstf.Cursor

open interleaving

namespace cs444.sstf

variable {s s' : State} {c : Call} {head : sector_t}

/-- The sector as a number. -/
def request.pos (rq : request) : Nat := rq.sector.toNat

section Calls

/-- The block layer does not add a request that is still queued. -/
def Call.Fresh (s : State) : Call → Prop
  | .add rq _ => rq ∉ s.nd.queue
  | .dispatch _ => True

instance (s : State) : (c : Call) → Decidable (c.Fresh s)
  | .add rq _ => inferInstanceAs (Decidable (rq ∉ s.nd.queue))
  | .dispatch _ => .isTrue trivial

/-- One call of the block layer. -/
def next (s : State) (c : Call) : Option State :=
  if c.Fresh s then some (step s c) else none

/-- The cursor is not on the list head when a request is to be dispatched. A dispatch from there hands
    the list head on as a request, and `elv_dispatch_sort` links it into its own list. -/
def Call.OnRequest (s : State) : Call → Prop
  | .add _ _ => True
  | .dispatch _ => s.nd.queue ≠ [] → s.nd.enqueue ≠ none

/-- No request is queued twice, the count is right, and the cursor of a non-empty queue is on it or on
    the list head. -/
structure Linked (nd : sstf_data) : Prop where
  nodup : nd.queue.Nodup
  count : nd.queue_count = nd.queue.length
  cursor : nd.queue ≠ [] → ∀ rq, nd.enqueue = some rq → rq ∈ nd.queue

theorem next_eq_some : next s c = some s' ↔ c.Fresh s ∧ s' = step s c := by
  rw [next]
  split
  · rename_i hfresh
    simp [hfresh, eq_comm]
  · rename_i hnot
    simp [hnot]

theorem along_cons {C : State → Call → Prop} {cs : List Call} :
    Along next C s (c :: cs) ↔ (c.Fresh s → C s c ∧ Along next C (step s c) cs) := by
  constructor
  · intro h hfresh
    exact h _ (next_eq_some.mpr ⟨hfresh, rfl⟩)
  · intro h s' hnext
    obtain ⟨hfresh, rfl⟩ := next_eq_some.mp hnext
    exact h hfresh

theorem Initial.linked (hs : Initial s) : Linked s.nd := by
  obtain ⟨hqueue, hcount⟩ := hs.queue_eq_nil
  refine ⟨?_, ?_, fun hne => absurd hqueue hne⟩
  · rw [hqueue]
    exact List.nodup_nil
  · rw [hqueue, hcount]
    rfl

variable {nd : sstf_data} {rq : request}

theorem Linked.add (h : Linked nd) (hfresh : rq ∉ nd.queue) (head : sector_t) :
    Linked (sstf_add_request nd rq head) := by
  obtain ⟨hperm, hcount, henqueue⟩ := sstf_add_request_spec nd rq head
  refine ⟨hperm.nodup_iff.mpr (List.nodup_cons.mpr ⟨hfresh, h.nodup⟩), ?_, fun _ r hr => ?_⟩
  · rw [hcount, h.count, hperm.length_eq, List.length_cons]
    push_cast
    rfl
  · rw [henqueue] at hr
    apply hperm.mem_iff.mpr
    split at hr
    · cases hr
      exact List.mem_cons_self
    · rename_i hne
      exact List.mem_cons_of_mem _ (h.cursor hne r hr)

/-- The neighbour the comparison selects stays on the list, if it is a request. -/
theorem neighbour_mem_erase {q : request} (hrq : rq ∈ nd.queue) (hcur : nd.enqueue = some rq)
    (h : nd.neighbour head = some q) : q ∈ nd.queue.erase rq := by
  rw [sstf_data.neighbour, hcur] at h
  split at h
  · exact ring.prev_mem_erase hrq h
  · exact ring.next_mem_erase hrq h

theorem Linked.dispatch (h : Linked nd) (hcur : nd.queue ≠ [] → nd.enqueue ≠ none) (head : sector_t) :
    Linked (sstf_dispatch nd head).2 := by
  by_cases hne : nd.queue = []
  · rw [sstf_dispatch, if_pos hne]
    exact h
  obtain ⟨rq, hrq⟩ := Option.ne_none_iff_exists'.mp (hcur hne)
  have hmem := h.cursor hne rq hrq
  have hlen := List.length_erase_of_mem hmem
  have hpos := List.length_pos_of_mem hmem
  have hcount := h.count
  rw [sstf_dispatch_eq hne hrq]
  refine ⟨h.nodup.erase rq, by dsimp only; omega, fun hleft r hr => ?_⟩
  have hmore := List.length_pos_iff.mpr hleft
  dsimp only at hmore hr ⊢
  rw [if_neg (by omega)] at hr
  exact neighbour_mem_erase hmem hrq hr

theorem Linked.next (h : Linked s.nd) (hcur : c.OnRequest s) (hnext : sstf.next s c = some s') : Linked s'.nd := by
  obtain ⟨hfresh, rfl⟩ := next_eq_some.mp hnext
  cases c with
  | add rq head => exact h.add hfresh head
  | dispatch head => exact h.dispatch hcur head

end Calls

section Insertion

/-- Behind an entry further on in the list. -/
theorem addAfter_cons {α : Type} [DecidableEq α] {a b : α} (h : a ≠ b) (l : List α) (x : α) :
    ring.addAfter (a :: l) x (some b) = a :: ring.addAfter l x (some b) := by
  simp [ring.addAfter, ring.before, ring.starting, h]

/-- The entry found by the loop is where `place` puts the request; what is read at the list head decides
    only between two ways to the end of the list. -/
theorem add_position_place {queue_count : Int} (hcount : queue_count ≠ 1) (rq : request) (head : sector_t)
    {queue : List request} (hnodup : queue.Nodup) :
    (match add_position queue_count rq.sector head queue with
      | some pos => ring.addAfter queue rq (some pos)
      | none => queue ++ [rq]) = cyclic.place request.pos rq queue := by
  induction queue with
  | nil => rfl
  | cons a queue ih =>
    obtain ⟨hnot, hrest⟩ := List.nodup_cons.mp hnodup
    rw [add_position, if_neg hcount]
    cases queue with
    | nil =>
      split
      · rename_i pos hpos
        split at hpos
        · cases hpos
          simp [ring.addAfter, ring.before, ring.starting, cyclic.place]
        · simp [add_position] at hpos
      · rfl
    | cons b queue =>
      have htest : rq.sector ≤ blk_rq_pos head (b :: queue).head? ∧ a.sector ≤ rq.sector ↔
          a.pos ≤ rq.pos ∧ rq.pos ≤ b.pos := and_comm
      rw [cyclic.place]
      by_cases hplace : a.pos ≤ rq.pos ∧ rq.pos ≤ b.pos
      · rw [if_pos (htest.mpr hplace), if_pos hplace]
        simp [ring.addAfter, ring.before, ring.starting]
      · rw [if_neg fun h => hplace (htest.mp h), if_neg hplace, ← ih hrest]
        cases hpos : add_position queue_count rq.sector head (b :: queue) with
        | none => rfl
        | some pos =>
          refine addAfter_cons ?_ (b :: queue) rq
          rintro rfl
          exact hnot (add_position_mem hpos)

/-- `sstf_add_request` places the request. With one request queued there is only one place. -/
theorem Linked.add_queue {nd : sstf_data} (h : Linked nd) (rq : request) (head : sector_t) :
    (sstf_add_request nd rq head).queue = cyclic.place request.pos rq nd.queue := by
  rw [sstf_add_request]
  by_cases hnil : nd.queue = []
  · rw [if_pos hnil, hnil]
    rfl
  rw [if_neg hnil]
  by_cases hone : nd.queue_count = 1
  · have hlen : nd.queue.length = 1 := by
      have hcount := h.count
      omega
    obtain ⟨a, ha⟩ := List.length_eq_one_iff.mp hlen
    simp [ha, add_position, hone, ring.addAfter, ring.before, ring.starting, cyclic.place]
  · rw [← add_position_place hone rq head h.nodup]
    cases add_position nd.queue_count rq.sector head nd.queue <;> rfl

end Insertion

section Order

/-- The requests in list order are a rotation of a list in non-decreasing sector order. -/
def Rotated (s : State) : Prop :=
  cyclic.Sorted request.pos s.nd.queue

/-- A request is added while the list is in non-decreasing sector order from its head on, or its sector
    is neither below nor above all queued ones. -/
def Call.InOrder (s : State) : Call → Prop
  | .add rq _ => cyclic.Ascending request.pos s.nd.queue ∨ cyclic.Within request.pos s.nd.queue rq
  | .dispatch _ => True

/-- Dispatching only takes requests off the list. -/
theorem dispatch_sublist (hcur : (Call.dispatch head).OnRequest s) :
    (step s (.dispatch head)).nd.queue.Sublist s.nd.queue := by
  have hqueue : (sstf_dispatch s.nd head).2.queue.Sublist s.nd.queue := by
    by_cases hne : s.nd.queue = []
    · rw [sstf_dispatch, if_pos hne]
    · obtain ⟨rq, hrq⟩ := Option.ne_none_iff_exists'.mp (hcur hne)
      rw [sstf_dispatch_eq hne hrq]
      exact List.erase_sublist
  exact hqueue

theorem Rotated.dispatch (h : Rotated s) (hcur : (Call.dispatch head).OnRequest s) :
    Rotated (step s (.dispatch head)) :=
  cyclic.Sorted.sublist h (dispatch_sublist hcur)

theorem rotated_next_iff (h : Rotated s) (hlinked : Linked s.nd) (hcur : c.OnRequest s)
    (hnext : next s c = some s') : Rotated s' ↔ c.InOrder s := by
  obtain ⟨-, rfl⟩ := next_eq_some.mp hnext
  cases c with
  | add rq head =>
    have hqueue : (step s (.add rq head)).nd.queue = cyclic.place request.pos rq s.nd.queue :=
      hlinked.add_queue rq head
    rw [Rotated, hqueue]
    exact cyclic.sorted_place_iff h
  | dispatch head => exact iff_of_true (h.dispatch hcur) trivial

/-- In a run in which the list head is never dispatched, all states have their list in rotated order
    exactly if every request is added in order. -/
theorem rotated_iff_inOrder (hs : Initial s) {cs : List Call} (hcur : Along next (fun s c => c.OnRequest s) s cs) :
    Visits next Rotated s cs ↔ Along next (fun s c => c.InOrder s) s cs := by
  have hstart : Linked s.nd ∧ Rotated s := by
    refine ⟨hs.linked, ?_⟩
    rw [Rotated, hs.queue_eq_nil.1]
    exact cyclic.Ascending.sorted List.Pairwise.nil
  refine visits_iff_along_of (I := fun s => Linked s.nd ∧ Rotated s) (fun s h => h.2) ?_ ?_ hstart hcur
  · rintro s c s' ⟨hlinked, hrot⟩ hon hin hnext
    exact ⟨hlinked.next hon hnext, (rotated_next_iff hrot hlinked hon hnext).mpr hin⟩
  · rintro s c s' ⟨hlinked, hrot⟩ hon hin hnext hrot'
    exact hin ((rotated_next_iff hrot hlinked hon hnext).mp hrot')

/-- Three requests, the third below the first two, and a dispatch. -/
def threeCalls : List Call :=
  [.add ⟨1, 10⟩ 1000, .add ⟨2, 30⟩ 1000, .add ⟨3, 5⟩ 1000, .dispatch 1000]

theorem rotated_iff_inOrder_threeCalls : Initial init ∧
    Along next (fun s c => c.OnRequest s) init threeCalls ∧ Visits next Rotated init threeCalls := by
  have hcur : Along next (fun s c => c.OnRequest s) init threeCalls :=
    along_cons.mpr fun _ => ⟨trivial, along_cons.mpr fun _ => ⟨trivial, along_cons.mpr fun _ => ⟨trivial,
      along_cons.mpr fun _ => ⟨fun _ => by decide, trivial⟩⟩⟩⟩
  refine ⟨init_initial, hcur, (rotated_iff_inOrder init_initial hcur).mpr ?_⟩
  refine along_cons.mpr fun _ => ⟨.inl List.Pairwise.nil, along_cons.mpr fun _ => ⟨.inl ?_,
    along_cons.mpr fun _ => ⟨.inl ?_, along_cons.mpr fun _ => ⟨trivial, trivial⟩⟩⟩⟩
  · exact List.pairwise_singleton _ _
  · have hqueue : (step (step init (.add ⟨1, 10⟩ 1000)) (.add ⟨2, 30⟩ 1000)).nd.queue = [⟨1, 10⟩, ⟨2, 30⟩] := by
      decide
    rw [hqueue]
    exact List.pairwise_pair.mpr (by decide)

/-- Four requests, the third below the first two, the fourth below all. -/
def fourCalls : List Call :=
  [.add ⟨1, 10⟩ 0, .add ⟨2, 30⟩ 0, .add ⟨3, 5⟩ 0, .add ⟨4, 3⟩ 0]

/-- The fourth request goes to the end of the list, behind the larger sector 5. -/
theorem fourCalls_unordered : Initial init ∧
    (run init fourCalls).nd.queue = [⟨1, 10⟩, ⟨2, 30⟩, ⟨3, 5⟩, ⟨4, 3⟩] ∧ ¬ Rotated (run init fourCalls) := by
  refine ⟨init_initial, by decide, fun hrot => ?_⟩
  have hqueue : (run init fourCalls).nd.queue = [⟨1, 10⟩, ⟨2, 30⟩, ⟨3, 5⟩] ++ [⟨4, 3⟩] := by decide
  rw [Rotated, hqueue] at hrot
  obtain hasc | ⟨⟨a, ha, hle⟩, -⟩ := hrot.of_concat
  · simp [cyclic.Ascending, request.pos] at hasc
  · simp only [List.mem_cons, List.not_mem_nil, or_false] at ha
    obtain rfl | rfl | rfl := ha <;> exact absurd hle (by decide)

end Order

end cs444.sstf
