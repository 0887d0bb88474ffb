import Cs444.Sstf.Elevator

namespace cs444.sstf

variable {s : State} {c : Call} {head : sector_t} {nd : sstf_data} {rq : request}

section Calls

@[simp] theorem run_nil (s : State) : run s [] = s := rfl

@[simp] theorem run_cons (s : State) (c : Call) (cs : List Call) : run s (c :: cs) = run (step s c) cs := rfl

theorem Initial.queue_eq_nil (hs : Initial s) : s.nd.queue = [] ∧ s.nd.queue_count = 0 := by
  obtain ⟨nd, hnd⟩ := hs.nd
  have hnd : { nd with queue := [], queue_count := 0 } = s.nd := by simpa [sstf_init_queue] using hnd
  rw [← hnd]
  exact ⟨rfl, rfl⟩

theorem add_position_mem {queue_count : Int} {new_req_sector : sector_t} {queue : List request}
    {pos : request} (h : add_position queue_count new_req_sector head queue = some pos) : pos ∈ queue := by
  induction queue with
  | nil => simp [add_position] at h
  | cons curr rest ih =>
    rw [add_position] at h
    split at h
    · cases h
      exact List.mem_cons_self
    · split at h
      · cases h
        exact List.mem_cons_self
      · exact List.mem_cons_of_mem _ (ih h)

/-- A request is added somewhere on the list; the cursor moves only onto the first one. -/
theorem sstf_add_request_spec (nd : sstf_data) (rq : request) (head : sector_t) :
    (sstf_add_request nd rq head).queue.Perm (rq :: nd.queue) ∧
      (sstf_add_request nd rq head).queue_count = nd.queue_count + 1 ∧
      (sstf_add_request nd rq head).enqueue = if nd.queue = [] then some rq else nd.enqueue := by
  rw [sstf_add_request]
  split
  · rename_i hnil
    simp [hnil]
  · rename_i hne
    split
    · rename_i pos hpos
      refine ⟨?_, rfl, rfl⟩
      dsimp only
      apply ring.addAfter_perm
      intro a ha
      cases ha
      exact add_position_mem hpos
    · exact ⟨List.perm_append_singleton rq nd.queue, rfl, rfl⟩

/-- A dispatch with the cursor on a request. -/
theorem sstf_dispatch_eq (hne : nd.queue ≠ []) (hcur : nd.enqueue = some rq) (head : sector_t) :
    sstf_dispatch nd head = (some (some rq),
      { queue := nd.queue.erase rq
        enqueue := if nd.queue_count = 1 then some rq else nd.neighbour head
        queue_count := nd.queue_count - 1 }) := by
  rw [sstf_dispatch, if_neg hne]
  dsimp only
  by_cases hone : nd.queue_count = 1
  · rw [if_pos hone, if_pos hone, hcur, list_del_init]
  · rw [if_neg hone, if_neg hone, hcur, list_del_init]

end Calls

section Front

/-- The cursor of a queue with requests is on the first of them or on the list head. -/
structure Fronted (nd : sstf_data) : Prop where
  count : nd.queue.length ≤ nd.queue_count
  cursor : nd.queue ≠ [] → nd.enqueue = none ∨ nd.enqueue = nd.queue.head?

/-- No request is added in front of the others. -/
theorem head?_sstf_add_request (hne : nd.queue ≠ []) : (sstf_add_request nd rq head).queue.head? = nd.queue.head? := by
  rw [sstf_add_request, if_neg hne]
  split
  · rename_i pos hpos
    obtain ⟨pre, post, hqueue, hnot⟩ := List.eq_append_cons_of_mem (add_position_mem hpos)
    dsimp only
    rw [hqueue, ring.addAfter, ring.before_eq hnot, ring.starting_eq hnot]
    cases pre <;> simp
  · exact List.head?_append_of_ne_nil nd.queue hne

theorem Fronted.add (h : Fronted nd) : Fronted (sstf_add_request nd rq head) := by
  obtain ⟨hperm, hcount, henqueue⟩ := sstf_add_request_spec nd rq head
  refine ⟨?_, fun _ => ?_⟩
  · have hlength := hperm.length_eq
    have hle := h.count
    rw [List.length_cons] at hlength
    rw [hcount]
    omega
  · by_cases hnil : nd.queue = []
    · right
      rw [sstf_add_request, if_pos hnil]
      rfl
    · rw [henqueue, if_neg hnil, head?_sstf_add_request hnil]
      exact h.cursor hnil

theorem Fronted.dispatch (h : Fronted nd) : Fronted (sstf_dispatch nd head).2 := by
  have hle := h.count
  cases hqueue : nd.queue with
  | nil =>
    rw [sstf_dispatch, if_pos hqueue]
    exact h
  | cons first rest =>
    have hne : nd.queue ≠ [] := by simp [hqueue]
    rw [hqueue, List.length_cons] at hle
    obtain hcur | hcur := h.cursor hne
    · -- the list head is unlinked, and with it the whole list
      have hempty : (sstf_dispatch nd head).2.queue = [] := by
        rw [sstf_dispatch, if_neg hne]
        dsimp only
        split <;> simp only [hcur, list_del_init]
      have hcount : (sstf_dispatch nd head).2.queue_count = nd.queue_count - 1 := by
        rw [sstf_dispatch, if_neg hne]
        dsimp only
        split <;> rfl
      refine ⟨?_, fun hnot => absurd hempty hnot⟩
      rw [hempty, hcount, List.length_nil]
      omega
    · rw [hqueue, List.head?_cons] at hcur
      rw [sstf_dispatch_eq hne hcur, hqueue, List.erase_cons_head]
      refine ⟨by dsimp only; omega, fun hrest => ?_⟩
      have hmany : nd.queue_count ≠ 1 := by
        have hpos := List.length_pos_of_ne_nil hrest
        dsimp only at hpos
        omega
      simp only [if_neg hmany, sstf_data.neighbour, hcur, hqueue, ring.prev_cons_self, ring.next_cons_self]
      split
      · exact .inl rfl
      · exact .inr rfl

theorem Fronted.step (h : Fronted s.nd) : Fronted (sstf.step s c).nd := by
  cases c with
  | add rq head => exact h.add
  | dispatch head => exact h.dispatch

theorem Fronted.run (h : Fronted s.nd) (cs : List Call) : Fronted (sstf.run s cs).nd := by
  induction cs generalizing s with
  | nil => exact h
  | cons c cs ih => exact ih h.step

theorem Initial.fronted (hs : Initial s) : Fronted s.nd := by
  obtain ⟨hqueue, hcount⟩ := hs.queue_eq_nil
  refine ⟨?_, fun hne => absurd hqueue hne⟩
  rw [hqueue, hcount]
  exact Int.le_refl 0

theorem exists_first_second {queue : List request} (htwo : 2 ≤ queue.length) :
    ∃ first second rest, queue = first :: second :: rest := by
  cases queue with
  | nil => exact absurd htwo (by simp)
  | cons first tail =>
    cases tail with
    | nil => exact absurd htwo (by simp)
    | cons second rest => exact ⟨first, second, rest, rfl⟩

/-- From the first of two or more requests the cursor goes to the second, unless what is read at the list head is
    closer in 32 bits; then it goes to the list head. -/
theorem neighbour_cons {first second : request} {rest : List request} (hqueue : nd.queue = first :: second :: rest)
    (hcur : nd.enqueue = some first) (head : sector_t) :
    nd.neighbour head =
      if distance first.sector head < distance first.sector second.sector then none else some second := by
  simp only [sstf_data.neighbour, hqueue, hcur, ring.prev_cons_self, ring.next_cons_self, List.head?_cons, blk_rq_pos]

/-- From `sstf_init_queue` on, no request ever stands before the one that the cursor is on: what a dispatch
    compares with the next request is what is read at the list head. -/
theorem prev_eq_list_head (hs : Initial s) (cs : List Call) (hne : (run s cs).nd.queue ≠ [])
    (hcur : (run s cs).nd.enqueue = some rq) : ring.prev (run s cs).nd.queue (some rq) = none := by
  obtain hnone | hfirst := (hs.fronted.run cs).cursor hne
  · exact absurd (hcur.symm.trans hnone) (by simp)
  · obtain ⟨first, rest, hqueue⟩ := List.exists_cons_of_ne_nil hne
    rw [hqueue, List.head?_cons, hcur] at hfirst
    cases hfirst
    rw [hqueue]
    exact ring.prev_cons_self rq rest

end Front

end cs444.sstf
