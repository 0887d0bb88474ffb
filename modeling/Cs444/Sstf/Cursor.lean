import Cs444.Sstf.Front

namespace cs444.sstf

variable {s : State} {c : Call} {cs : List Call} {head : sector_t}

/-- What a state of the scheduler should satisfy: the cursor of a non-empty queue is
    on a queued request, the count is right, and the requests added are the ones
    dispatched together with the ones queued. -/
structure Sound (s : State) : Prop where
  cursor : s.nd.queue ≠ [] → ∃ rq ∈ s.nd.queue, s.nd.enqueue = some rq
  count : s.nd.queue_count = s.nd.queue.length
  accounted : (s.added.map some).Perm (s.dispatched ++ s.nd.queue.map some)

/-- Calling `sstf_dispatch` as often as requests are queued hands on every queued
    request once and leaves a list that is empty, so that the next call returns 0
    and `sstf_exit_queue` passes its check. -/
structure Drained (s s' : State) : Prop where
  dispatched : ∃ ds, s'.dispatched = s.dispatched ++ ds ∧ ds.Perm (s.nd.queue.map some)
  queue : s'.nd.queue = []
  returns : ∀ head, (sstf_dispatch s'.nd head).1 = none
  exit : sstf_exit_queue s'.nd = .ok ()

/-- Every state of a sequence of calls is sound, and where the sequence drains the
    queue it does so completely. -/
structure RunSound (s : State) (cs : List Call) : Prop where
  sound : ∀ pre, pre <+: cs → Sound (run s pre)
  drained : ∀ (pre : List Call) (heads : List sector_t), pre ++ heads.map Call.dispatch <+: cs →
    heads.length = (run s pre).nd.queue.length → Drained (run s pre) (run s (pre ++ heads.map Call.dispatch))

/-- When two or more requests are queued, the distance in 32 bits from the first of
    them to the value read at the list head is not less than that to the second. -/
def Call.Clear (s : State) : Call → Prop
  | .add _ _ => True
  | .dispatch head =>
    match s.nd.queue with
    | first :: second :: _ => distance first.sector second.sector ≤ distance first.sector head
    | _ => True

/-- Every call starts in a state that is clear for it. -/
def ClearRun (s : State) : List Call → Prop
  | [] => True
  | c :: cs => c.Clear s ∧ ClearRun (step s c) cs

theorem Initial.sound (hs : Initial s) : Sound s := by
  obtain ⟨hqueue, hcount⟩ := hs.queue_eq_nil
  refine ⟨?_, ?_, ?_⟩
  · simp [hqueue]
  · simp [hqueue, hcount]
  · simp [hqueue, hs.added, hs.dispatched]

/-- The cursor of a sound state is on the first request. -/
theorem Sound.enqueue_eq (hs : Sound s) (hfront : Fronted s.nd) (hne : s.nd.queue ≠ []) :
    s.nd.enqueue = s.nd.queue.head? := by
  obtain ⟨rq, -, hcur⟩ := hs.cursor hne
  obtain hnone | hfirst := hfront.cursor hne
  · exact absurd (hcur.symm.trans hnone) (by simp)
  · exact hfirst

/-- What a dispatch compares are the values read at the second request and at the list head. -/
theorem Sound.neighbour_ne_none_iff (hs : Sound s) (hfront : Fronted s.nd) (htwo : 2 ≤ s.nd.queue.length) :
    s.nd.neighbour head ≠ none ↔ (Call.dispatch head).Clear s := by
  obtain ⟨first, second, rest, hqueue⟩ := exists_first_second htwo
  have hcur := hs.enqueue_eq hfront (by simp [hqueue])
  rw [hqueue, List.head?_cons] at hcur
  rw [neighbour_cons hqueue hcur, Call.Clear, hqueue]
  simp only [ne_eq, ite_eq_left_iff, reduceCtorEq, imp_false, not_not, BitVec.not_lt]

theorem Sound.add (hs : Sound s) (rq : request) (head : sector_t) : Sound (step s (.add rq head)) := by
  obtain ⟨hperm, hcount, henqueue⟩ := sstf_add_request_spec s.nd rq head
  refine ⟨fun _ => ?_, ?_, ?_⟩
  · simp only [step, henqueue]
    split
    · exact ⟨rq, hperm.mem_iff.mpr List.mem_cons_self, rfl⟩
    · rename_i hne
      obtain ⟨r, hr, hcur⟩ := hs.cursor hne
      exact ⟨r, hperm.mem_iff.mpr (List.mem_cons_of_mem _ hr), hcur⟩
  · simp only [step, hcount, hs.count, hperm.length_eq, List.length_cons]
    push_cast
    rfl
  · have hqueue : ((s.added ++ [rq]).map some).Perm
        (s.dispatched ++ (rq :: s.nd.queue).map some) := by
      rw [List.map_append, List.map_cons]
      refine (hs.accounted.append_right _).trans ?_
      rw [List.append_assoc]
      exact List.Perm.append_left _ (List.perm_append_singleton _ _)
    exact hqueue.trans (List.Perm.append_left _ (hperm.map some).symm)

/-- A dispatch in a clear state hands on the request under the cursor, takes it off the
    list and leaves the cursor on a request that is still queued. -/
theorem Sound.dispatch_spec (hs : Sound s) (hfront : Fronted s.nd) (hclear : (Call.dispatch head).Clear s)
    (hne : s.nd.queue ≠ []) :
    ∃ rq ∈ s.nd.queue, ∃ next,
      step s (.dispatch head) =
        { s with
          nd := { queue := s.nd.queue.erase rq, enqueue := next, queue_count := s.nd.queue_count - 1 }
          dispatched := s.dispatched ++ [some rq] } ∧
      (s.nd.queue.erase rq ≠ [] → ∃ q ∈ s.nd.queue.erase rq, next = some q) := by
  obtain ⟨rq, hrq, hcur⟩ := hs.cursor hne
  have hcount := hs.count
  have herase := List.length_erase_of_mem hrq
  have hlen : 0 < s.nd.queue.length := List.length_pos_iff.mpr hne
  by_cases hone : s.nd.queue_count = 1
  · refine ⟨rq, hrq, s.nd.enqueue, ?_, fun hleft => ?_⟩
    · simp [step, sstf_dispatch, hne, hone, hcur, list_del_init]
    · have := List.length_pos_iff.mpr hleft
      omega
  · refine ⟨rq, hrq, s.nd.neighbour head, ?_, fun _ => ?_⟩
    · simp [step, sstf_dispatch, hne, hone, hcur, list_del_init]
    · obtain ⟨q, hq⟩ := Option.ne_none_iff_exists'.mp ((hs.neighbour_ne_none_iff hfront (by omega)).mpr hclear)
      refine ⟨q, ?_, hq⟩
      rw [sstf_data.neighbour, hcur] at hq
      split at hq
      · exact ring.prev_mem_erase hrq hq
      · exact ring.next_mem_erase hrq hq

theorem Sound.dispatch (hs : Sound s) (hfront : Fronted s.nd) (hclear : (Call.dispatch head).Clear s) :
    Sound (step s (.dispatch head)) := by
  by_cases hne : s.nd.queue = []
  · have hsame : step s (.dispatch head) = s := by simp [step, sstf_dispatch, hne]
    rw [hsame]
    exact hs
  · obtain ⟨rq, hrq, next, hstep, hcursor⟩ := hs.dispatch_spec hfront hclear hne
    have hlen := List.length_erase_of_mem hrq
    have hpos : 0 < s.nd.queue.length := List.length_pos_iff.mpr hne
    have hcount := hs.count
    rw [hstep]
    refine ⟨hcursor, ?_, ?_⟩
    · dsimp only
      omega
    · have hperm := (List.perm_cons_erase hrq).map some
      refine hs.accounted.trans ?_
      rw [List.append_assoc]
      exact List.Perm.append_left _ hperm

theorem Sound.step (hs : Sound s) (hfront : Fronted s.nd) (hclear : c.Clear s) : Sound (sstf.step s c) := by
  cases c with
  | add rq head => exact hs.add rq head
  | dispatch head => exact hs.dispatch hfront hclear

theorem Sound.run (hs : Sound s) (hfront : Fronted s.nd) (hclear : ClearRun s cs) : Sound (sstf.run s cs) := by
  induction cs generalizing s with
  | nil => exact hs
  | cons c cs ih => exact ih (hs.step hfront hclear.1) hfront.step hclear.2

theorem ClearRun.append {cs ds : List Call} :
    ClearRun s (cs ++ ds) ↔ ClearRun s cs ∧ ClearRun (run s cs) ds := by
  induction cs generalizing s with
  | nil => simp [ClearRun]
  | cons c cs ih => simp [ClearRun, ih, and_assoc]

theorem run_append (s : State) (cs ds : List Call) : run s (cs ++ ds) = run (run s cs) ds :=
  List.foldl_append

/-- Draining in clear states: the requests handed on and the ones left over are the
    ones that were queued. -/
theorem Sound.drain {heads : List sector_t} (hs : Sound s) (hfront : Fronted s.nd) (hclear : ClearRun s (heads.map .dispatch))
    (hlen : heads.length ≤ s.nd.queue.length) :
    ∃ ds, (sstf.run s (heads.map .dispatch)).dispatched = s.dispatched ++ ds ∧
      (ds ++ (sstf.run s (heads.map .dispatch)).nd.queue.map some).Perm (s.nd.queue.map some) ∧
      (sstf.run s (heads.map .dispatch)).nd.queue.length + heads.length = s.nd.queue.length := by
  induction heads generalizing s with
  | nil => exact ⟨[], by simp, List.Perm.refl _, rfl⟩
  | cons head heads ih =>
    have hne : s.nd.queue ≠ [] := by
      rintro hnil
      simp [hnil] at hlen
    obtain ⟨rq, hrq, next, hstep, -⟩ := hs.dispatch_spec hfront hclear.1 hne
    have herase := List.length_erase_of_mem hrq
    have hpos := List.length_pos_of_mem hrq
    have hqueue : (sstf.step s (.dispatch head)).nd.queue = s.nd.queue.erase rq := by rw [hstep]
    have hdisp : (sstf.step s (.dispatch head)).dispatched = s.dispatched ++ [some rq] := by rw [hstep]
    rw [List.length_cons] at hlen
    obtain ⟨ds, hds, hperm, hrest⟩ := ih (hs.step hfront hclear.1) hfront.step hclear.2 (by rw [hqueue]; omega)
    rw [hqueue] at hperm hrest
    refine ⟨some rq :: ds, ?_, ?_, ?_⟩
    · rw [List.map_cons, run_cons, hds, hdisp, List.append_assoc]
      rfl
    · refine (hperm.cons (some rq)).trans ?_
      exact ((List.perm_cons_erase hrq).map some).symm
    · rw [List.map_cons, run_cons, List.length_cons]
      omega

theorem Sound.drained {heads : List sector_t} (hs : Sound s) (hfront : Fronted s.nd)
    (hclear : ClearRun s (heads.map .dispatch)) (hlen : heads.length = s.nd.queue.length) : Drained s (sstf.run s (heads.map .dispatch)) := by
  obtain ⟨ds, hds, hperm, hrest⟩ := hs.drain hfront hclear hlen.le
  have hnil : (sstf.run s (heads.map .dispatch)).nd.queue = [] := List.length_eq_zero_iff.mp (by omega)
  refine ⟨⟨ds, hds, ?_⟩, hnil, fun head => ?_, ?_⟩
  · simpa [hnil] using hperm
  · simp [sstf_dispatch, hnil]
  · simp [sstf_exit_queue, hnil]

theorem ClearRun.runSound (hclear : ClearRun s cs) (hs : Sound s) (hfront : Fronted s.nd) : RunSound s cs := by
  constructor
  · rintro pre ⟨post, rfl⟩
    exact hs.run hfront (ClearRun.append.mp hclear).1
  · rintro pre heads ⟨post, rfl⟩ hlen
    obtain ⟨hpre, hdrain⟩ := ClearRun.append.mp (ClearRun.append.mp hclear).1
    rw [run_append]
    exact (hs.run hfront hpre).drained (hfront.run pre) hdrain hlen

/-- A dispatch in a state that is not clear leaves requests behind with the cursor on
    the list head. -/
theorem Sound.clear_of_step (hs : Sound s) (hfront : Fronted s.nd) (hs' : Sound (sstf.step s c)) : c.Clear s := by
  cases c with
  | add rq head => exact trivial
  | dispatch head =>
    by_cases htwo : 2 ≤ s.nd.queue.length
    swap
    · -- with fewer requests there is nothing to compare
      rw [Call.Clear]
      split
      · rename_i hqueue
        simp [hqueue] at htwo
      · exact trivial
    refine (hs.neighbour_ne_none_iff hfront htwo).mp fun hhead => ?_
    have hne : s.nd.queue ≠ [] := by
      rintro hnil
      simp [hnil] at htwo
    obtain ⟨rq, hrq, hcur⟩ := hs.cursor hne
    have hcount := hs.count
    have herase := List.length_erase_of_mem hrq
    have hstep : (sstf.step s (.dispatch head)).nd =
        { queue := s.nd.queue.erase rq, enqueue := none, queue_count := s.nd.queue_count - 1 } := by
      rw [← hhead]
      have hone : s.nd.queue_count ≠ 1 := by omega
      simp [sstf.step, sstf_dispatch, hne, hone, hcur, list_del_init]
    have hleft : s.nd.queue.erase rq ≠ [] := by
      rintro hnil
      rw [hnil, List.length_nil] at herase
      omega
    have hcursor := hs'.cursor
    rw [hstep] at hcursor
    obtain ⟨q, -, hq⟩ := hcursor hleft
    cases hq

theorem RunSound.clearRun (hr : RunSound s cs) (hfront : Fronted s.nd) : ClearRun s cs := by
  have hsound := hr.sound
  clear hr
  induction cs generalizing s with
  | nil => exact trivial
  | cons c cs ih =>
    have hfirst : Sound s := hsound [] (List.nil_prefix)
    have hsecond : Sound (step s c) := hsound [c] (by simp)
    refine ⟨hfirst.clear_of_step hfront hsecond, ih hfront.step fun pre hpre => ?_⟩
    exact hsound (c :: pre) (by simpa using hpre)

/-- From `sstf_init_queue` on, a sequence of calls is sound exactly if, at every dispatch
    with two or more requests queued, the value read at the list head is no closer in 32
    bits to the first request than the second request is. Nothing else is assumed of the
    sectors, of the order of the calls or of what is read at the list head. -/
theorem runSound_iff_clearRun (hs : Initial s) : RunSound s cs ↔ ClearRun s cs :=
  ⟨fun hr => hr.clearRun hs.fronted, fun hclear => hclear.runSound hs.sound hs.fronted⟩

/-- The scheduler after `sstf_init_queue`. -/
def init : State :=
  { nd := { queue := [], enqueue := none, queue_count := 0 }, added := [], dispatched := [] }

theorem init_initial : Initial init := ⟨⟨init.nd, rfl⟩, rfl, rfl⟩

/-- Two requests that are drained without touching the list head. -/
def twoCalls (head : sector_t) : List Call :=
  [.add ⟨1, 10⟩ head, .add ⟨2, 30⟩ head, .dispatch head, .dispatch head]

theorem runSound_iff_clearRun_twoCalls : Initial init ∧ ClearRun init (twoCalls 1000) ∧
    RunSound init (twoCalls 1000) := by
  have hclear : ClearRun init (twoCalls 1000) :=
    ⟨trivial, trivial, show distance 10 30 ≤ distance 10 1000 by decide, trivial, trivial⟩
  exact ⟨init_initial, hclear, (runSound_iff_clearRun init_initial).mpr hclear⟩

/-- With zero read at the list head, the first of two dispatches moves the cursor there,
    and the second unlinks the head: the request at sector 30 is lost. -/
theorem twoCalls_lost : Initial init ∧ ¬ RunSound init (twoCalls 0) ∧
    (run init (twoCalls 0)).added = [⟨1, 10⟩, ⟨2, 30⟩] ∧
    (run init (twoCalls 0)).dispatched = [some ⟨1, 10⟩, none] ∧ (run init (twoCalls 0)).nd.queue = [] := by
  refine ⟨init_initial, fun hr => ?_, by decide, by decide, by decide⟩
  have hcount := (hr.sound _ (List.prefix_refl _)).accounted.count_eq (some ⟨2, 30⟩)
  exact absurd hcount (by decide)

end cs444.sstf
