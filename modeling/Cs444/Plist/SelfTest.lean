import Cs444.Plist.Runs
import Mathlib.Data.Fintype.Card

open Function linked

namespace cs444.plist

section Init

variable {H ν : Type} [DecidableEq H] [DecidableEq ν] {m : Mem H ν}

/-- `plist_node_init` for some nodes leaves these alone, and whatever was alone before. -/
theorem init_nodes (l : List ν) (m : Mem H ν) :
    (∀ a, a ∈ l.map list_head.node ∨ m.node_list.Ring [a] →
      (l.foldl (fun m i => plist_node_init m i 0) m).node_list.Ring [a]) ∧
    (∀ x, x ∈ l ∨ m.prio_list.Ring [x] → (l.foldl (fun m i => plist_node_init m i 0) m).prio_list.Ring [x]) ∧
    (l.foldl (fun m i => plist_node_init m i 0) m).warned = m.warned := by
  induction l generalizing m with
  | nil => exact ⟨fun a h => h.resolve_left (by simp), fun x h => h.resolve_left (by simp), rfl⟩
  | cons y l ih =>
    obtain ⟨hnodes, hprio, hwarned⟩ := ih (plist_node_init m y 0)
    refine ⟨fun a ha => hnodes a ?_, fun x hx => hprio x ?_, hwarned⟩
    · by_cases hay : a = .node y
      · rw [hay]
        exact .inr Links.INIT_LIST_HEAD_single
      · refine ha.imp (fun hin => (List.mem_cons.mp hin).resolve_left hay) fun hring => hring.same fun d hd => ?_
        rw [List.mem_singleton.mp hd]
        exact Links.INIT_LIST_HEAD_same hay
    · by_cases hxy : x = y
      · rw [hxy]
        exact .inr Links.INIT_LIST_HEAD_single
      · refine hx.imp (fun hin => (List.mem_cons.mp hin).resolve_left hxy) fun hring => hring.same fun d hd => ?_
        rw [List.mem_singleton.mp hd]
        exact Links.INIT_LIST_HEAD_same hxy

end Init

variable {m m' : Mem Unit (Fin ARRAY_SIZE)} {gs : Unit → List (Fin ARRAY_SIZE × List (Fin ARRAY_SIZE))} {fuel : Nat}
  {w : Bool} {nr_expect : Int}

/-- The lists are in order, with as many nodes as the test expects. -/
def Passing (w : Bool) (m : Mem Unit (Fin ARRAY_SIZE)) (nr_expect : Int) : Prop :=
  m.warned = w ∧ ∃ gs, Formed m gs ∧ nr_expect = (nodes (gs ())).length

theorem Formed.length_nodes_le (h : Formed m gs) : (plist.nodes (gs ())).length ≤ ARRAY_SIZE := by
  have hle := (h.nodup ()).length_le_card
  rwa [Fintype.card_fin] at hle

/-- Adding a node that is on no list, with whatever priority, and checking. -/
theorem Passing.add (h : Passing w m nr_expect) {i : Fin ARRAY_SIZE} (hempty : plist_node_empty m i = true)
    (prio : Nat) (hfuel : ARRAY_SIZE + 2 < fuel) :
    ∃ m', plist_add fuel { m with prio := update m.prio i prio } i () = .ok m' ∧
      plist_test_check fuel m' () (nr_expect + 1) = .ok () ∧ Passing w m' (nr_expect + 1) := by
  obtain ⟨hwarned, gs, hformed, rfl⟩ := h
  have hle := hformed.length_nodes_le
  have hout := (hformed.plist_node_empty_eq i).mp hempty
  obtain ⟨m', gs', hadd, hformed', -, hwarned', hnodes⟩ :=
    (hformed.set_prio hout prio).plist_add hout (show (nodes (gs ())).length + 1 < fuel by omega)
  have hlength : (nodes (update gs () gs' ())).length = (nodes (gs ())).length + 1 := by
    rw [update_self, hnodes, List.length_append, List.length_cons, ← Nat.add_assoc, ← List.length_append,
      List.takeWhile_append_dropWhile]
  have hcheck := hformed'.plist_test_check_ok (show (nodes (update gs () gs' ())).length + 1 < fuel by omega)
  rw [hlength] at hcheck
  exact ⟨m', hadd, hcheck, hwarned'.trans hwarned, _, hformed', by rw [hlength]; rfl⟩

/-- Taking a node off the list, and checking. -/
theorem Passing.del (h : Passing w m nr_expect) {i : Fin ARRAY_SIZE} (hempty : ¬ plist_node_empty m i = true)
    (hfuel : ARRAY_SIZE + 2 < fuel) :
    ∃ m', plist_del fuel m i () = .ok m' ∧ plist_test_check fuel m' () (nr_expect - 1) = .ok () ∧
      Passing w m' (nr_expect - 1) ∧ ∀ j, plist_node_empty m' j = true ↔ j = i ∨ plist_node_empty m j = true := by
  obtain ⟨hwarned, gs, hformed, rfl⟩ := h
  have hle := hformed.length_nodes_le
  have hin : i ∈ nodes (gs ()) := by
    by_contra hnot
    exact hempty ((hformed.plist_node_empty_eq i).mpr fun _ => hnot)
  have hat : ∀ j, i ∈ nodes (gs j) → j = () := fun _ _ => rfl
  obtain ⟨m', gs', hdel, hformed', -, hwarned', hnodes⟩ :=
    hformed.plist_del hat (show (nodes (gs ())).length < fuel by omega)
  have hlength : (nodes (update gs () gs' ())).length + 1 = (nodes (gs ())).length := by
    have herase := (hformed.nodup ()).erase_eq_filter i
    have hsame : (nodes (gs ())).filter (fun x => decide (x ≠ i)) = (nodes (gs ())).filter (· != i) :=
      List.filter_congr fun x _ => by
        rw [Bool.eq_iff_iff]
        simp
    rw [update_self, hnodes, hsame, ← herase, List.length_erase_of_mem hin]
    exact Nat.succ_pred_eq_of_pos (List.length_pos_of_mem hin)
  have hcheck := hformed'.plist_test_check_ok (show (nodes (update gs () gs' ())).length + 1 < fuel by omega)
  have hcount : ((nodes (gs ())).length : Int) - 1 = (nodes (update gs () gs' ())).length := by omega
  rw [← hcount] at hcheck
  refine ⟨m', hdel, hcheck, ⟨hwarned'.trans hwarned, _, hformed', hcount⟩, fun j => ?_⟩
  rw [hformed'.plist_node_empty_eq, hformed.plist_node_empty_eq]
  have hmem : j ∈ nodes (update gs () gs' ()) ↔ j ∈ nodes (gs ()) ∧ j ≠ i := by
    rw [update_self, hnodes, List.mem_filter, decide_eq_true_iff]
  constructor
  · intro hout
    by_cases hj : j = i
    · exact .inl hj
    · exact .inr fun _ hjin => hout () (hmem.mpr ⟨hjin, hj⟩)
  · rintro (rfl | hout) _ hjin
    · exact (hmem.mp hjin).2 rfl
    · exact hout () (hmem.mp hjin).1

theorem Passing.round (h : Passing w m nr_expect) (r : Nat) (hfuel : ARRAY_SIZE + 2 < fuel) :
    ∃ m' r' nr_expect', plist_test_round fuel (m, r, nr_expect) = .ok (m', r', nr_expect') ∧
      Passing w m' nr_expect' := by
  unfold plist_test_round
  simp only [bind, Except.bind, pure, Except.pure]
  split
  · next hempty =>
    obtain ⟨m', hadd, hcheck, hpassing⟩ := h.add hempty (plist_test_random (plist_test_random r) % 99) hfuel
    rw [hadd]
    simp only [hcheck]
    exact ⟨m', _, _, rfl, hpassing⟩
  · next hempty =>
    obtain ⟨m', hdel, hcheck, hpassing, -⟩ := h.del hempty hfuel
    rw [hdel]
    simp only [hcheck]
    exact ⟨m', _, _, rfl, hpassing⟩

theorem Passing.loop (h : Passing w m nr_expect) (r n : Nat) (hfuel : ARRAY_SIZE + 2 < fuel) :
    ∃ m' r' nr_expect', plist_test_loop fuel n (m, r, nr_expect) = .ok (m', r', nr_expect') ∧
      Passing w m' nr_expect' := by
  induction n generalizing m r nr_expect with
  | zero => exact ⟨m, r, nr_expect, rfl, h⟩
  | succ n ih =>
    obtain ⟨m₁, r₁, nr₁, hround, hpassing⟩ := h.round r hfuel
    obtain ⟨m', r', nr', hloop, hpassing'⟩ := ih hpassing r₁
    refine ⟨m', r', nr', ?_, hpassing'⟩
    rw [plist_test_loop, hround]
    exact hloop

/-- The second loop takes the nodes off the list that it comes by. -/
theorem Passing.clear (h : Passing w m nr_expect) {l : List (Fin ARRAY_SIZE)}
    (hl : ∀ i, ¬ plist_node_empty m i = true → i ∈ l) (hfuel : ARRAY_SIZE + 2 < fuel) :
    ∃ m' nr_expect', plist_test_clear fuel l (m, nr_expect) = .ok (m', nr_expect') ∧ Passing w m' nr_expect' ∧
      ∀ i, plist_node_empty m' i = true := by
  induction l generalizing m nr_expect with
  | nil =>
    refine ⟨m, nr_expect, rfl, h, fun i => ?_⟩
    by_contra hnot
    exact absurd (hl i hnot) List.not_mem_nil
  | cons i l ih =>
    rw [plist_test_clear]
    by_cases hempty : plist_node_empty m i = true
    · rw [if_pos hempty]
      refine ih h fun j hj => (List.mem_cons.mp (hl j hj)).resolve_left ?_
      rintro rfl
      exact hj hempty
    · obtain ⟨m₁, hdel, hcheck, hpassing, hiff⟩ := h.del hempty hfuel
      rw [if_neg hempty, hdel]
      simp only [bind, Except.bind, hcheck]
      refine ih hpassing fun j hj => (List.mem_cons.mp (hl j fun hin => hj ?_)).resolve_left fun heq => hj ?_
      · exact (hiff j).mpr (.inr hin)
      · exact (hiff j).mpr (.inl heq)

/-- The test that the kernel makes of `plist.c` when it starts passes, at whatever time it is made and whatever the
    memory held before: none of its `BUG_ON`s fires, there is no warning, and the list is empty in the end. -/
theorem plist_test_passes (m : Mem Unit (Fin ARRAY_SIZE)) (local_clock : Nat) (hfuel : ARRAY_SIZE + 2 < fuel) :
    ∃ m', plist_test fuel m local_clock = .ok (m', 0) ∧ m'.warned = m.warned ∧ plist_head_empty m' () = true := by
  obtain ⟨hnodes, hprio, hwarned⟩ := init_nodes (List.finRange ARRAY_SIZE) (plist_head_init m ())
  have hformed := formed_of_single
    (fun a => Links.ring_single_iff.mp (hnodes a ?_)) fun x => Links.ring_single_iff.mp (hprio x (.inl (List.mem_finRange x)))
  · have hstart : Passing m.warned ((List.finRange ARRAY_SIZE).foldl (fun m i => plist_node_init m i 0)
        (plist_head_init m ())) 0 := ⟨hwarned, _, hformed, rfl⟩
    obtain ⟨m₁, r, nr₁, hloop, hpassing⟩ := hstart.loop (local_clock % 2 ^ 32) 1000 hfuel
    obtain ⟨m', nr', hclear, ⟨hwarned', gs, hformed', rfl⟩, hempty⟩ :=
      hpassing.clear (fun i _ => List.mem_finRange i) hfuel
    have hnil : nodes (gs ()) = [] := List.eq_nil_iff_forall_not_mem.mpr fun i =>
      (hformed'.plist_node_empty_eq i).mp (hempty i) ()
    refine ⟨m', ?_, hwarned', ?_⟩
    · rw [plist_test]
      simp only [bind, Except.bind, hloop, hclear, hnil, List.length_nil]
      rfl
    · rw [hformed'.plist_head_empty_eq]
      cases hg : gs () with
      | nil => rfl
      | cons g l =>
        rw [hg] at hnil
        cases hnil
  · cases a with
    | head u => exact .inr Links.INIT_LIST_HEAD_single
    | node i => exact .inl (List.mem_map_of_mem (List.mem_finRange i))

/-- Memory before anything has been set up. -/
def zeroed : Mem Unit (Fin ARRAY_SIZE) where
  prio _ := 0
  prio_list := ⟨fun _ => ⟨0, Nat.succ_pos _⟩, fun _ => ⟨0, Nat.succ_pos _⟩⟩
  node_list := ⟨fun _ => .head (), fun _ => .head ()⟩
  warned := false

theorem plist_test_passes_sample : ∃ m', plist_test 244 zeroed 12345 = .ok (m', 0) ∧ m'.warned = false := by
  obtain ⟨m', htest, hwarned, -⟩ := plist_test_passes zeroed 12345 (show ARRAY_SIZE + 2 < 244 by decide)
  exact ⟨m', htest, hwarned⟩

end cs444.plist
