import Cs444.Plist.Lists
import Cs444.SchedRt.Model
import Cs444.Lib.Interleaving

open linked interleaving

open Function

namespace cs444.plist

section Reading

variable {H ν : Type} [DecidableEq H] [DecidableEq ν] {m m' : Mem H ν} {gs : H → List (ν × List ν)} {head : H}
  {node first : ν} {fuel : Nat}

omit [DecidableEq H] [DecidableEq ν] in
theorem mapM_list_entry (prio : ν → Nat) (l : List ν) :
    ((l.map list_head.node).mapM fun pos : list_head H ν =>
      (list_entry pos).toOption.map fun node => (prio node, node)) = some (l.map fun node => (prio node, node)) := by
  induction l with
  | nil => rfl
  | cons x l ih =>
    rw [List.map_cons, List.mapM_cons, ih]
    rfl

/-- Reading the list from its head on. -/
theorem Formed.plist_for_each_eq (h : Formed m gs) (hfuel : (plist.nodes (gs head)).length < fuel) :
    plist_for_each fuel m head = some ((plist.nodes (gs head)).map fun node => (m.prio node, node)) := by
  rw [plist_for_each, (h.ring_nodes head).walk (by simpa using hfuel), Option.bind_some]
  exact mapM_list_entry m.prio _

end Reading

section Test

variable {H ν : Type} [DecidableEq H] [DecidableEq ν] {m m' : Mem H ν} {gs : H → List (ν × List ν)} {head : H}
  {node first y : ν} {fuel : Nat} {l₁ l₂ : List ν}

/-- One round of the loop of `plist_test_check`, with more nodes to come. -/
theorem plist_test_pos_node (m : Mem H ν) (head : H) (first : ν) (fuel : Nat) (node prio_pos : ν) (n : Nat) :
    plist_test_pos m head first (fuel + 1) (.node node) prio_pos ((n + 1 : Nat) : Int) =
      if node = first then plist_test_pos m head first fuel (m.node_list.next (.node node)) prio_pos n
      else if m.prio node = m.prio prio_pos then
        if !m.prio_list.list_empty node then .error .BUG_ON
        else plist_test_pos m head first fuel (m.node_list.next (.node node)) prio_pos n
      else if m.prio prio_pos > m.prio node then .error .BUG_ON
      else if m.prio_list.next prio_pos ≠ node then .error .BUG_ON
      else plist_test_pos m head first fuel (m.node_list.next (.node node)) node n := by
  have hcount : ((n + 1 : Nat) : Int) - 1 = n := by omega
  have hpos : ¬ ((n + 1 : Nat) : Int) < 0 := by omega
  rw [plist_test_pos, if_neg (by simp), hcount]
  simp only [list_entry, bind, Except.bind]
  rw [if_neg hpos]
  rfl

/-- The loop of `plist_test_check` goes over the nodes of a level. -/
theorem Formed.plist_test_pos_level {lo hi : List (ν × List ν)} {r₁ r₂ : List ν} (h : Formed m gs)
    (hgs : gs head = lo ++ (y, r₁ ++ r₂) :: hi) (hfirst : (plist.firsts (gs head)).head? = some first)
    (hfuel : r₂.length < fuel) :
    plist_test_pos m head first fuel ((r₂ ++ plist.nodes hi).head?.elim (.head head) .node) y
        ((r₂ ++ plist.nodes hi).length : Int) =
      plist_test_pos m head first (fuel - r₂.length) ((plist.nodes hi).head?.elim (.head head) .node) y
        ((plist.nodes hi).length : Int) := by
  induction r₂ generalizing r₁ fuel with
  | nil => rfl
  | cons x r₂ ih =>
    obtain ⟨fuel, rfl⟩ := Nat.exists_eq_succ_of_ne_zero (Nat.ne_zero_of_lt hfuel)
    have hnot : ∀ i, x ∉ plist.firsts (gs i) := h.not_first hgs (by simp)
    have hx : x ≠ first := by
      rintro rfl
      exact hnot head (List.mem_of_mem_head? hfirst)
    have hprio : m.prio x = m.prio y := (h.graded head).level (y, r₁ ++ x :: r₂) (by simp [hgs]) x (by simp)
    have hnodes : plist.nodes (gs head) = (plist.nodes lo ++ y :: r₁) ++ x :: (r₂ ++ plist.nodes hi) := by
      rw [hgs]
      simp
    have hgs' : gs head = lo ++ (y, (r₁ ++ [x]) ++ r₂) :: hi := by simpa using hgs
    have hrest := ih hgs' (Nat.lt_of_succ_lt_succ hfuel)
    simp only [List.cons_append, List.head?_cons, Option.elim_some, List.length_cons, Nat.succ_eq_add_one]
    rw [plist_test_pos_node, if_neg hx, if_pos hprio, h.list_empty_of_not_first hnot, h.next_eq hnodes, hrest]
    simp

/-- The loop of `plist_test_check` from the end of a level on. -/
theorem Formed.plist_test_pos_ok {lo hi : List (ν × List ν)} {r : List ν} (h : Formed m gs)
    (hgs : gs head = lo ++ (y, r) :: hi) (hfirst : (plist.firsts (gs head)).head? = some first)
    (hfuel : (plist.nodes hi).length < fuel) :
    ∃ prio_pos, plist_test_pos m head first fuel ((plist.nodes hi).head?.elim (.head head) .node) y
        ((plist.nodes hi).length : Int) = .ok (0, prio_pos) ∧ m.prio_list.next prio_pos = first := by
  induction hi generalizing lo y r fuel with
  | nil =>
    obtain ⟨fuel, rfl⟩ := Nat.exists_eq_succ_of_ne_zero (Nat.ne_zero_of_lt hfuel)
    refine ⟨y, ?_, ?_⟩
    · rw [plist_test_pos]
      exact if_pos rfl
    · have hring := h.firsts.ring head
      rw [hgs, firsts_append] at hring hfirst
      exact (hring.linked_succ hfirst).1
  | cons g hi ih =>
    obtain ⟨fuel, rfl⟩ := Nat.exists_eq_succ_of_ne_zero (Nat.ne_zero_of_lt hfuel)
    have hgs' : gs head = (lo ++ [(y, r)]) ++ (g.1, [] ++ g.2) :: hi := by simpa using hgs
    have hring := h.firsts.ring head
    have hgraded := h.graded head
    have hfirst' := hfirst
    rw [hgs] at hgraded
    rw [hgs, firsts_append, firsts_cons, firsts_cons] at hring hfirst'
    have hnext : m.prio_list.next y = g.1 := hring.adjacent.1
    have hg : g.1 ≠ first := hring.ne_first hfirst'
    have hlt : m.prio y < m.prio g.1 :=
      (List.pairwise_cons.mp (List.pairwise_append.mp hgraded.order).2.1).1 g List.mem_cons_self
    have hnodes : plist.nodes (gs head) = plist.nodes (lo ++ [(y, r)]) ++ g.1 :: (g.2 ++ plist.nodes hi) := by
      rw [hgs]
      simp
    rw [nodes_cons, List.length_cons, List.length_append] at hfuel
    have hlevel := h.plist_test_pos_level hgs' hfirst (show g.2.length < fuel by omega)
    have hrest := ih hgs' (show (plist.nodes hi).length < fuel - g.2.length by omega)
    rw [← hlevel] at hrest
    obtain ⟨prio_pos, hpos, hclosed⟩ := hrest
    refine ⟨prio_pos, ?_, hclosed⟩
    simp only [nodes_cons, List.head?_cons, Option.elim_some, List.length_cons, Nat.succ_eq_add_one]
    rw [plist_test_pos_node, if_neg hg, if_neg hlt.ne', if_neg (Nat.not_lt.mpr hlt.le), if_neg (not_not.mpr hnext),
      h.next_eq hnodes, hpos]

/-- `plist_test_check` finds the number of nodes that are there, and no fault. -/
theorem Formed.plist_test_check_ok (h : Formed m gs) (hfuel : (plist.nodes (gs head)).length + 1 < fuel) :
    plist_test_check fuel m head (plist.nodes (gs head)).length = .ok () := by
  rw [plist_test_check, h.plist_head_empty_eq]
  cases hg : gs head with
  | nil => rfl
  | cons g hi =>
    have hfirst : (plist.firsts (gs head)).head? = some g.1 := by
      rw [hg]
      rfl
    have hgs : gs head = [] ++ (g.1, [] ++ g.2) :: hi := hg
    have hnext : m.node_list.next (.head head) = .node g.1 := by
      have hring := h.ring_nodes head
      rw [hg, nodes_cons] at hring
      exact hring.first.1
    rw [hg, nodes_cons, List.length_cons, List.length_append] at hfuel
    obtain ⟨fuel, rfl⟩ := Nat.exists_eq_succ_of_ne_zero (Nat.ne_zero_of_lt hfuel)
    have hlevel := h.plist_test_pos_level hgs hfirst (show g.2.length < fuel by omega)
    obtain ⟨prio_pos, hpos, hclosed⟩ :=
      h.plist_test_pos_ok hgs hfirst (show (plist.nodes hi).length < fuel - g.2.length by omega)
    have hnodes : plist.nodes (gs head) = [] ++ g.1 :: (g.2 ++ plist.nodes hi) := by
      rw [hg]
      rfl
    have hloop : plist_test_pos m head g.1 (fuel + 1) (.node g.1) g.1 ((plist.nodes (g :: hi)).length : Int) =
        .ok (0, prio_pos) := by
      rw [nodes_cons, List.length_cons, plist_test_pos_node, if_pos rfl, h.next_eq hnodes, hlevel, hpos]
    simp only [reduceCtorEq, decide_false, Bool.false_eq_true, if_false, h.plist_first_eq hfirst, hnext, bind,
      Except.bind, Nat.succ_eq_add_one, hloop, hclosed, ne_eq, not_true]
    rfl

end Test

section Init

variable {H ν : Type}

/-- Heads and nodes that are all alone. -/
theorem formed_of_single {m : Mem H ν} (hnodes : ∀ a, m.node_list.next a = a ∧ m.node_list.prev a = a)
    (hprio : ∀ x, m.prio_list.next x = x ∧ m.prio_list.prev x = x) : Formed m fun _ => [] where
  nodes := by
    refine ⟨fun i => Links.ring_single_iff.mpr (hnodes _), fun i j x hi hj => ?_, fun x _ =>
      Links.ring_single_iff.mpr (hnodes x)⟩
    have hxi := List.mem_singleton.mp hi
    have hxj := List.mem_singleton.mp hj
    exact list_head.head.inj (hxi.symm.trans hxj)
  firsts := by
    refine ⟨fun _ => ⟨List.nodup_nil, .nil⟩, fun i j x hi _ => ?_, fun x _ => Links.ring_single_iff.mpr (hprio x)⟩
    exact absurd hi List.not_mem_nil
  graded _ := ⟨by simp, .nil⟩

end Init

section Pushable

variable {m m' : Mem Nat Nat} {gs : Nat → List (Nat × List Nat)} {lists lists' : Nat → List (Nat × Nat)} {fuel : Nat}

/-- What the scheduler does with the lists of pushable tasks. -/
inductive Move where
  | enqueue_pushable_task (rq p prio : Nat)
  | dequeue_pushable_task (rq p : Nat)

def step (fuel : Nat) (m : Mem Nat Nat) : Move → Except Stop (Mem Nat Nat)
  | .enqueue_pushable_task rq p prio => enqueue_pushable_task fuel m rq p prio
  | .dequeue_pushable_task rq p => dequeue_pushable_task fuel m rq p

/-- The same, done to plain lists. -/
def listed (lists : Nat → List (Nat × Nat)) : Move → Option (Nat → List (Nat × Nat))
  | .enqueue_pushable_task rq p prio =>
    some (update lists rq (sched_rt.plist_add (prio, p) (sched_rt.plist_del p (lists rq))))
  | .dequeue_pushable_task rq p => some (update lists rq (sched_rt.plist_del p (lists rq)))

/-- The task is in no list of another run queue. -/
def Move.Valid (lists : Nat → List (Nat × Nat)) : Move → Prop
  | .enqueue_pushable_task rq p _ | .dequeue_pushable_task rq p => ∀ i, p ∈ (lists i).map Prod.snd → i = rq

/-- All heads and nodes as `plist_head_init_raw` and `plist_node_init` leave them. -/
def initial (prio : Nat → Nat) : Mem Nat Nat where
  prio := prio
  prio_list := ⟨id, id⟩
  node_list := ⟨id, id⟩
  warned := false

/-- The pointers stand for these lists. -/
def Stand (m : Mem Nat Nat) (lists : Nat → List (Nat × Nat)) : Prop :=
  m.warned = false ∧ ∃ gs, Formed m gs ∧ ∀ i, lists i = (nodes (gs i)).map fun p => (m.prio p, p)

theorem plist_del_map (prio : Nat → Nat) (p : Nat) (l : List Nat) :
    sched_rt.plist_del p (l.map fun q => (prio q, q)) =
      (l.filter fun q => decide (q ≠ p)).map fun q => (prio q, q) := by
  rw [sched_rt.plist_del, List.filter_map]
  rfl

theorem plist_add_map (prio : Nat → Nat) (p : Nat) (l : List Nat) :
    sched_rt.plist_add (prio p, p) (l.map fun q => (prio q, q)) =
      (l.takeWhile (fun q => decide (prio q ≤ prio p)) ++ p :: l.dropWhile fun q => decide (prio q ≤ prio p)).map
        fun q => (prio q, q) := by
  rw [sched_rt.plist_add, List.takeWhile_map, List.dropWhile_map, List.map_append, List.map_cons]
  rfl

theorem length_plist_add (x : Nat × Nat) (l : List (Nat × Nat)) : (sched_rt.plist_add x l).length = l.length + 1 := by
  rw [sched_rt.plist_add, List.length_append, List.length_cons, ← Nat.add_assoc, ← List.length_append,
    List.takeWhile_append_dropWhile]

theorem length_listed {mv : Move} (h : listed lists mv = some lists') (i : Nat) :
    (lists' i).length ≤ (lists i).length + 1 := by
  have hdel : ∀ p rq, (sched_rt.plist_del p (lists rq)).length ≤ (lists rq).length :=
    fun p rq => List.length_filter_le ..
  cases mv with
  | enqueue_pushable_task rq p prio =>
    obtain rfl := Option.some_inj.mp h
    by_cases hi : i = rq
    · subst hi
      rw [update_self, length_plist_add]
      exact Nat.succ_le_succ (hdel p i)
    · rw [update_of_ne hi]
      exact Nat.le_succ _
  | dequeue_pushable_task rq p =>
    obtain rfl := Option.some_inj.mp h
    by_cases hi : i = rq
    · subst hi
      rw [update_self]
      exact (hdel p i).trans (Nat.le_succ _)
    · rw [update_of_ne hi]
      exact Nat.le_succ _

theorem stand_initial (prio : Nat → Nat) : Stand (initial prio) fun _ => [] :=
  ⟨rfl, fun _ => [], formed_of_single (fun _ => ⟨rfl, rfl⟩) fun _ => ⟨rfl, rfl⟩, fun _ => rfl⟩

theorem mem_map_snd {prio : Nat → Nat} {l : List Nat} {p : Nat} :
    p ∈ (l.map fun q => (prio q, q)).map Prod.snd ↔ p ∈ l := by
  rw [List.map_map]
  simp

theorem Stand.plist_del (h : Stand m lists) {rq p : Nat} (hv : ∀ i, p ∈ (lists i).map Prod.snd → i = rq)
    (hfuel : (lists rq).length < fuel) : ∃ m', plist_del fuel m p rq = .ok m' ∧
      Stand m' (update lists rq (sched_rt.plist_del p (lists rq))) := by
  obtain ⟨hwarned, gs, hformed, hlists⟩ := h
  have hat : ∀ i, p ∈ nodes (gs i) → i = rq := by
    intro i hi
    apply hv
    rwa [hlists, mem_map_snd]
  rw [hlists, List.length_map] at hfuel
  obtain ⟨m', gs', hdel, hformed', hprio, hwarned', hnodes⟩ := hformed.plist_del hat hfuel
  refine ⟨m', hdel, hwarned'.trans hwarned, _, hformed', fun i => ?_⟩
  by_cases hi : i = rq
  · subst hi
    rw [update_self, update_self, hlists, plist_del_map, hnodes, hprio]
  · rw [update_of_ne hi, update_of_ne hi, hlists, hprio]

theorem Stand.plist_add (h : Stand m lists) {rq p : Nat} (prio : Nat) (hout : ∀ i, p ∉ (lists i).map Prod.snd)
    (hfuel : (lists rq).length + 1 < fuel) : ∃ m', plist_add fuel (plist_node_init m p prio) p rq = .ok m' ∧
      Stand m' (update lists rq (sched_rt.plist_add (prio, p) (lists rq))) := by
  obtain ⟨hwarned, gs, hformed, hlists⟩ := h
  have hnone : ∀ i, p ∉ nodes (gs i) := by
    intro i hi
    apply hout i
    rwa [hlists, mem_map_snd]
  -- the lists are the same with the new priority, which is that of a task in none of them
  have hlists' : ∀ i, lists i = (nodes (gs i)).map fun q => (update m.prio p prio q, q) := by
    intro i
    rw [hlists]
    refine List.map_congr_left fun q hq => ?_
    have hne : q ≠ p := fun heq => hnone i (heq ▸ hq)
    rw [update_of_ne hne]
  rw [hlists, List.length_map] at hfuel
  rw [hformed.plist_node_init_eq hnone]
  obtain ⟨m', gs', hadd, hformed', hprio, hwarned', hnodes⟩ := (hformed.set_prio hnone prio).plist_add hnone hfuel
  refine ⟨m', hadd, hwarned'.trans hwarned, _, hformed', fun i => ?_⟩
  by_cases hi : i = rq
  · subst hi
    have hmap := plist_add_map (update m.prio p prio) p (nodes (gs i))
    rw [update_self] at hmap
    rw [update_self, update_self, hnodes, hprio, hlists' i, hmap]
    simp only [update_self]
  · rw [update_of_ne hi, update_of_ne hi, hlists', hprio]

theorem not_mem_plist_del (p : Nat) (l : List (Nat × Nat)) : p ∉ (sched_rt.plist_del p l).map Prod.snd := by
  intro hin
  obtain ⟨x, hx, heq⟩ := List.mem_map.mp hin
  have hne := (List.mem_filter.mp hx).2
  exact absurd heq (by simpa using hne)

/-- No step fails, and it does to the pointers what it does to the lists. -/
theorem Stand.step {mv : Move} (h : Stand m lists) (hv : mv.Valid lists) (hnext : listed lists mv = some lists')
    (hfuel : ∀ i, (lists i).length + 1 < fuel) : ∃ m', step fuel m mv = .ok m' ∧ Stand m' lists' := by
  cases mv with
  | enqueue_pushable_task rq p prio =>
    obtain rfl := Option.some_inj.mp hnext
    obtain ⟨m₁, hdel, hstand⟩ := h.plist_del hv (Nat.lt_of_succ_lt (hfuel rq))
    have hout : ∀ i, p ∉ (update lists rq (sched_rt.plist_del p (lists rq)) i).map Prod.snd := by
      intro i
      by_cases hi : i = rq
      · subst hi
        rw [update_self]
        exact not_mem_plist_del p _
      · rw [update_of_ne hi]
        exact fun hin => hi (hv i hin)
    have hlength : (update lists rq (sched_rt.plist_del p (lists rq)) rq).length + 1 < fuel := by
      rw [update_self]
      exact Nat.lt_of_le_of_lt (Nat.succ_le_succ (List.length_filter_le ..)) (hfuel rq)
    obtain ⟨m', hadd, hstand'⟩ := hstand.plist_add prio hout hlength
    rw [update_self, update_idem] at hstand'
    refine ⟨m', ?_, hstand'⟩
    rw [plist.step, enqueue_pushable_task, hdel]
    exact hadd
  | dequeue_pushable_task rq p =>
    obtain rfl := Option.some_inj.mp hnext
    exact h.plist_del hv (Nat.lt_of_succ_lt (hfuel rq))

theorem length_run_listed {ms : List Move} (hrun : run listed lists ms = some lists') (i : Nat) :
    (lists' i).length ≤ (lists i).length + ms.length := by
  induction ms generalizing lists with
  | nil =>
    obtain rfl := Option.some_inj.mp hrun
    exact Nat.le_refl _
  | cons mv ms ih =>
    obtain ⟨lists₁, hnext, hrest⟩ := Option.bind_eq_some_iff.mp hrun
    have hone := length_listed hnext i
    have hmore := ih hrest
    rw [List.length_cons]
    omega

theorem Stand.run {ms : List Move} (h : Stand m lists) (hv : Along listed Move.Valid lists ms)
    (hrun : run listed lists ms = some lists') (hfuel : ∀ i, (lists i).length + ms.length < fuel) :
    ∃ m', checked.run (plist.step fuel) m ms = .ok m' ∧ Stand m' lists' := by
  induction ms generalizing m lists with
  | nil =>
    obtain rfl := Option.some_inj.mp hrun
    exact ⟨m, rfl, h⟩
  | cons mv ms ih =>
    obtain ⟨lists₁, hnext, hrest⟩ := Option.bind_eq_some_iff.mp hrun
    obtain ⟨hvalid, hv'⟩ := hv lists₁ hnext
    have hroom : ∀ i, (lists i).length + 1 < fuel ∧ (lists₁ i).length + ms.length < fuel := by
      intro i
      have hi := hfuel i
      have hle := length_listed hnext i
      rw [List.length_cons] at hi
      omega
    obtain ⟨m₁, hstep, hstand⟩ := h.step hvalid hnext fun i => (hroom i).1
    obtain ⟨m', hrun', hresult⟩ := ih hstand hv' hrest fun i => (hroom i).2
    refine ⟨m', ?_, hresult⟩
    rw [checked.run, hstep]
    exact hrun'

/-- The two rings of pointers of `plist.c` behave like one list in order. However the tasks are put on the lists
    of their run queues and taken off, nothing is warned of, `plist_for_each` goes over the tasks in the order of
    their priorities, the same ones in the order they came, the first is found at once, and the pointers of both
    rings are as `plist_test_check` wants them. -/
theorem pushable_tasks_listed {ms : List Move} {prio : Nat → Nat} (hv : Along listed Move.Valid (fun _ => []) ms)
    (hrun : run listed (fun _ => []) ms = some lists) (hfuel : ms.length + 2 < fuel) :
    ∃ m, checked.run (step fuel) (initial prio) ms = .ok m ∧ m.warned = false ∧ ∀ rq,
      plist_for_each fuel m rq = some (lists rq) ∧ has_pushable_tasks m rq = !(lists rq).isEmpty ∧
      (∀ x, (lists rq).head? = some x → plist_first m rq = .ok x.2) ∧
      plist_test_check fuel m rq (lists rq).length = .ok () := by
  have hroom : ∀ _i : Nat, ([] : List (Nat × Nat)).length + ms.length < fuel := fun _ => by
    rw [List.length_nil]
    omega
  obtain ⟨m, hrun', hwarned, gs, hformed, hlists⟩ := (stand_initial prio).run hv hrun hroom
  refine ⟨m, hrun', hwarned, fun rq => ?_⟩
  have hlength := length_run_listed hrun rq
  rw [hlists rq, List.length_map, List.length_nil] at hlength
  rw [hlists rq]
  refine ⟨hformed.plist_for_each_eq (by omega), ?_, fun x hx => ?_, ?_⟩
  · rw [has_pushable_tasks, hformed.plist_head_empty_eq]
    cases gs rq <;> simp
  · rw [List.head?_map] at hx
    obtain ⟨p, hp, rfl⟩ := Option.map_eq_some_iff.mp hx
    rw [head?_nodes] at hp
    exact hformed.plist_first_eq hp
  · rw [List.length_map]
    exact hformed.plist_test_check_ok (by omega)

def Move.rq : Move → Nat
  | .enqueue_pushable_task rq _ _ | .dequeue_pushable_task rq _ => rq

/-- The moves of one run queue are valid while the other lists are empty. -/
theorem along_one {ms : List Move} {rq : Nat} (hempty : ∀ i, i ≠ rq → lists i = []) (hone : ∀ mv ∈ ms, mv.rq = rq) :
    Along listed Move.Valid lists ms := by
  induction ms generalizing lists with
  | nil => exact trivial
  | cons mv ms ih =>
    intro lists' hnext
    have hrq := hone mv List.mem_cons_self
    have hin : ∀ p i, p ∈ (lists i).map Prod.snd → i = rq := by
      intro p i hp
      by_contra hi
      rw [hempty i hi] at hp
      cases hp
    refine ⟨?_, ih (fun i hi => ?_) fun mv' hmv' => hone mv' (List.mem_cons_of_mem _ hmv')⟩
    · cases mv with
      | enqueue_pushable_task rq' p prio => exact fun i hp => (hin p i hp).trans hrq.symm
      | dequeue_pushable_task rq' p => exact fun i hp => (hin p i hp).trans hrq.symm
    · cases mv with
      | enqueue_pushable_task rq' p prio =>
        obtain rfl : rq' = rq := hrq
        obtain rfl := Option.some_inj.mp hnext
        rw [update_of_ne hi, hempty i hi]
      | dequeue_pushable_task rq' p =>
        obtain rfl : rq' = rq := hrq
        obtain rfl := Option.some_inj.mp hnext
        rw [update_of_ne hi, hempty i hi]

/-- A task that is more urgent than two others, one of which is taken off again. -/
theorem pushable_tasks_listed_sample : ∃ m, checked.run (step 7) (initial fun _ => 140)
    [.enqueue_pushable_task 0 1 50, .enqueue_pushable_task 0 2 50, .enqueue_pushable_task 0 3 20,
      .dequeue_pushable_task 0 1] = .ok m ∧ plist_for_each 7 m 0 = some [(20, 3), (50, 2)] := by
  have hone : ∀ mv ∈ [Move.enqueue_pushable_task 0 1 50, .enqueue_pushable_task 0 2 50, .enqueue_pushable_task 0 3 20,
      .dequeue_pushable_task 0 1], mv.rq = 0 := by
    simp [Move.rq]
  obtain ⟨m, hrun, -, hall⟩ := pushable_tasks_listed (along_one (fun _ _ => rfl) hone) rfl (show 4 + 2 < 7 by decide)
  exact ⟨m, hrun, (hall 0).1⟩

end Pushable

end cs444.plist
