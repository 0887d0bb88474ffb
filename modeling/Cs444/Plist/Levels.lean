import Cs444.Plist.Model
import Mathlib.Data.List.TakeWhile

open linked

namespace cs444.plist

variable {H ν : Type}

section Shape

/-- The nodes of a list, level by level: the first node of a priority, with the others of this priority behind. -/
def nodes (gs : List (ν × List ν)) : List ν :=
  gs.flatMap fun g => g.1 :: g.2

def firsts (gs : List (ν × List ν)) : List ν :=
  gs.map Prod.fst

@[simp] theorem nodes_nil : nodes ([] : List (ν × List ν)) = [] := rfl

@[simp] theorem nodes_cons (g : ν × List ν) (gs : List (ν × List ν)) : nodes (g :: gs) = g.1 :: (g.2 ++ nodes gs) := rfl

@[simp] theorem nodes_append (gs gs' : List (ν × List ν)) : nodes (gs ++ gs') = nodes gs ++ nodes gs' :=
  List.flatMap_append

@[simp] theorem firsts_nil : firsts ([] : List (ν × List ν)) = [] := rfl

@[simp] theorem firsts_cons (g : ν × List ν) (gs : List (ν × List ν)) : firsts (g :: gs) = g.1 :: firsts gs := rfl

@[simp] theorem firsts_append (gs gs' : List (ν × List ν)) : firsts (gs ++ gs') = firsts gs ++ firsts gs' :=
  List.map_append

theorem head?_nodes (gs : List (ν × List ν)) : (nodes gs).head? = (firsts gs).head? := by
  cases gs with
  | nil => rfl
  | cons g gs => rfl

theorem firsts_sublist (gs : List (ν × List ν)) : (firsts gs).Sublist (nodes gs) := by
  induction gs with
  | nil => exact .slnil
  | cons g gs ih =>
    rw [firsts_cons, nodes_cons]
    exact (ih.trans (List.sublist_append_right _ _)).cons_cons _

/-- The priorities of one list: the same on a level, and lower on every further one. -/
structure Graded (prio : ν → Nat) (gs : List (ν × List ν)) : Prop where
  level : ∀ g ∈ gs, ∀ x ∈ g.2, prio x = prio g.1
  order : gs.Pairwise fun g g' => prio g.1 < prio g'.1

variable {prio : ν → Nat} {gs lo hi : List (ν × List ν)} {g : ν × List ν} {node : ν}

theorem Graded.of_append (h : Graded prio (lo ++ hi)) : Graded prio lo ∧ Graded prio hi :=
  ⟨⟨fun g hg => h.level g (List.mem_append_left _ hg), (List.pairwise_append.mp h.order).1⟩,
    ⟨fun g hg => h.level g (List.mem_append_right _ hg), (List.pairwise_append.mp h.order).2.1⟩⟩

theorem Graded.congr {prio' : ν → Nat} (h : Graded prio gs) (hsame : ∀ x ∈ nodes gs, prio' x = prio x) :
    Graded prio' gs := by
  have hfirst : ∀ g ∈ gs, prio' g.1 = prio g.1 := fun g hg =>
    hsame g.1 ((firsts_sublist gs).subset (List.mem_map_of_mem hg))
  refine ⟨fun g hg x hx => ?_, h.order.imp_of_mem fun hg hg' hlt => ?_⟩
  · rw [hfirst g hg, hsame x (List.mem_flatMap.mpr ⟨g, hg, List.mem_cons_of_mem _ hx⟩)]
    exact h.level g hg x hx
  · rw [hfirst _ hg, hfirst _ hg']
    exact hlt

theorem prio_of_mem_nodes (h : Graded prio gs) {x : ν} (hx : x ∈ nodes gs) : ∃ g ∈ gs, prio x = prio g.1 := by
  obtain ⟨g, hg, hxg⟩ := List.mem_flatMap.mp hx
  refine ⟨g, hg, ?_⟩
  obtain rfl | hrest := List.mem_cons.mp hxg
  · rfl
  · exact h.level g hg x hrest

/-- A level that loses nodes stays in its place. -/
theorem Graded.replace {rest : List ν} {y : ν} (h : Graded prio (lo ++ g :: hi)) (hy : prio y = prio g.1)
    (hrest : ∀ x ∈ rest, prio x = prio g.1) : Graded prio (lo ++ (y, rest) :: hi) := by
  refine ⟨fun g' hg' x hx => ?_, ?_⟩
  · rw [List.mem_append, List.mem_cons] at hg'
    obtain hlo | rfl | hhi := hg'
    · exact h.level g' (by simp [hlo]) x hx
    · rw [hrest x hx, hy]
    · exact h.level g' (by simp [hhi]) x hx
  · have horder := h.order
    rw [List.pairwise_append, List.pairwise_cons] at horder ⊢
    refine ⟨horder.1, ⟨fun g' hg' => ?_, horder.2.1.2⟩, fun g₁ hg₁ g₂ hg₂ => ?_⟩
    · rw [hy]
      exact horder.2.1.1 g' hg'
    · obtain rfl | hg₂ := List.mem_cons.mp hg₂
      · rw [hy]
        exact horder.2.2 g₁ hg₁ g List.mem_cons_self
      · exact horder.2.2 g₁ hg₁ g₂ (List.mem_cons_of_mem _ hg₂)

theorem Graded.remove (h : Graded prio (lo ++ g :: hi)) : Graded prio (lo ++ hi) :=
  ⟨fun g' hg' => h.level g' (by
      rw [List.mem_append] at hg'
      rw [List.mem_append, List.mem_cons]
      tauto),
    h.order.sublist ((List.sublist_cons_self _ _).append_left _)⟩

theorem Graded.insert (h : Graded prio (lo ++ hi)) (hlo : ∀ g ∈ lo, prio g.1 < prio node)
    (hhi : ∀ g ∈ hi, prio node < prio g.1) : Graded prio (lo ++ (node, []) :: hi) := by
  refine ⟨fun g' hg' x hx => ?_, ?_⟩
  · rw [List.mem_append, List.mem_cons] at hg'
    obtain hin | rfl | hin := hg'
    · exact h.level g' (by simp [hin]) x hx
    · cases hx
    · exact h.level g' (by simp [hin]) x hx
  · have horder := List.pairwise_append.mp h.order
    rw [List.pairwise_append, List.pairwise_cons]
    refine ⟨horder.1, ⟨hhi, horder.2.1⟩, fun g₁ hg₁ g₂ hg₂ => ?_⟩
    obtain rfl | hg₂ := List.mem_cons.mp hg₂
    · exact hlo g₁ hg₁
    · exact horder.2.2 g₁ hg₁ g₂ hg₂

/-- The levels up to that of a node, and those behind. -/
theorem Graded.split (h : Graded prio gs) (node : ν) : ∃ lo hi, gs = lo ++ hi ∧
    (∀ g ∈ lo, prio g.1 ≤ prio node) ∧ ∀ g ∈ hi, prio node < prio g.1 := by
  induction gs with
  | nil => exact ⟨[], [], rfl, by simp, by simp⟩
  | cons g gs ih =>
    by_cases hg : prio g.1 ≤ prio node
    · have hrest : Graded prio gs := (Graded.of_append (show Graded prio ([g] ++ gs) from h)).2
      obtain ⟨lo, hi, rfl, hlo, hhi⟩ := ih hrest
      refine ⟨g :: lo, hi, rfl, fun g' hg' => ?_, hhi⟩
      obtain rfl | hg' := List.mem_cons.mp hg'
      · exact hg
      · exact hlo g' hg'
    · refine ⟨[], g :: gs, rfl, by simp, fun g' hg' => ?_⟩
      obtain rfl | hg' := List.mem_cons.mp hg'
      · exact Nat.not_le.mp hg
      · exact (Nat.not_le.mp hg).trans ((List.pairwise_cons.mp h.order).1 g' hg')

/-- A node between the levels up to its own and those behind. It opens a level, unless the last in front is its
    own. -/
theorem Graded.add (h : Graded prio (lo ++ hi)) (hlo : ∀ g ∈ lo, prio g.1 ≤ prio node)
    (hhi : ∀ g ∈ hi, prio node < prio g.1) : ∃ gs', Graded prio gs' ∧ nodes gs' = nodes lo ++ node :: nodes hi ∧
      firsts gs' = if (firsts lo).getLast?.all (fun prev => decide (prio prev ≠ prio node)) = true
        then firsts lo ++ node :: firsts hi else firsts lo ++ firsts hi := by
  obtain rfl | ⟨lo, g, rfl⟩ := List.eq_nil_or_concat' lo
  · exact ⟨(node, []) :: hi, h.insert (by simp) hhi, rfl, (if_pos rfl).symm⟩
  · have hlast : (firsts (lo ++ [g])).getLast? = some g.1 := by
      rw [firsts_append]
      exact List.getLast?_concat
    have hg : prio g.1 ≤ prio node := hlo g (by simp)
    rw [hlast]
    by_cases heq : prio g.1 = prio node
    · refine ⟨lo ++ (g.1, g.2 ++ [node]) :: hi, ?_, by simp, ?_⟩
      · have h : Graded prio (lo ++ g :: hi) := by simpa using h
        refine h.replace rfl fun x hx => ?_
        obtain hx | hx := List.mem_append.mp hx
        · exact h.level g (by simp) x hx
        · rw [List.mem_singleton.mp hx, heq]
      · rw [if_neg (by simpa using heq)]
        simp
    · have hlt : prio g.1 < prio node := Nat.lt_of_le_of_ne hg heq
      refine ⟨lo ++ [g] ++ (node, []) :: hi, h.insert (fun g' hg' => ?_) hhi, by simp, ?_⟩
      · obtain hg' | hg' := List.mem_append.mp hg'
        · have horder := (List.pairwise_append.mp h.of_append.1.order).2.2 g' hg' g List.mem_cons_self
          exact horder.trans hlt
        · rwa [List.mem_singleton.mp hg']
      · rw [if_pos (by simpa using heq)]
        simp

/-- The nodes of the levels that come first are those with a priority up to that of the node. -/
theorem Graded.takeWhile_nodes (h : Graded prio (lo ++ hi)) (hlo : ∀ g ∈ lo, prio g.1 ≤ prio node)
    (hhi : ∀ g ∈ hi, prio node < prio g.1) :
    (nodes (lo ++ hi)).takeWhile (fun x => decide (prio x ≤ prio node)) = nodes lo ∧
      (nodes (lo ++ hi)).dropWhile (fun x => decide (prio x ≤ prio node)) = nodes hi := by
  have hin : ∀ x ∈ nodes lo, decide (prio x ≤ prio node) = true := by
    intro x hx
    obtain ⟨g, hg, heq⟩ := prio_of_mem_nodes h.of_append.1 hx
    simpa [heq] using hlo g hg
  rw [nodes_append, List.takeWhile_append_of_pos hin, List.dropWhile_append_of_pos hin]
  cases hi with
  | nil => simp
  | cons g hi =>
    have hg : ¬ prio g.1 ≤ prio node := Nat.not_le.mpr (hhi g List.mem_cons_self)
    rw [nodes_cons, List.takeWhile_cons_of_neg (by simpa using hg), List.dropWhile_cons_of_neg (by simpa using hg),
      List.append_nil]
    exact ⟨rfl, rfl⟩

end Shape

variable {m m' : Mem H ν} {gs : H → List (ν × List ν)} {gs' : List (ν × List ν)}
  {head : H} {node : ν} {fuel : Nat}

/-- The ring of a head: the head and the nodes of its list. -/
def ring (head : H) (gs : List (ν × List ν)) : List (list_head H ν) :=
  .head head :: (nodes gs).map .node

/-- Every `node_list` is the ring of a head or of a node alone. In every list the first nodes of the priorities
    are the ring of `prio_list`, and the other nodes have one each for themselves. -/
structure Formed (m : Mem H ν) (gs : H → List (ν × List ν)) : Prop where
  nodes : Rings m.node_list fun head => ring head (gs head)
  firsts : Rings m.prio_list fun head => firsts (gs head)
  graded : ∀ head, Graded m.prio (gs head)

theorem WARN_ON_false (m : Mem H ν) : m.WARN_ON false = m := by
  rw [Mem.WARN_ON, Bool.or_false]

namespace Formed

theorem ring_nodes (h : Formed m gs) (head : H) :
    m.node_list.Ring (.head head :: (plist.nodes (gs head)).map .node) :=
  h.nodes.ring head

theorem nodup (h : Formed m gs) (head : H) : (plist.nodes (gs head)).Nodup :=
  List.Nodup.of_map _ (List.nodup_cons.mp (h.ring_nodes head).1).2

theorem apart (h : Formed m gs) {head' : H} (hin : node ∈ plist.nodes (gs head))
    (hin' : node ∈ plist.nodes (gs head')) : head = head' :=
  h.nodes.apart _ _ (.node node) (List.mem_cons_of_mem _ (List.mem_map_of_mem hin))
    (List.mem_cons_of_mem _ (List.mem_map_of_mem hin'))

theorem not_mem_ring (hout : ∀ head, node ∉ plist.nodes (gs head)) (head : H) :
    list_head.node node ∉ ring head (gs head) := by
  rw [ring, List.mem_cons, List.mem_map]
  rintro (heq | ⟨x, hx, heq⟩)
  · cases heq
  · obtain rfl := list_head.node.inj heq
    exact hout head hx

theorem not_mem_firsts (hout : ∀ head, node ∉ plist.nodes (gs head)) (head : H) : node ∉ plist.firsts (gs head) :=
  fun hin => hout head ((firsts_sublist _).subset hin)

/-- A node that is not the first of its priority is in no ring of first nodes. -/
theorem not_first (h : Formed m gs) {lo hi : List (ν × List ν)} {g : ν × List ν} (hgs : gs head = lo ++ g :: hi)
    {x : ν} (hx : x ∈ g.2) (i : H) : x ∉ plist.firsts (gs i) := by
  intro hin
  have hmem : x ∈ plist.nodes (gs head) := by
    rw [hgs]
    simp [hx]
  obtain rfl : head = i := h.apart hmem ((firsts_sublist _).subset hin)
  have hnodup := h.nodup head
  rw [hgs] at hnodup hin
  rw [nodes_append, nodes_cons, List.nodup_append, List.nodup_cons, List.nodup_append] at hnodup
  rw [firsts_append, firsts_cons, List.mem_append, List.mem_cons] at hin
  obtain ⟨-, ⟨hg, -, -, hhi⟩, hlo⟩ := hnodup
  obtain hin | rfl | hin := hin
  · exact hlo x ((firsts_sublist _).subset hin) x (by simp [hx]) rfl
  · exact hg (by simp [hx])
  · exact hhi x hx x ((firsts_sublist _).subset hin) rfl

theorem plist_first_eq (h : Formed m gs) {first : ν} (hfirst : (plist.firsts (gs head)).head? = some first) :
    plist_first m head = .ok first := by
  rw [← head?_nodes] at hfirst
  obtain ⟨l, hl⟩ : ∃ l, plist.nodes (gs head) = first :: l := by
    cases hn : plist.nodes (gs head) with
    | nil =>
      rw [hn] at hfirst
      cases hfirst
    | cons x l =>
      rw [hn] at hfirst
      exact ⟨l, by rw [Option.some_inj.mp hfirst]⟩
  have hring := h.ring_nodes head
  rw [hl] at hring
  rw [plist_first, hring.first.1]
  rfl

variable [DecidableEq H]

/-- One list has changed. -/
theorem update (h : Formed m gs) (hprio : m'.prio = m.prio)
    (hnodes : Rings m'.node_list (Function.update (fun head => ring head (gs head)) head (ring head gs')))
    (hfirsts : Rings m'.prio_list (Function.update (fun head => plist.firsts (gs head)) head (plist.firsts gs')))
    (hgraded : Graded m.prio gs') : Formed m' (Function.update gs head gs') := by
  refine ⟨?_, ?_, fun i => ?_⟩
  · have heq : (fun i => ring i (Function.update gs head gs' i)) =
        Function.update (fun i => ring i (gs i)) head (ring head gs') := by
      funext i
      exact Function.apply_update (fun i => ring i) gs head gs' i
    rwa [heq]
  · have heq : (fun i => plist.firsts (Function.update gs head gs' i)) =
        Function.update (fun i => plist.firsts (gs i)) head (plist.firsts gs') := by
      funext i
      exact Function.apply_update (fun _ => plist.firsts) gs head gs' i
    rwa [heq]
  · rw [hprio]
    by_cases hi : i = head
    · subst hi
      rwa [Function.update_self]
    · rw [Function.update_of_ne hi]
      exact h.graded i

variable [DecidableEq ν]

theorem plist_head_empty_eq (h : Formed m gs) (head : H) : plist_head_empty m head = decide (gs head = []) := by
  have hring : m.node_list.Ring ([] ++ .head head :: (plist.nodes (gs head)).map .node) := h.ring_nodes head
  rw [plist_head_empty, hring.list_empty_eq, decide_eq_decide, List.map_eq_nil_iff]
  cases gs head with
  | nil => simp
  | cons g l => simp

theorem plist_node_empty_eq (h : Formed m gs) (node : ν) :
    plist_node_empty m node = true ↔ ∀ head, node ∉ plist.nodes (gs head) := by
  constructor
  · intro hempty head hin
    obtain ⟨l₁, l₂, hl⟩ := List.append_of_mem hin
    have hring : m.node_list.Ring ((.head head :: l₁.map .node) ++ .node node :: l₂.map .node) := by
      have hring := h.ring_nodes head
      rw [hl] at hring
      simpa using hring
    rw [plist_node_empty, hring.list_empty_eq] at hempty
    simp at hempty
  · intro hout
    have hring : m.node_list.Ring ([] ++ .node node :: []) := h.nodes.lone _ (not_mem_ring hout)
    rw [plist_node_empty, hring.list_empty_eq]
    simp

omit [DecidableEq H] in
/-- A new priority for a node that is in no list. -/
theorem set_prio (h : Formed m gs) (hout : ∀ head, node ∉ plist.nodes (gs head)) (prio : Nat) :
    Formed { m with prio := Function.update m.prio node prio } gs :=
  ⟨h.nodes, h.firsts, fun head => (h.graded head).congr fun x hx => Function.update_of_ne (by
    rintro rfl
    exact hout head hx) ..⟩

theorem plist_node_init_eq (h : Formed m gs) (hout : ∀ head, node ∉ plist.nodes (gs head)) (prio : Nat) :
    plist_node_init m node prio = { m with prio := Function.update m.prio node prio } := by
  rw [plist_node_init, Links.INIT_LIST_HEAD_of_single (h.nodes.lone _ (not_mem_ring hout)),
    Links.INIT_LIST_HEAD_of_single (h.firsts.lone _ (not_mem_firsts hout))]

end Formed

section Checks

variable {ν : Type} [DecidableEq ν] {l : Links ν} {top : ν} {rest pre post : List ν} {fuel : Nat}

theorem plist_check_prev_next_eq {p n : ν} (h : l.Linked p n) : plist_check_prev_next l p n = false := by
  rw [plist_check_prev_next, h.1, h.2]
  simp

theorem plist_check_next_ok (h : l.Ring (top :: (pre ++ post))) (hfuel : post.length < fuel) :
    plist_check_next l top fuel (post.head?.getD top) = .ok false := by
  induction post generalizing pre fuel with
  | nil =>
    obtain ⟨fuel, rfl⟩ := Nat.exists_eq_succ_of_ne_zero (Nat.ne_zero_of_lt hfuel)
    rw [plist_check_next]
    exact if_pos rfl
  | cons y post ih =>
    obtain ⟨fuel, rfl⟩ := Nat.exists_eq_succ_of_ne_zero (Nat.ne_zero_of_lt hfuel)
    have hy : y ≠ top := by
      rintro rfl
      exact (List.nodup_cons.mp h.1).1 (by simp)
    have hring : l.Ring ((top :: pre) ++ y :: post) := h
    have hlinked := hring.linked_succ rfl
    have hrest : l.Ring (top :: ((pre ++ [y]) ++ post)) := by simpa using h
    rw [List.head?_cons, Option.getD_some, plist_check_next, if_neg hy, hlinked.1, ih hrest (by simpa using hfuel),
      plist_check_prev_next_eq hlinked]
    rfl

theorem plist_check_list_ok (h : l.Ring (top :: rest)) (hfuel : rest.length < fuel) :
    plist_check_list fuel l top = .ok false := by
  have hring : l.Ring ([] ++ top :: rest) := h
  have hlinked := hring.linked_succ rfl
  have hring : l.Ring (top :: ([] ++ rest)) := h
  rw [plist_check_list, hlinked.1, plist_check_next_ok hring hfuel, plist_check_prev_next_eq hlinked]
  rfl

end Checks

variable [DecidableEq H] [DecidableEq ν]

/-- The checks of the debugging configuration find nothing. -/
theorem Formed.plist_check_head_ok (h : Formed m gs) (hfuel : (plist.nodes (gs head)).length < fuel) :
    plist_check_head fuel m head = .ok m := by
  have hnodes : plist_check_list fuel m.node_list (.head head) = .ok false :=
    plist_check_list_ok (h.ring_nodes head) (by simpa using hfuel)
  rw [plist_check_head, h.plist_head_empty_eq]
  cases hg : gs head with
  | nil =>
    simp only [decide_true, if_true, pure_bind, hnodes]
    exact congrArg Except.ok (WARN_ON_false m)
  | cons g l =>
    have hfirst : (plist.firsts (gs head)).head? = some g.1 := by
      rw [hg]
      rfl
    have hring : m.prio_list.Ring (g.1 :: plist.firsts l) := by
      have hring := h.firsts.ring head
      rwa [hg] at hring
    have hlength : (plist.firsts l).length < fuel := by
      have hle := (firsts_sublist (gs head)).length_le
      rw [hg, firsts_cons, List.length_cons] at hle
      rw [hg] at hfuel
      omega
    simp only [reduceCtorEq, decide_false, Bool.false_eq_true, if_false, h.plist_first_eq hfirst,
      plist_check_list_ok hring hlength, hnodes, WARN_ON_false, bind, Except.bind, pure, Except.pure]

end cs444.plist
