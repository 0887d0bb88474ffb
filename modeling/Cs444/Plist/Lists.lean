import Cs444.Plist.Levels

open linked

namespace cs444.plist

variable {H ν : Type} [DecidableEq H] [DecidableEq ν] {m m' : Mem H ν} {gs : H → List (ν × List ν)}
  {gs' : List (ν × List ν)} {head : H} {node : ν} {fuel : Nat}

section Add

omit [DecidableEq H] in
/-- The loop of `plist_add` stops at the first node with a lower priority than the new one, or has gone round. -/
theorem plist_add_iter_eq {first iter : ν} (head : H) (prev : Option ν) (pre : List ν) {k d : List ν}
    (hring : m.prio_list.Ring (pre ++ (k ++ d)))
    (hfirst : (pre ++ (k ++ d)).head? = some first) (hiter : (k ++ d).head? = some iter)
    (hk : ∀ x ∈ k, m.prio x ≤ m.prio node) (hd : ∀ y ∈ d, m.prio node < m.prio y) (hfuel : k.length < fuel) :
    plist_add_iter m node head first fuel iter prev =
      .ok (d.head?.elim (.head head) .node, d.head?.getD first, k.getLast?.or prev) := by
  induction k generalizing iter prev pre fuel with
  | nil =>
    obtain ⟨fuel, rfl⟩ := Nat.exists_eq_succ_of_ne_zero (Nat.ne_zero_of_lt hfuel)
    rw [List.nil_append] at hiter
    have hlt := hd iter (List.mem_of_mem_head? hiter)
    rw [plist_add_iter, if_pos hlt, hiter]
    rfl
  | cons a k ih =>
    obtain ⟨fuel, rfl⟩ := Nat.exists_eq_succ_of_ne_zero (Nat.ne_zero_of_lt hfuel)
    obtain rfl : a = iter := Option.some_inj.mp hiter
    have hle := hk a List.mem_cons_self
    have hring : m.prio_list.Ring (pre ++ a :: (k ++ d)) := hring
    rw [plist_add_iter, if_neg (Nat.not_lt.mpr hle), (hring.linked_succ hfirst).1]
    cases hrest : k ++ d with
    | nil =>
      obtain ⟨rfl, rfl⟩ := List.append_eq_nil_iff.mp hrest
      exact if_pos rfl
    | cons b l =>
      have hb : b ≠ first := by
        rw [hrest] at hring
        refine hring.ne_first ?_
        rw [← hrest]
        exact hfirst
      have hnext := ih (some a) (pre ++ [a]) (by simpa using hring) (by simpa using hfirst)
        (by rw [hrest]; rfl) (fun x hx => hk x (List.mem_cons_of_mem _ hx)) (by simpa using hfuel)
      rw [List.head?_cons, Option.getD_some, if_neg hb, hnext]
      cases hlast : k.getLast? with
      | none =>
        rw [List.getLast?_eq_none_iff] at hlast
        subst hlast
        rfl
      | some z =>
        rw [List.getLast?_cons, hlast]
        rfl

/-- A new node in a `node_list`, in front of the first with a lower priority. -/
theorem Formed.add_node {lo hi : List (ν × List ν)} (h : Formed m gs) (hout : ∀ head, node ∉ plist.nodes (gs head))
    (hgs : gs head = lo ++ hi) :
    Rings (m.node_list.list_add_tail (.node node) ((plist.firsts hi).head?.elim (.head head) .node))
      (Function.update (fun head => ring head (gs head)) head
        (.head head :: (plist.nodes lo ++ node :: plist.nodes hi).map .node)) := by
  have hring : ring head (gs head) =
      (.head head :: (plist.nodes lo).map .node) ++ (plist.nodes hi).map list_head.node := by
    rw [hgs, ring, nodes_append, List.map_append]
    rfl
  have hinsert := h.nodes.insert (i := head) hring rfl (Formed.not_mem_ring hout)
  have hat : ((plist.nodes hi).map list_head.node).head?.getD (.head head) =
      (plist.firsts hi).head?.elim (.head head) .node := by
    rw [List.head?_map, head?_nodes]
    cases (plist.firsts hi).head? <;> rfl
  rw [hat] at hinsert
  simpa using hinsert

/-- A node comes behind all of its priority and of higher ones. -/
theorem Formed.plist_insert (h : Formed m gs) (hout : ∀ head, node ∉ plist.nodes (gs head))
    (hfuel : (plist.nodes (gs head)).length < fuel) : ∃ m' gs', plist_insert fuel m node head = .ok m' ∧
      Formed m' (Function.update gs head gs') ∧ m'.prio = m.prio ∧ m'.warned = m.warned ∧
      plist.nodes gs' = (plist.nodes (gs head)).takeWhile (fun x => decide (m.prio x ≤ m.prio node)) ++
        node :: (plist.nodes (gs head)).dropWhile (fun x => decide (m.prio x ≤ m.prio node)) := by
  obtain ⟨lo, hi, hgs, hlo, hhi⟩ := (h.graded head).split node
  have hgraded : Graded m.prio (lo ++ hi) := hgs ▸ h.graded head
  obtain ⟨htake, hdrop⟩ := hgraded.takeWhile_nodes hlo hhi
  obtain ⟨gs', hgraded', hnodes', hfirsts'⟩ := hgraded.add hlo hhi
  have hnodes := h.add_node hout hgs
  rw [← hnodes'] at hnodes
  rw [hgs, htake, hdrop, plist.plist_insert, h.plist_head_empty_eq]
  cases hfirst : (plist.firsts (gs head)).head? with
  | none =>
    -- the list was empty
    have hnil : gs head = [] := by
      rw [List.head?_eq_none_iff] at hfirst
      exact List.map_eq_nil_iff.mp hfirst
    obtain ⟨rfl, rfl⟩ := List.append_eq_nil_iff.mp (hgs ▸ hnil)
    have hsingle : plist.firsts gs' = [node] := hfirsts'
    refine ⟨_, gs', if_pos (decide_eq_true hnil), h.update rfl hnodes ?_ hgraded', rfl, rfl, hnodes'⟩
    rw [hsingle]
    refine h.firsts.swap (fun d hd => ?_) fun d hd => ?_
    · rw [hnil] at hd
      cases hd
    · obtain rfl := List.mem_singleton.mp hd
      exact ⟨rfl, Formed.not_mem_firsts hout⟩
  | some first =>
    have hne : gs head ≠ [] := by
      intro hnil
      rw [hnil] at hfirst
      cases hfirst
    have hc : plist.firsts (gs head) = plist.firsts lo ++ plist.firsts hi := by rw [hgs, firsts_append]
    have hfirst' := hfirst
    have hring := h.firsts.ring head
    have hlength := (firsts_sublist (gs head)).length_le
    rw [hc] at hfirst' hring hlength
    rw [List.length_append] at hlength
    have hiter := plist_add_iter_eq head none [] hring hfirst' hfirst' (List.forall_mem_map.mpr hlo)
      (List.forall_mem_map.mpr hhi) (Nat.lt_of_le_of_lt (Nat.le_of_add_right_le hlength) hfuel)
    rw [if_neg (by simpa using hne), h.plist_first_eq hfirst]
    simp only [bind, Except.bind, hiter, pure, Except.pure, Option.or_none]
    refine ⟨_, gs', rfl, h.update rfl hnodes ?_ hgraded', rfl, rfl, hnodes'⟩
    rw [hfirsts']
    split
    · exact h.firsts.insert hc hfirst (Formed.not_mem_firsts hout)
    · rw [← hc, Function.update_eq_self]
      exact h.firsts

/-- `plist_add` of a node that is in no list. -/
theorem Formed.plist_add (h : Formed m gs) (hout : ∀ head, node ∉ plist.nodes (gs head))
    (hfuel : (plist.nodes (gs head)).length + 1 < fuel) : ∃ m' gs', plist_add fuel m node head = .ok m' ∧
      Formed m' (Function.update gs head gs') ∧ m'.prio = m.prio ∧ m'.warned = m.warned ∧
      plist.nodes gs' = (plist.nodes (gs head)).takeWhile (fun x => decide (m.prio x ≤ m.prio node)) ++
        node :: (plist.nodes (gs head)).dropWhile (fun x => decide (m.prio x ≤ m.prio node)) := by
  obtain ⟨m', gs', hinsert, hformed, hprio, hwarned, hnodes⟩ := h.plist_insert hout (Nat.lt_of_succ_lt hfuel)
  refine ⟨m', gs', ?_, hformed, hprio, hwarned, hnodes⟩
  have hempty : plist_node_empty m node = true := (h.plist_node_empty_eq node).mpr hout
  have hlone : m.prio_list.list_empty node = true := by
    have hring : m.prio_list.Ring ([] ++ node :: []) := h.firsts.lone _ (Formed.not_mem_firsts hout)
    rw [hring.list_empty_eq]
    rfl
  have hlength : (plist.nodes (Function.update gs head gs' head)).length < fuel := by
    rw [Function.update_self, hnodes, List.length_append, List.length_cons, ← Nat.add_assoc, ← List.length_append,
      List.takeWhile_append_dropWhile]
    exact hfuel
  rw [plist.plist_add, h.plist_check_head_ok (by omega)]
  simp only [bind, Except.bind, hempty, hlone, Bool.not_true, WARN_ON_false, hinsert]
  exact hformed.plist_check_head_ok hlength

end Add

section Del

omit [DecidableEq H] [DecidableEq ν] in
theorem Formed.next_eq {l₁ l₂ : List ν} (h : Formed m gs) (hl : plist.nodes (gs head) = l₁ ++ node :: l₂) :
    m.node_list.next (.node node) = l₂.head?.elim (.head head) .node := by
  have hring : m.node_list.Ring ((.head head :: l₁.map .node) ++ .node node :: l₂.map .node) := by
    have hring := h.ring_nodes head
    rw [hl] at hring
    simpa using hring
  rw [(hring.linked_succ rfl).1, List.head?_map]
  cases l₂.head? <;> rfl

omit [DecidableEq H] in
theorem Formed.list_empty_firsts {lo hi : List (ν × List ν)} {g : ν × List ν} (h : Formed m gs)
    (hgs : gs head = lo ++ g :: hi) : m.prio_list.list_empty g.1 = decide (lo = [] ∧ hi = []) := by
  have hring := h.firsts.ring head
  rw [hgs, firsts_append, firsts_cons] at hring
  rw [hring.list_empty_eq, decide_eq_decide, plist.firsts, plist.firsts, List.map_eq_nil_iff,
    List.map_eq_nil_iff]

omit [DecidableEq H] in
theorem Formed.list_empty_of_not_first (h : Formed m gs) (hnot : ∀ i, node ∉ plist.firsts (gs i)) :
    m.prio_list.list_empty node = true := by
  have hring : m.prio_list.Ring ([] ++ node :: []) := h.firsts.lone node hnot
  rw [hring.list_empty_eq]
  rfl

/-- The only node of its priority goes. -/
theorem Formed.del_level {lo hi : List (ν × List ν)} (h : Formed m gs) (hgs : gs head = lo ++ (node, []) :: hi) :
    ∃ prio_list, plist_del_prio m node head = .ok prio_list ∧
      Rings prio_list (Function.update (fun head => plist.firsts (gs head)) head (plist.firsts (lo ++ hi))) := by
  have hnext : m.node_list.next (.node node) = (plist.nodes hi).head?.elim (.head head) .node :=
    h.next_eq (by rw [hgs, nodes_append]; rfl)
  have hc : plist.firsts (gs head) = plist.firsts lo ++ node :: plist.firsts hi := by
    rw [hgs, firsts_append]
    rfl
  have hdel := h.firsts.del_init (i := head) hc
  rw [← firsts_append] at hdel
  rw [plist_del_prio, h.list_empty_firsts hgs]
  by_cases hone : lo = [] ∧ hi = []
  · obtain ⟨rfl, rfl⟩ := hone
    refine ⟨m.prio_list, if_pos (by simp), h.firsts.swap (fun d hd => ?_) fun d hd => ?_⟩
    · rw [hc] at hd ⊢
      rw [List.mem_singleton.mp hd]
      rfl
    · cases hd
  · rw [if_neg (by simpa using hone), hnext]
    cases hi with
    | nil => exact ⟨_, if_pos rfl, hdel⟩
    | cons g hi =>
      have hgs' : gs head = (lo ++ [(node, [])]) ++ g :: hi := by simpa using hgs
      have hfull : m.prio_list.list_empty g.1 = false := by
        rw [h.list_empty_firsts hgs']
        simp
      refine ⟨m.prio_list.list_del_init node, ?_, hdel⟩
      simp only [nodes_cons, List.head?_cons, Option.elim_some, reduceCtorEq, if_false, list_entry, bind, Except.bind,
        hfull, Bool.false_eq_true]
      rfl

/-- The first node of its priority goes, and leaves its place to the next one. -/
theorem Formed.del_first {lo hi : List (ν × List ν)} {z : ν} {rest : List ν} (h : Formed m gs)
    (hgs : gs head = lo ++ (node, z :: rest) :: hi) : ∃ prio_list, plist_del_prio m node head = .ok prio_list ∧
      Rings prio_list (Function.update (fun head => plist.firsts (gs head)) head
        (plist.firsts (lo ++ (z, rest) :: hi))) := by
  have hnext : m.node_list.next (.node node) = .node z := by
    have hnodes : plist.nodes (gs head) = plist.nodes lo ++ node :: (z :: (rest ++ plist.nodes hi)) := by
      rw [hgs, nodes_append]
      rfl
    exact h.next_eq hnodes
  have hz : ∀ i, z ∉ plist.firsts (gs i) := h.not_first hgs List.mem_cons_self
  have hc : plist.firsts (gs head) = plist.firsts lo ++ node :: plist.firsts hi := by
    rw [hgs, firsts_append]
    rfl
  rw [plist_del_prio, h.list_empty_firsts hgs]
  by_cases hone : lo = [] ∧ hi = []
  · obtain ⟨rfl, rfl⟩ := hone
    refine ⟨m.prio_list, if_pos (by simp), h.firsts.swap (fun d hd => ?_) fun d hd => ?_⟩
    · rw [hc] at hd ⊢
      rw [List.mem_singleton.mp hd]
      rfl
    · obtain rfl := List.mem_singleton.mp hd
      exact ⟨rfl, hz⟩
  · rw [if_neg (by simpa using hone), hnext]
    simp only [reduceCtorEq, if_false, list_entry, bind, Except.bind, h.list_empty_of_not_first hz, if_true]
    have hadd := h.firsts.add (i := head) hc hz
    have hdel := hadd.del_init (Function.update_self ..)
    rw [Function.update_idem] at hdel
    refine ⟨_, rfl, ?_⟩
    rw [firsts_append]
    exact hdel

/-- What `plist_del` does to the levels: the node is gone from them. -/
theorem Formed.plist_del_prio (h : Formed m gs) (hin : node ∈ plist.nodes (gs head)) : ∃ prio_list gs' l₁ l₂,
    plist_del_prio m node head = .ok prio_list ∧
      Rings prio_list (Function.update (fun head => plist.firsts (gs head)) head (plist.firsts gs')) ∧
      Graded m.prio gs' ∧ plist.nodes (gs head) = l₁ ++ node :: l₂ ∧ plist.nodes gs' = l₁ ++ l₂ := by
  obtain ⟨⟨y, rest⟩, hg, hnode⟩ := List.mem_flatMap.mp hin
  obtain ⟨lo, hi, hgs⟩ := List.append_of_mem hg
  have hgraded : Graded m.prio (lo ++ (y, rest) :: hi) := hgs ▸ h.graded head
  have hlevel : ∀ x ∈ rest, m.prio x = m.prio y := hgraded.level (y, rest) (by simp)
  by_cases heq : node = y
  · subst heq
    cases rest with
    | nil =>
      obtain ⟨prio_list, hdel, hrings⟩ := h.del_level hgs
      refine ⟨prio_list, lo ++ hi, plist.nodes lo, plist.nodes hi, hdel, hrings, hgraded.remove, ?_, nodes_append ..⟩
      rw [hgs, nodes_append]
      rfl
    | cons z rest =>
      obtain ⟨prio_list, hdel, hrings⟩ := h.del_first hgs
      have hz : m.prio z = m.prio node := hlevel z List.mem_cons_self
      refine ⟨prio_list, lo ++ (z, rest) :: hi, plist.nodes lo, z :: (rest ++ plist.nodes hi), hdel, hrings,
        hgraded.replace hz fun x hx => hlevel x (List.mem_cons_of_mem _ hx), ?_, nodes_append ..⟩
      rw [hgs, nodes_append]
      rfl
  · have hrest : node ∈ rest := (List.mem_cons.mp hnode).resolve_left heq
    obtain ⟨r₁, r₂, rfl⟩ := List.append_of_mem hrest
    refine ⟨m.prio_list, lo ++ (y, r₁ ++ r₂) :: hi, plist.nodes lo ++ y :: r₁, r₂ ++ plist.nodes hi, ?_, ?_, ?_, ?_, ?_⟩
    · rw [plist.plist_del_prio, h.list_empty_of_not_first (h.not_first hgs hrest)]
      rfl
    · have hsame : plist.firsts (lo ++ (y, r₁ ++ r₂) :: hi) = plist.firsts (gs head) := by
        rw [hgs, firsts_append, firsts_append]
        rfl
      rw [hsame, Function.update_eq_self]
      exact h.firsts
    · refine hgraded.replace rfl fun x hx => hlevel x ?_
      rw [List.mem_append, List.mem_cons]
      exact (List.mem_append.mp hx).imp_right .inr
    · rw [hgs]
      simp
    · simp

/-- `plist_del` of a node that is in this list or in none. -/
theorem Formed.plist_del (h : Formed m gs) (hat : ∀ i, node ∈ plist.nodes (gs i) → i = head)
    (hfuel : (plist.nodes (gs head)).length < fuel) : ∃ m' gs', plist_del fuel m node head = .ok m' ∧
      Formed m' (Function.update gs head gs') ∧ m'.prio = m.prio ∧ m'.warned = m.warned ∧
      plist.nodes gs' = (plist.nodes (gs head)).filter (fun x => decide (x ≠ node)) := by
  rw [plist.plist_del, h.plist_check_head_ok hfuel]
  simp only [bind, Except.bind]
  by_cases hin : node ∈ plist.nodes (gs head)
  · obtain ⟨prio_list, gs', l₁, l₂, hdel, hrings, hgraded, hl, hl'⟩ := h.plist_del_prio hin
    have hring : ring head (gs head) = (.head head :: l₁.map .node) ++ .node node :: l₂.map .node := by
      rw [ring, hl]
      simp
    have hnodes := h.nodes.del_init (i := head) hring
    have hring' : (.head head :: l₁.map .node) ++ l₂.map .node = ring head gs' := by
      rw [ring, hl']
      simp
    rw [hring'] at hnodes
    have hformed : Formed { m with prio_list, node_list := m.node_list.list_del_init (.node node) }
        (Function.update gs head gs') := h.update rfl hnodes hrings hgraded
    refine ⟨_, gs', ?_, hformed, rfl, rfl, ?_⟩
    · rw [hdel]
      refine hformed.plist_check_head_ok ?_
      rw [Function.update_self, hl']
      rw [hl] at hfuel
      simp at hfuel ⊢
      omega
    · have hnodup := h.nodup head
      rw [hl] at hnodup ⊢
      rw [List.nodup_middle, List.nodup_cons] at hnodup
      have hall : ∀ x ∈ l₁ ++ l₂, decide (x ≠ node) = true := by
        intro x hx
        have hne : x ≠ node := fun heq => hnodup.1 (heq ▸ hx)
        simpa using hne
      rw [hl', List.filter_append, List.filter_cons_of_neg (by simp), ← List.filter_append, List.filter_eq_self.mpr hall]
  · have hout : ∀ i, node ∉ plist.nodes (gs i) := fun i hi => hin (hat i hi ▸ hi)
    have hsame : m.node_list.list_del_init (.node node) = m.node_list :=
      Links.list_del_init_single (h.nodes.lone _ (Formed.not_mem_ring hout))
    refine ⟨m, gs head, ?_, by rwa [Function.update_eq_self], rfl, rfl, ?_⟩
    · rw [plist.plist_del_prio, h.list_empty_of_not_first (Formed.not_mem_firsts hout), hsame]
      exact h.plist_check_head_ok hfuel
    · refine (List.filter_eq_self.mpr fun x hx => ?_).symm
      have hne : x ≠ node := fun heq => hin (heq ▸ hx)
      simpa using hne

end Del

end cs444.plist
