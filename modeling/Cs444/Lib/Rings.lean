import Cs444.Lib.Linked

namespace linked

variable {ν ι : Type}

namespace Links

variable {p p' : Links ν} {a b x : ν} {c l pre post : List ν}

theorem ring_single_iff : p.Ring [a] ↔ p.next a = a ∧ p.prev a = a := by
  refine ⟨Ring.single, fun h => ⟨List.nodup_singleton a, ?_⟩⟩
  exact List.isChain_pair.mpr h

/-- A ring read from one of its nodes on. -/
theorem Ring.turn (h : p.Ring (pre ++ a :: post)) : p.Ring (a :: (post ++ pre)) :=
  h.isRotated List.isRotated_append

theorem Ring.turn_back (h : p.Ring (a :: (post ++ pre))) : p.Ring (pre ++ a :: post) := by
  have hrot : (a :: post ++ pre) ~r (pre ++ a :: post) := List.isRotated_append
  exact h.isRotated hrot

/-- Behind a node of a ring comes the next one, and behind the last the first. -/
theorem Ring.linked_succ (h : p.Ring (pre ++ b :: post)) (hfirst : (pre ++ b :: post).head? = some a) :
    p.Linked b (post.head?.getD a) := by
  cases post with
  | cons y post => exact h.adjacent
  | nil =>
    cases pre with
    | nil =>
      obtain rfl := Option.some_inj.mp hfirst
      exact h.single
    | cons d pre =>
      obtain rfl := Option.some_inj.mp hfirst
      exact h.closed

theorem Ring.ne_first (h : p.Ring (pre ++ b :: x :: post)) (hfirst : (pre ++ b :: x :: post).head? = some a) :
    x ≠ a := by
  rintro rfl
  have hnodup := h.1
  cases pre with
  | nil =>
    obtain rfl := Option.some_inj.mp hfirst
    exact (List.nodup_cons.mp hnodup).1 List.mem_cons_self
  | cons d pre =>
    obtain rfl := Option.some_inj.mp hfirst
    exact (List.nodup_cons.mp hnodup).1 (by simp)

variable [DecidableEq ν]

def INIT_LIST_HEAD (p : Links ν) (entry : ν) : Links ν where
  next := Function.update p.next entry entry
  prev := Function.update p.prev entry entry

def list_del_init (p : Links ν) (entry : ν) : Links ν :=
  (p.unlink entry).INIT_LIST_HEAD entry

def list_empty (p : Links ν) (head : ν) : Bool :=
  decide (p.next head = head)

/-- The nodes met on the way from one node to another, both left out. -/
def walk (p : Links ν) (stop : ν) : Nat → ν → Option (List ν)
  | 0, _ => none
  | fuel + 1, a => if p.next a = stop then some [] else (p.walk stop fuel (p.next a)).map (p.next a :: ·)

theorem INIT_LIST_HEAD_single : (p.INIT_LIST_HEAD x).Ring [x] :=
  ring_single_iff.mpr ⟨Function.update_self .., Function.update_self ..⟩

theorem INIT_LIST_HEAD_same {d : ν} (hd : d ≠ x) : p.Same (p.INIT_LIST_HEAD x) d :=
  ⟨Function.update_of_ne hd .., Function.update_of_ne hd ..⟩

theorem INIT_LIST_HEAD_of_single (h : p.Ring [x]) : p.INIT_LIST_HEAD x = p := by
  obtain ⟨hnext, hprev⟩ := h.single
  rw [INIT_LIST_HEAD, Function.update_eq_self_iff.mpr hnext.symm, Function.update_eq_self_iff.mpr hprev.symm]

/-- Nothing changes for a node that is alone on its ring. -/
theorem list_del_init_single (h : p.Ring [x]) : p.list_del_init x = p := by
  obtain ⟨hnext, hprev⟩ := h.single
  have hn : Function.update p.next x x = p.next := Function.update_eq_self_iff.mpr hnext.symm
  have hp : Function.update p.prev x x = p.prev := Function.update_eq_self_iff.mpr hprev.symm
  rw [list_del_init, unlink, hnext, hprev, link, hn, hp]
  exact INIT_LIST_HEAD_of_single h

theorem Ring.del_init (h : p.Ring (x :: c)) : (p.list_del_init x).Ring c := by
  cases c with
  | nil => exact ⟨List.nodup_nil, .nil⟩
  | cons y l =>
    refine h.unlink.same fun d hd => INIT_LIST_HEAD_same ?_
    rintro rfl
    exact (List.nodup_cons.mp h.1).1 hd

theorem Ring.del_init_same (h : p.Ring (x :: c)) {d : ν} (hd : d ∉ x :: c) : p.Same (p.list_del_init x) d := by
  refine (h.unlink_same hd).trans (INIT_LIST_HEAD_same ?_)
  rintro rfl
  exact hd List.mem_cons_self

/-- A node points at itself when there is no other one on its ring. -/
theorem Ring.list_empty_eq (h : p.Ring (pre ++ x :: post)) : p.list_empty x = decide (pre = [] ∧ post = []) := by
  rw [list_empty, decide_eq_decide]
  have hturn := h.turn
  obtain hnil | ⟨y, l, hl⟩ : post ++ pre = [] ∨ ∃ y l, post ++ pre = y :: l := by
    cases post ++ pre with
    | nil => exact .inl rfl
    | cons y l => exact .inr ⟨y, l, rfl⟩
  · rw [hnil] at hturn
    obtain ⟨hpost, hpre⟩ := List.append_eq_nil_iff.mp hnil
    exact ⟨fun _ => ⟨hpre, hpost⟩, fun _ => hturn.single.1⟩
  · rw [hl] at hturn
    have hne : x ≠ y := by
      rintro rfl
      exact (List.nodup_cons.mp hturn.1).1 List.mem_cons_self
    refine ⟨fun hself => absurd (hself.symm.trans hturn.first.1) hne, ?_⟩
    rintro ⟨rfl, rfl⟩
    cases hl

/-- Walking on from a node of a ring leads over the rest of it, back to the first. -/
theorem Ring.walk_from (h : p.Ring (pre ++ b :: post)) (hfirst : (pre ++ b :: post).head? = some a) {fuel : Nat}
    (hfuel : post.length < fuel) : p.walk a fuel b = some post := by
  induction post generalizing pre b fuel with
  | nil =>
    obtain ⟨fuel, rfl⟩ := Nat.exists_eq_succ_of_ne_zero (Nat.ne_zero_of_lt hfuel)
    have hnext : p.next b = a := (h.linked_succ hfirst).1
    rw [walk, if_pos hnext]
  | cons y post ih =>
    obtain ⟨fuel, rfl⟩ := Nat.exists_eq_succ_of_ne_zero (Nat.ne_zero_of_lt hfuel)
    have hrest : p.Ring ((pre ++ [b]) ++ y :: post) := by simpa using h
    have hfirst' : ((pre ++ [b]) ++ y :: post).head? = some a := by simpa using hfirst
    rw [walk, h.adjacent.1, if_neg (h.ne_first hfirst), ih hrest hfirst' (by simpa using hfuel), Option.map_some]

theorem Ring.walk (h : p.Ring (a :: l)) {fuel : Nat} (hfuel : l.length < fuel) : p.walk a fuel a = some l :=
  Ring.walk_from (show p.Ring ([] ++ a :: l) from h) rfl hfuel

end Links

/-- Every node is on one of some rings that have no node in common, or alone. -/
structure Rings (p : Links ν) (c : ι → List ν) : Prop where
  ring : ∀ i, p.Ring (c i)
  apart : ∀ i j x, x ∈ c i → x ∈ c j → i = j
  lone : ∀ x, (∀ i, x ∉ c i) → p.Ring [x]

namespace Rings

variable {p p' : Links ν} {c : ι → List ν} {i : ι} {a x : ν} {l pre post : List ν}

theorem turn (h : Rings p c) (hc : c i = pre ++ a :: post) :
    p.Ring (a :: (post ++ pre)) ∧ ∀ d, d ∈ a :: (post ++ pre) ↔ d ∈ c i := by
  have hring := h.ring i
  rw [hc] at hring ⊢
  refine ⟨hring.turn, fun d => ?_⟩
  simp only [List.mem_cons, List.mem_append]
  tauto

variable [DecidableEq ι]

/-- One of the rings changes, by nodes that were alone or are from now on. -/
theorem update (h : Rings p c) (hring : p'.Ring l) (hsame : ∀ d, d ∉ c i → d ∉ l → p.Same p' d)
    (hin : ∀ d ∈ l, d ∈ c i ∨ ∀ j, d ∉ c j) (hlone : ∀ d ∈ c i, d ∉ l → p'.Ring [d]) :
    Rings p' (Function.update c i l) := by
  have hout : ∀ j, j ≠ i → ∀ d ∈ c j, d ∉ c i ∧ d ∉ l := by
    intro j hj d hd
    have hdi : d ∉ c i := fun hdi => hj (h.apart _ _ _ hd hdi)
    refine ⟨hdi, fun hdl => ?_⟩
    obtain hdi' | hnone := hin d hdl
    · exact hdi hdi'
    · exact hnone j hd
  refine ⟨fun j => ?_, fun j k d hj hk => ?_, fun d hd => ?_⟩
  · by_cases hj : j = i
    · subst hj
      rwa [Function.update_self]
    · rw [Function.update_of_ne hj]
      exact (h.ring j).same fun d hd => hsame d (hout j hj d hd).1 (hout j hj d hd).2
  · by_cases hji : j = i <;> by_cases hki : k = i
    · rw [hji, hki]
    · subst hji
      rw [Function.update_self] at hj
      rw [Function.update_of_ne hki] at hk
      exact absurd hj (hout k hki d hk).2
    · subst hki
      rw [Function.update_self] at hk
      rw [Function.update_of_ne hji] at hj
      exact absurd hk (hout j hji d hj).2
    · rw [Function.update_of_ne hji] at hj
      rw [Function.update_of_ne hki] at hk
      exact h.apart _ _ _ hj hk
  · have hdl : d ∉ l := by
      have hdi := hd i
      rwa [Function.update_self] at hdi
    by_cases hdi : d ∈ c i
    · exact hlone d hdi hdl
    · have hnone : ∀ j, d ∉ c j := by
        intro j
        by_cases hj : j = i
        · rwa [hj]
        · have hdj := hd j
          rwa [Function.update_of_ne hj] at hdj
      refine (h.lone d hnone).same fun d' hd' => ?_
      obtain rfl := List.mem_singleton.mp hd'
      exact hsame _ hdi hdl

/-- Reading a ring from another node on. -/
theorem rotate (h : Rings p (Function.update c i l)) {l' : List ν} (hrot : l ~r l') :
    Rings p (Function.update c i l') := by
  have hring : p.Ring l := by
    have hi := h.ring i
    rwa [Function.update_self] at hi
  have hnew := h.update (i := i) (hring.isRotated hrot) (fun d _ _ => ⟨rfl, rfl⟩)
    (fun d hd => .inl (by rw [Function.update_self]; exact hrot.mem_iff.mpr hd))
    (fun d hd hnot => by
      rw [Function.update_self] at hd
      exact absurd (hrot.mem_iff.mp hd) hnot)
  rwa [Function.update_idem] at hnew

/-- A node that is alone becomes the only one of a ring, in the place of one that was. -/
theorem swap (h : Rings p c) (hold : ∀ d ∈ c i, c i = [d]) (hl : ∀ d ∈ l, l = [d] ∧ ∀ j, d ∉ c j) :
    Rings p (Function.update c i l) := by
  have hring : p.Ring l := by
    cases l with
    | nil => exact ⟨List.nodup_nil, .nil⟩
    | cons d l =>
      obtain ⟨hsingle, hnone⟩ := hl d List.mem_cons_self
      rw [hsingle]
      exact h.lone d hnone
  refine h.update hring (fun d _ _ => ⟨rfl, rfl⟩) (fun d hd => .inr (hl d hd).2) fun d hd _ => ?_
  have hring := h.ring i
  rwa [hold d hd] at hring

variable [DecidableEq ν]

theorem add_tail (h : Rings p c) (hc : c i = pre ++ a :: post) (hx : ∀ j, x ∉ c j) :
    Rings (p.list_add_tail x a) (Function.update c i (pre ++ x :: a :: post)) := by
  obtain ⟨hturn, hmem⟩ := h.turn hc
  have hadded := hturn.add_tail (x := x) fun hin => hx i ((hmem x).mp hin)
  have hring : (p.list_add_tail x a).Ring (pre ++ x :: (a :: post)) := hadded.turn_back
  refine h.update hring (fun d hd hnew => ?_) (fun d hd => ?_) fun d hd hnot => absurd ?_ hnot
  · exact hturn.add_tail_same (fun hin => hd ((hmem d).mp hin)) fun hdx => hnew (by simp [hdx])
  · rw [hc]
    obtain rfl | hne := eq_or_ne d x
    · exact .inr hx
    · simp only [List.mem_append, List.mem_cons, hne, false_or] at hd ⊢
      exact .inl hd
  · rw [hc] at hd
    simp only [List.mem_append, List.mem_cons] at hd ⊢
    tauto

/-- A new node between two parts of a ring, the second of which may be empty. -/
theorem insert {first : ν} {l₁ l₂ : List ν} (h : Rings p c) (hc : c i = l₁ ++ l₂) (hfirst : (c i).head? = some first)
    (hx : ∀ j, x ∉ c j) : Rings (p.list_add_tail x (l₂.head?.getD first)) (Function.update c i (l₁ ++ x :: l₂)) := by
  cases l₂ with
  | cons y l₂ => exact h.add_tail hc hx
  | nil =>
    rw [List.append_nil] at hc
    cases l₁ with
    | nil =>
      rw [hc] at hfirst
      cases hfirst
    | cons d l₁ =>
      rw [hc] at hfirst
      obtain rfl := Option.some_inj.mp hfirst
      have hadded := h.add_tail (show c i = [] ++ d :: l₁ from hc) hx
      exact hadded.rotate (List.isRotated_append (l := [x]))

theorem add (h : Rings p c) (hc : c i = pre ++ a :: post) (hx : ∀ j, x ∉ c j) :
    Rings (p.list_add x a) (Function.update c i (pre ++ a :: x :: post)) := by
  obtain ⟨hturn, hmem⟩ := h.turn hc
  have hadded := hturn.add (x := x) fun hin => hx i ((hmem x).mp hin)
  have hring : (p.list_add x a).Ring (pre ++ a :: (x :: post)) := hadded.turn_back
  refine h.update hring (fun d hd hnew => ?_) (fun d hd => ?_) fun d hd hnot => absurd ?_ hnot
  · exact hturn.add_same (fun hin => hd ((hmem d).mp hin)) fun hdx => hnew (by simp [hdx])
  · rw [hc]
    obtain rfl | hne := eq_or_ne d x
    · exact .inr hx
    · simp only [List.mem_append, List.mem_cons, hne, false_or] at hd ⊢
      exact .inl hd
  · rw [hc] at hd
    simp only [List.mem_append, List.mem_cons] at hd ⊢
    tauto

theorem del_init (h : Rings p c) (hc : c i = pre ++ x :: post) :
    Rings (p.list_del_init x) (Function.update c i (pre ++ post)) := by
  obtain ⟨hturn, hmem⟩ := h.turn hc
  have hring : (p.list_del_init x).Ring (pre ++ post) := hturn.del_init.isRotated List.isRotated_append
  refine h.update hring (fun d hd _ => ?_) (fun d hd => ?_) fun d hd hnot => ?_
  · exact hturn.del_init_same fun hin => hd ((hmem d).mp hin)
  · rw [hc]
    simp only [List.mem_append, List.mem_cons] at hd ⊢
    tauto
  · obtain rfl : d = x := by
      rw [hc] at hd
      simp only [List.mem_append, List.mem_cons] at hd hnot
      tauto
    exact Links.INIT_LIST_HEAD_single

end Rings

end linked
