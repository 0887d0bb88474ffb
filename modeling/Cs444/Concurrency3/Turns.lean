import Cs444.Concurrency3.Refine

open interleaving

open Function

namespace cs444.concurrency3.nodes

variable {R S I D : Nat} {s s' : State S I D} {xs xs' : List Int}

/-- What the order of the calls depends on: whether a writer has acquired `write_sem`, whether it
    still has it, and the call it is in that has not taken effect yet. -/
structure View where
  begun : Bool
  inside : Bool
  pending : Option Op
deriving DecidableEq

def View.outside : View := { begun := false, inside := false, pending := none }

def View.within (pending : Option Op) : View := { begun := true, inside := true, pending }

def View.done : View := { begun := true, inside := false, pending := none }

def Inserter.view : Inserter → View
  | .write_wait => .outside
  | .scan _ val _ _ | .follow _ val _ _ | .create _ val _ | .link _ val _ _ _ | .first _ val _ =>
    .within (some (.insert val))
  | .insert _ | .store _ _ | .print_list _ | .printing _ _ | .write_post => .within none
  | .returned => .done

def Deleter.view : Deleter → View
  | .write_wait => .outside
  | .descend val _ _ | .recurse val _ _ | .take_next val _ _ | .free val _ _ _ | .assign val _ _ =>
    .within (some (.remove val))
  | .read_wait _ | .remove | .print_list | .printing _ | .read_post _ | .write_post => .within none
  | .returned => .done

def State.view (s : State S I D) : Writer I D → View
  | .inserter i => (s.inserter i).view
  | .deleter i => (s.deleter i).view

/-- What a step of a writer means for the order of the calls. -/
inductive Turn (w : Writer I D) (xs : List Int) : View → Option (Event I D) → List Int → View → Prop where
  | acquire : Turn w xs .outside (some (.acquire w)) xs (.within none)
  | call (op : Op) : Turn w xs (.within none) (some (.call w op)) xs (.within (some op))
  | effect (op : Op) : Turn w xs (.within (some op)) none (op.apply xs) (.within none)
  | stay (v : View) : Turn w xs v none xs v
  | leave : Turn w xs (.within none) none xs .done

theorem insert_loop_view (t : Nat) : (insert_loop t).view = .within none := by
  rw [insert_loop]
  split <;> rfl

theorem wait_loop_view (t : Nat) : (wait_loop R t).view = .within none := by
  rw [wait_loop]
  split <;> rfl

theorem post_loop_view (t : Nat) : (post_loop R t).view = .within none := by
  rw [post_loop]
  split <;> rfl

theorem created_view (t : Nat) (val : Int) (addr : Nat) (place : Option (Nat × Nat)) :
    (created t val addr place).view = .within (some (.insert val)) := by
  match place with
  | none => rfl
  | some (_, _) => rfl

theorem inserter_turn (xs : List Int) {i : Fin I} {val : Int} {addr : Nat} (hnext : inserter_next s i val addr = some s') :
    (∃ p, s'.inserter = update s.inserter i p ∧ s'.deleter = s.deleter ∧
      Turn (D := D) (.inserter i) xs (s.inserter i).view (event s (.inserter i val addr))
        (effect s (.inserter i val addr) xs) p.view) := by
  cases hp : s.inserter i with simp only [inserter_next, event, effect, hp] at hnext ⊢
  | write_wait =>
    split at hnext
    · cases hnext
      exact ⟨_, rfl, rfl, by rw [insert_loop_view]; exact .acquire⟩
    · cases hnext
  | insert t =>
    split at hnext <;> cases hnext <;> exact ⟨_, rfl, rfl, .call _⟩
  | scan t val head temp =>
    split at hnext <;> cases hnext <;> exact ⟨_, rfl, rfl, .stay _⟩
  | follow t val head temp =>
    split at hnext
    · cases hnext
    · cases hnext
      exact ⟨_, rfl, rfl, .stay _⟩
  | create t val place =>
    split at hnext
    · cases hnext
    · cases hnext
      exact ⟨_, rfl, rfl, by rw [created_view]; exact .stay _⟩
  | link t val head temp new_node =>
    cases hnext
    exact ⟨_, rfl, rfl, .effect (.insert val)⟩
  | first t val new_node =>
    cases hnext
    exact ⟨_, rfl, rfl, .effect (.insert val)⟩
  | store t head | print_list t =>
    cases hnext
    exact ⟨_, rfl, rfl, .stay _⟩
  | printing t current =>
    cases current with
    | none =>
      cases hnext
      exact ⟨_, rfl, rfl, by rw [insert_loop_view]; exact .stay _⟩
    | some current =>
      cases hnext
      exact ⟨_, rfl, rfl, .stay _⟩
  | write_post =>
    cases hnext
    exact ⟨_, rfl, rfl, .leave⟩
  | returned => cases hnext

theorem deleter_turn (xs : List Int) {i : Fin D} {val : Int} (hnext : deleter_next R s i val = some s') :
    (∃ p, s'.deleter = update s.deleter i p ∧ s'.inserter = s.inserter ∧
      Turn (I := I) (.deleter i) xs (s.deleter i).view (event s (.deleter i val))
        (effect s (.deleter i val) xs) p.view) := by
  cases hp : s.deleter i with simp only [deleter_next, event, effect, hp] at hnext ⊢
  | write_wait =>
    split at hnext
    · cases hnext
      exact ⟨_, rfl, rfl, by rw [wait_loop_view]; exact .acquire⟩
    · cases hnext
  | read_wait t =>
    split at hnext
    · cases hnext
      exact ⟨_, rfl, rfl, by rw [wait_loop_view]; exact .stay _⟩
    · cases hnext
  | remove =>
    cases hnext
    exact ⟨_, rfl, rfl, .call _⟩
  | descend val stack curr =>
    cases curr with
    | none =>
      cases hnext
      exact ⟨_, rfl, rfl, .stay _⟩
    | some curr =>
      dsimp only at hnext
      split at hnext <;> cases hnext <;> exact ⟨_, rfl, rfl, .stay _⟩
  | recurse val stack curr | take_next val stack curr | free val stack curr temp | print_list =>
    cases hnext
    exact ⟨_, rfl, rfl, .stay _⟩
  | assign val stack result =>
    cases stack with
    | nil =>
      cases hnext
      exact ⟨_, rfl, rfl, .effect (.remove val)⟩
    | cons curr stack =>
      cases hnext
      exact ⟨_, rfl, rfl, .stay _⟩
  | printing current =>
    cases current with
    | none =>
      cases hnext
      exact ⟨_, rfl, rfl, by rw [post_loop_view]; exact .stay _⟩
    | some current =>
      cases hnext
      exact ⟨_, rfl, rfl, .stay _⟩
  | read_post t =>
    cases hnext
    exact ⟨_, rfl, rfl, by rw [post_loop_view]; exact .stay _⟩
  | write_post =>
    cases hnext
    exact ⟨_, rfl, rfl, .leave⟩
  | returned => cases hnext

theorem searcher_frame {i : Fin S} {val : Int} (hnext : searcher_next s i val = some s') :
    s'.inserter = s.inserter ∧ s'.deleter = s.deleter ∧ ∃ p, s'.searcher = update s.searcher i p := by
  cases hp : s.searcher i with simp only [searcher_next, hp] at hnext
  | read_wait =>
    split at hnext
    · cases hnext
      exact ⟨rfl, rfl, _, rfl⟩
    · cases hnext
  | walk val temp =>
    cases temp with
    | none =>
      cases hnext
      exact ⟨rfl, rfl, _, rfl⟩
    | some temp =>
      dsimp only at hnext
      split at hnext <;> cases hnext <;> exact ⟨rfl, rfl, _, rfl⟩
  | printing val result current => cases current <;> cases hnext <;> exact ⟨rfl, rfl, _, rfl⟩
  | search | advance val temp | print_list val result | read_post =>
    cases hnext
    exact ⟨rfl, rfl, _, rfl⟩
  | returned => cases hnext

theorem next_turn (xs : List Int) {a : Move S I D} (hnext : next R s a = some s') :
    (s'.view = s.view ∧ event s a = none ∧ effect s a xs = xs) ∨
      ∃ w, (∀ w', w' ≠ w → s'.view w' = s.view w') ∧
        Turn w xs (s.view w) (event s a) (effect s a xs) (s'.view w) := by
  cases a with
  | searcher i val =>
    obtain ⟨hinserter, hdeleter, -⟩ := searcher_frame hnext
    refine .inl ⟨?_, rfl, rfl⟩
    funext w
    cases w with
    | inserter j => rw [State.view, State.view, hinserter]
    | deleter j => rw [State.view, State.view, hdeleter]
  | inserter i val addr =>
    obtain ⟨p, hinserter, hdeleter, hturn⟩ := inserter_turn xs hnext
    refine .inr ⟨.inserter i, fun w hw => ?_, ?_⟩
    · cases w with
      | inserter j =>
        have hj : j ≠ i := fun hji => hw (by rw [hji])
        rw [State.view, State.view, hinserter, update_of_ne hj]
      | deleter j => rw [State.view, State.view, hdeleter]
    · rw [State.view, State.view, hinserter, update_self]
      exact hturn
  | deleter i val =>
    obtain ⟨p, hdeleter, hinserter, hturn⟩ := deleter_turn xs hnext
    refine .inr ⟨.deleter i, fun w hw => ?_, ?_⟩
    · cases w with
      | inserter j => rw [State.view, State.view, hinserter]
      | deleter j =>
        have hj : j ≠ i := fun hji => hw (by rw [hji])
        rw [State.view, State.view, hdeleter, update_of_ne hj]
    · rw [State.view, State.view, hdeleter, update_self]
      exact hturn

theorem Inserter.view_inside (p : Inserter) : p.view.inside = p.abs.inside := by
  cases p with
  | store t _ | print_list t | printing t _ => exact (insert_loop_inside _).symm
  | _ => rfl

theorem Deleter.view_inside (p : Deleter) : p.view.inside = (p.abs R).inside := by
  cases p with
  | print_list | printing _ => exact (post_loop_spec R 0).1.symm
  | _ => rfl

/-- Only one writer has `write_sem`. -/
theorem Refines.inside_unique (h : Refines R s xs) {w w' : Writer I D} (hw : (s.view w).inside = true)
    (hw' : (s.view w').inside = true) : w = w' := by
  have hwrite := h.inv.write
  have hone : ∀ i, (s.inserter i).view.inside = true → Alone R s i := fun i hi =>
    h.alone ((Inserter.view_inside _).symm.trans hi)
  cases w with
  | inserter i =>
    have halone := hone i hw
    cases w' with
    | inserter j =>
      by_contra hne
      have hj : j ≠ i := fun hji => hne (by rw [hji])
      have hout := halone.inserter j hj
      rw [← Inserter.view_inside] at hout
      exact absurd (hout.symm.trans hw') (by simp)
    | deleter j =>
      have hout := halone.deleter j
      rw [← Deleter.view_inside] at hout
      exact absurd (hout.symm.trans hw') (by simp)
  | deleter i =>
    cases w' with
    | inserter j =>
      have hout := (hone j hw').deleter i
      rw [← Deleter.view_inside] at hout
      exact absurd (hout.symm.trans hw) (by simp)
    | deleter j =>
      have hi : ((s.abs R xs).deleter i).inside = true := (Deleter.view_inside (R := R) _).symm.trans hw
      have hj : ((s.abs R xs).deleter j).inside = true := (Deleter.view_inside (R := R) _).symm.trans hw'
      rw [count_le_one (P := fun j => ((s.abs R xs).deleter j).inside) (by omega) hi hj]

theorem pending_inside {w : Writer I D} {op : Op} (h : (s.view w).pending = some op) : (s.view w).inside = true := by
  cases w with
  | inserter i =>
    rw [State.view] at h ⊢
    cases hp : s.inserter i <;> rw [hp] at h <;> first | rfl | simp [Inserter.view, View.outside, View.done] at h
  | deleter i =>
    rw [State.view] at h ⊢
    cases hp : s.deleter i <;> rw [hp] at h <;> first | rfl | simp [Deleter.view, View.outside, View.done] at h

end cs444.concurrency3.nodes
