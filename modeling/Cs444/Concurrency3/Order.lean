import Cs444.Concurrency3.Turns

open interleaving

namespace cs444.concurrency3.nodes

variable {R S I D : Nat} {s s' : State S I D} {xs xs' : List Int} {es : List (Event I D)}

/-- The writers so far and their calls: a call that is pending is the only one missing from the
    list. -/
structure Ordered (s : State S I D) (xs : List Int) (es : List (Event I D)) : Prop where
  nodup : (order es).Nodup
  begun : ∀ w, w ∈ order es ↔ (s.view w).begun = true
  calls : ∀ w, (s.view w).begun = false → callsOf es w = []
  last : ∀ w, (s.view w).inside = true → (order es).getLast? = some w
  pending : ∀ w op, (s.view w).pending = some op → op.apply xs = replay es
  settled : (∀ w, (s.view w).pending = none) → xs = replay es

theorem order_append (es es' : List (Event I D)) : order (es ++ es') = order es ++ order es' :=
  List.filterMap_append

theorem callsOf_append (es es' : List (Event I D)) (w : Writer I D) :
    callsOf (es ++ es') w = callsOf es w ++ callsOf es' w :=
  List.filterMap_append

theorem replay_acquire {w : Writer I D} (h : callsOf es w = []) : replay (es ++ [.acquire w]) = replay es := by
  have hcalls : callsOf (es ++ [.acquire w]) = callsOf es := by
    funext w'
    rw [callsOf_append]
    simp [callsOf]
  have horder : order (es ++ [.acquire w]) = order es ++ [w] := order_append _ _
  rw [replay, horder, hcalls, List.flatMap_append, List.flatMap_singleton, h, List.append_nil, replay]

/-- A call of the last writer comes last. -/
theorem replay_call {w : Writer I D} {op : Op} (hnodup : (order es).Nodup) (hlast : (order es).getLast? = some w) :
    replay (es ++ [.call w op]) = op.apply (replay es) := by
  obtain ⟨pre, hpre⟩ := List.getLast?_eq_some_iff.mp hlast
  have horder : order (es ++ [.call w op]) = order es := by
    rw [order_append]
    exact List.append_nil _
  have hself : callsOf (es ++ [.call w op]) w = callsOf es w ++ [op] := by
    rw [callsOf_append]
    simp [callsOf]
  have hother : ∀ w' ∈ pre, callsOf (es ++ [.call w op]) w' = callsOf es w' := by
    intro w' hw'
    have hne : w ≠ w' := by
      rintro rfl
      rw [hpre, List.nodup_append] at hnodup
      exact hnodup.2.2 w hw' w (by simp) rfl
    rw [callsOf_append]
    simp [callsOf, hne]
  rw [replay, horder, hpre, List.flatMap_append, List.flatMap_singleton, hself, List.flatMap_congr hother,
    ← List.append_assoc, List.foldl_append, replay, hpre, List.flatMap_append, List.flatMap_singleton]
  rfl

/-- The order only depends on the views. -/
theorem Ordered.of_view (h : Ordered s xs es) (hview : s'.view = s.view) : Ordered s' xs es := by
  obtain ⟨hnodup, hbegun, hcalls, hlast, hpending, hsettled⟩ := h
  refine ⟨hnodup, ?_, ?_, ?_, ?_, ?_⟩
  all_goals rwa [hview]

/-- Nobody but the writer that makes the step has a call pending. -/
theorem only_pending {w w' : Writer I D} (hothers : ∀ w', w' ≠ w → s'.view w' = s.view w')
    (hunique : ∀ w', (s.view w').inside = true → w' = w) (hw : w' ≠ w) : (s'.view w').pending = none := by
  rw [hothers w' hw]
  cases hp : (s.view w').pending with
  | none => rfl
  | some op => exact absurd (hunique w' (pending_inside hp)) hw

/-- A writer that stays within its call has begun and is inside as before. -/
theorem begun_inside_eq {w : Writer I D} {op op' : Option Op} (hothers : ∀ w', w' ≠ w → s'.view w' = s.view w')
    (hold : s.view w = .within op) (hnew : s'.view w = .within op') (w' : Writer I D) :
    (s'.view w').begun = (s.view w').begun ∧ (s'.view w').inside = (s.view w').inside := by
  by_cases hw : w' = w
  · rw [hw, hnew, hold]
    exact ⟨rfl, rfl⟩
  · rw [hothers w' hw]
    exact ⟨rfl, rfl⟩

section Steps

variable {w : Writer I D} (h : Ordered s xs es) (hothers : ∀ w', w' ≠ w → s'.view w' = s.view w')

include h hothers

theorem Ordered.acquire (hold : s.view w = .outside) (hnew : s'.view w = .within none)
    (hunique : ∀ w', (s'.view w').inside = true → w' = w) : Ordered s' xs (es ++ [.acquire w]) := by
  have hnone : callsOf es w = [] := h.calls w (by rw [hold]; rfl)
  have hnotin : w ∉ order es := by
    rw [h.begun w, hold]
    decide
  have horder : order (es ++ [.acquire w]) = order es ++ [w] := order_append _ _
  have hcalls : ∀ w', callsOf (es ++ [.acquire w]) w' = callsOf es w' := by
    intro w'
    rw [callsOf_append]
    simp [callsOf]
  refine ⟨?_, fun w' => ?_, fun w' hw' => ?_, fun w' hw' => ?_, fun w' op hw' => ?_, fun hall => ?_⟩
  · rw [horder, List.nodup_append]
    refine ⟨h.nodup, List.nodup_singleton w, fun a ha b hb => ?_⟩
    rw [List.mem_singleton.mp hb]
    rintro rfl
    exact hnotin ha
  · rw [horder, List.mem_append, List.mem_singleton]
    by_cases hw : w' = w
    · rw [hw, hnew]
      simp [View.within]
    · rw [hothers w' hw, h.begun w']
      simp [hw]
  · rw [hcalls]
    by_cases hw : w' = w
    · rw [hw]
      exact hnone
    · exact h.calls w' (by rw [← hothers w' hw]; exact hw')
  · rw [horder, hunique w' hw']
    exact List.getLast?_concat
  · rw [replay_acquire hnone]
    have hw : w' ≠ w := by
      rintro rfl
      rw [hnew] at hw'
      simp [View.within] at hw'
    exact h.pending w' op (by rw [← hothers w' hw]; exact hw')
  · rw [replay_acquire hnone]
    refine h.settled fun w' => ?_
    by_cases hw : w' = w
    · rw [hw, hold]
      rfl
    · rw [← hothers w' hw]
      exact hall w'

theorem Ordered.call {op : Op} (hold : s.view w = .within none) (hnew : s'.view w = .within (some op))
    (hunique : ∀ w', (s.view w').inside = true → w' = w) : Ordered s' xs (es ++ [.call w op]) := by
  have hlast : (order es).getLast? = some w := h.last w (by rw [hold]; rfl)
  have horder : order (es ++ [.call w op]) = order es := by
    rw [order_append]
    exact List.append_nil _
  have hbegun := begun_inside_eq hothers hold hnew
  have hsettled : xs = replay es := by
    refine h.settled fun w' => ?_
    by_cases hw : w' = w
    · rw [hw, hold]
      rfl
    · rw [← hothers w' hw]
      exact only_pending hothers hunique hw
  refine ⟨?_, fun w' => ?_, fun w' hw' => ?_, fun w' hw' => ?_, fun w' op' hw' => ?_, fun hall => ?_⟩
  · rw [horder]
    exact h.nodup
  · rw [horder, (hbegun w').1]
    exact h.begun w'
  · rw [(hbegun w').1] at hw'
    have hne : w ≠ w' := by
      rintro rfl
      rw [hold] at hw'
      simp [View.within] at hw'
    rw [callsOf_append, h.calls w' hw']
    simp [callsOf, hne]
  · rw [horder]
    exact h.last w' (by rw [← (hbegun w').2]; exact hw')
  · by_cases hw : w' = w
    · rw [hw, hnew] at hw'
      obtain rfl : op = op' := Option.some.inj hw'
      rw [replay_call h.nodup hlast, hsettled]
    · rw [only_pending hothers hunique hw] at hw'
      cases hw'
  · have hself := hall w
    rw [hnew] at hself
    simp [View.within] at hself

theorem Ordered.take_effect {op : Op} (hold : s.view w = .within (some op)) (hnew : s'.view w = .within none)
    (hunique : ∀ w', (s.view w').inside = true → w' = w) : Ordered s' (op.apply xs) es := by
  have hbegun := begun_inside_eq hothers hold hnew
  have hdone : op.apply xs = replay es := h.pending w op (by rw [hold]; rfl)
  refine ⟨h.nodup, fun w' => ?_, fun w' hw' => ?_, fun w' hw' => ?_, fun w' op' hw' => ?_, fun _ => hdone⟩
  · rw [(hbegun w').1]
    exact h.begun w'
  · exact h.calls w' (by rw [← (hbegun w').1]; exact hw')
  · exact h.last w' (by rw [← (hbegun w').2]; exact hw')
  · by_cases hw : w' = w
    · rw [hw, hnew] at hw'
      simp [View.within] at hw'
    · rw [only_pending hothers hunique hw] at hw'
      cases hw'

theorem Ordered.leave (hold : s.view w = .within none) (hnew : s'.view w = .done) : Ordered s' xs es := by
  have hview : ∀ w', (s'.view w').begun = (s.view w').begun ∧ (s'.view w').pending = (s.view w').pending ∧
      ((s'.view w').inside = true → (s.view w').inside = true) := by
    intro w'
    by_cases hw : w' = w
    · rw [hw, hnew, hold]
      exact ⟨rfl, rfl, fun _ => rfl⟩
    · rw [hothers w' hw]
      exact ⟨rfl, rfl, id⟩
  refine ⟨h.nodup, fun w' => ?_, fun w' hw' => ?_, fun w' hw' => ?_, fun w' op' hw' => ?_, fun hall => ?_⟩
  · rw [(hview w').1]
    exact h.begun w'
  · exact h.calls w' (by rw [← (hview w').1]; exact hw')
  · exact h.last w' ((hview w').2.2 hw')
  · exact h.pending w' op' (by rw [← (hview w').2.1]; exact hw')
  · exact h.settled fun w' => by rw [← (hview w').2.1]; exact hall w'

end Steps

theorem Ordered.next_ok (h : Ordered s xs es) (hs : Refines R s xs) {a : Move S I D} (hnext : next R s a = some s') :
    Ordered s' (effect s a xs) (es ++ (event s a).toList) := by
  have hs' := (hs.next_ok hnext).refines hs
  obtain ⟨hview, hevent, heffect⟩ | ⟨w, hothers, hturn⟩ := next_turn xs hnext
  · rw [hevent, heffect, Option.toList_none, List.append_nil]
    exact h.of_view hview
  · generalize hold : s.view w = v at hturn
    generalize hnew : s'.view w = v' at hturn
    generalize hevent : event s a = e at hturn
    generalize heffect : effect s a xs = xs' at hturn hs'
    have hfirst : ∀ {p}, v = .within p → ∀ w', (s.view w').inside = true → w' = w := by
      rintro p rfl w' hw'
      exact hs.inside_unique hw' (by rw [hold]; rfl)
    cases hturn with
    | acquire => exact h.acquire hothers hold hnew fun w' hw' => hs'.inside_unique hw' (by rw [hnew]; rfl)
    | call op => exact h.call hothers hold hnew (hfirst rfl)
    | effect op =>
      rw [Option.toList_none, List.append_nil]
      exact h.take_effect hothers hold hnew (hfirst rfl)
    | stay =>
      rw [Option.toList_none, List.append_nil]
      refine h.of_view (funext fun w' => ?_)
      by_cases hw : w' = w
      · rw [hw, hold, hnew]
      · exact hothers w' hw
    | leave =>
      rw [Option.toList_none, List.append_nil]
      exact h.leave hothers hold hnew

theorem ordered_initial (mem : Nat → node) : Ordered (initial R S I D mem) [] [] := by
  have hview : ∀ w, (initial R S I D mem).view w = .outside := by
    intro w
    cases w <;> rfl
  refine ⟨List.nodup_nil, fun w => ?_, fun w _ => rfl, fun w hw => ?_, fun w op hw => ?_, fun _ => rfl⟩
  · rw [hview]
    simp [order, View.outside]
  all_goals
    rw [hview] at hw
    simp [View.outside] at hw

/-- In every run the list is what the calls of the writers make of it in the order in which they
    acquired `write_sem`, up to a call that is running. -/
theorem run_ordered {mem : Nat → node} {as : List (Move S I D)} (h : run (next R) (initial R S I D mem) as = some s) :
    ∃ xs, Refines R s xs ∧ Ordered s xs (trace (next R) event (initial R S I D mem) as) := by
  have hstart : ∃ xs, Refines R (initial R S I D mem) xs ∧ Ordered (initial R S I D mem) xs [] :=
    ⟨[], refines_initial R S I D mem, ordered_initial mem⟩
  refine trace_invariant event (I := fun s es => ∃ xs, Refines R s xs ∧ Ordered s xs es) ?_ hstart h
  rintro s es a s' ⟨xs, hs, hordered⟩ hnext
  exact ⟨effect s a xs, (hs.next_ok hnext).refines hs, hordered.next_ok hs hnext⟩

end cs444.concurrency3.nodes
