import Mathlib.Algebra.BigOperators.Group.Finset.Piecewise
import Mathlib.Data.Fintype.Card

open Function

namespace interleaving

section Runs

variable {σ α : Type}

/-- Make the moves of a schedule one after another. `next` says what a move does in a state,
    or that it cannot be made there. -/
def run (next : σ → α → Option σ) : σ → List α → Option σ
  | s, [] => some s
  | s, a :: as => (next s a).bind fun s' => run next s' as

/-- Some schedule leads from one state to the other. -/
def Reachable (next : σ → α → Option σ) (s₀ s : σ) : Prop :=
  ∃ as, run next s₀ as = some s

variable {next : σ → α → Option σ}

theorem run_invariant {I : σ → Prop} (hstep : ∀ s a s', I s → next s a = some s' → I s') {s₀ s : σ}
    {as : List α} (h₀ : I s₀) (h : run next s₀ as = some s) : I s := by
  induction as generalizing s₀ with
  | nil =>
    cases h
    exact h₀
  | cons a as ih =>
    obtain ⟨s₁, hnext, hrun⟩ := Option.bind_eq_some_iff.mp h
    exact ih (hstep s₀ a s₁ h₀ hnext) hrun

/-- What holds at the start and is kept by every move holds in every reachable state. -/
theorem Reachable.invariant {I : σ → Prop} {s₀ s : σ} (h : Reachable next s₀ s) (h₀ : I s₀)
    (hstep : ∀ s a s', I s → next s a = some s' → I s') : I s := by
  obtain ⟨as, hrun⟩ := h
  exact run_invariant hstep h₀ hrun

theorem run_append (next : σ → α → Option σ) (s : σ) (as bs : List α) :
    run next s (as ++ bs) = (run next s as).bind fun s' => run next s' bs := by
  induction as generalizing s with
  | nil => rfl
  | cons a as ih =>
    rw [List.cons_append, run, run, Option.bind_assoc]
    exact congrArg _ (funext fun s' => ih s')

theorem Reachable.step {s₀ s s' : σ} {a : α} (h : Reachable next s₀ s) (hnext : next s a = some s') :
    Reachable next s₀ s' := by
  obtain ⟨as, hrun⟩ := h
  refine ⟨as ++ [a], ?_⟩
  rw [run_append, hrun]
  simp [run, hnext]

/-- A system whose moves another one follows, or need not follow. -/
theorem Reachable.simulate {τ β : Type} {fine : τ → β → Option τ} {rel : τ → σ → Prop} {s₀ : σ}
    (hstep : ∀ t s b t', Reachable next s₀ s → rel t s → fine t b = some t' →
      rel t' s ∨ ∃ a s', next s a = some s' ∧ rel t' s') {t₀ t : τ} (h₀ : rel t₀ s₀) (h : Reachable fine t₀ t) :
    ∃ s, Reachable next s₀ s ∧ rel t s := by
  refine h.invariant (I := fun t => ∃ s, Reachable next s₀ s ∧ rel t s) ⟨s₀, ⟨[], rfl⟩, h₀⟩ ?_
  rintro t b t' ⟨s, hs, hrel⟩ hnext
  obtain hrel' | ⟨a, s', hmove, hrel'⟩ := hstep t s b t' hs hrel hnext
  · exact ⟨s, hs, hrel'⟩
  · exact ⟨s', hs.step hmove, hrel'⟩

/-- Two systems that agree on the states of an invariant of the one make the same runs. -/
theorem run_congr {next' : σ → α → Option σ} {I : σ → Bool} (heq : ∀ s a, I s = true → next' s a = next s a)
    {s₀ s : σ} {as : List α} (hI : ∀ k, k < as.length → ((run next s₀ (as.take k)).all I) = true)
    (h : run next s₀ as = some s) : run next' s₀ as = some s := by
  induction as generalizing s₀ with
  | nil => exact h
  | cons a as ih =>
    obtain ⟨s₁, hnext, hrun⟩ := Option.bind_eq_some_iff.mp h
    have hs₀ : I s₀ = true := by simpa [run] using hI 0 (by simp)
    rw [run, heq s₀ a hs₀, hnext]
    refine ih (fun k hk => ?_) hrun
    have hnow := hI (k + 1) (by simpa using hk)
    rwa [List.take_succ_cons, run, hnext] at hnow

/-- Every move of a schedule that is made is made in a state where `C` allows it. -/
def Along (next : σ → α → Option σ) (C : σ → α → Prop) : σ → List α → Prop
  | _, [] => True
  | s, a :: as => ∀ s', next s a = some s' → C s a ∧ Along next C s' as

/-- A schedule goes only through states of `P`. -/
def Visits (next : σ → α → Option σ) (P : σ → Prop) : σ → List α → Prop
  | s, [] => P s
  | s, a :: as => P s ∧ ∀ s', next s a = some s' → Visits next P s' as

theorem Visits.head {P : σ → Prop} {s : σ} {as : List α} (h : Visits next P s as) : P s := by
  cases as with
  | nil => exact h
  | cons a as => exact h.1

/-- What holds at the start and allows every move is kept: all moves of any schedule are allowed. -/
theorem along_of_invariant {I : σ → Prop} {C : σ → α → Prop} (hC : ∀ s a, I s → C s a)
    (hstep : ∀ s a s', I s → next s a = some s' → I s') {s : σ} (hs : I s) (as : List α) : Along next C s as := by
  induction as generalizing s with
  | nil => exact trivial
  | cons a as ih => exact fun s' hnext => ⟨hC s a hs, ih (hstep s a s' hs hnext)⟩

/-- In a schedule whose moves are all of `D`: when those that `C` allows keep an invariant that gives
    `P`, and the others leave `P`, the schedule stays in `P` just when `C` allows all its moves. -/
theorem visits_iff_along_of {I P : σ → Prop} {C D : σ → α → Prop} (hP : ∀ s, I s → P s)
    (hkeep : ∀ s a s', I s → D s a → C s a → next s a = some s' → I s')
    (hbreak : ∀ s a s', I s → D s a → ¬ C s a → next s a = some s' → ¬ P s') {s : σ} (hs : I s) {as : List α}
    (hD : Along next D s as) : Visits next P s as ↔ Along next C s as := by
  induction as generalizing s with
  | nil => exact ⟨fun _ => trivial, fun _ => hP s hs⟩
  | cons a as ih =>
    constructor
    · rintro ⟨-, hrest⟩ s' hnext
      obtain ⟨hnow, hlater⟩ := hD s' hnext
      have hC : C s a := by
        by_contra hnot
        exact hbreak s a s' hs hnow hnot hnext (hrest s' hnext).head
      exact ⟨hC, (ih (hkeep s a s' hs hnow hC hnext) hlater).mp (hrest s' hnext)⟩
    · intro halong
      refine ⟨hP s hs, fun s' hnext => ?_⟩
      obtain ⟨hnow, hlater⟩ := hD s' hnext
      obtain ⟨hC, hrest⟩ := halong s' hnext
      exact (ih (hkeep s a s' hs hnow hC hnext) hlater).mpr hrest

/-- When the moves that `C` allows keep an invariant that gives `P`, and the others leave `P`, a
    schedule stays in `P` just when `C` allows all its moves. -/
theorem visits_iff_along {I P : σ → Prop} {C : σ → α → Prop} (hP : ∀ s, I s → P s)
    (hkeep : ∀ s a s', I s → C s a → next s a = some s' → I s')
    (hbreak : ∀ s a s', I s → ¬ C s a → next s a = some s' → ¬ P s') {s : σ} (hs : I s) (as : List α) :
    Visits next P s as ↔ Along next C s as := by
  have hall : Along next (fun _ _ => True) s as :=
    along_of_invariant (I := fun _ => True) (fun _ _ _ => trivial) (fun _ _ _ _ _ => trivial) trivial as
  exact visits_iff_along_of hP (fun s a s' h _ => hkeep s a s' h) (fun s a s' h _ => hbreak s a s' h) hs hall

/-- Two conditions on moves that agree in the states of an invariant, which the moves of `H` keep as long as the
    conditions hold. -/
theorem along_congr_of {I : σ → Prop} {C D H : σ → α → Prop} (hiff : ∀ s a, I s → (C s a ↔ D s a))
    (hkeep : ∀ s a s', I s → H s a → C s a → next s a = some s' → I s') {s : σ} (hs : I s) {as : List α}
    (hH : Along next H s as) : Along next C s as ↔ Along next D s as := by
  induction as generalizing s with
  | nil => exact Iff.rfl
  | cons a as ih =>
    constructor
    · intro h s' hnext
      obtain ⟨hnow, hlater⟩ := hH s' hnext
      obtain ⟨hC, hrest⟩ := h s' hnext
      exact ⟨(hiff s a hs).mp hC, (ih (hkeep s a s' hs hnow hC hnext) hlater).mp hrest⟩
    · intro h s' hnext
      obtain ⟨hnow, hlater⟩ := hH s' hnext
      obtain ⟨hD, hrest⟩ := h s' hnext
      have hC := (hiff s a hs).mpr hD
      exact ⟨hC, (ih (hkeep s a s' hs hnow hC hnext) hlater).mpr hrest⟩

/-- Two conditions on moves that agree as long as they hold. -/
theorem along_congr {I : σ → Prop} {C D : σ → α → Prop} (hiff : ∀ s a, I s → (C s a ↔ D s a))
    (hkeep : ∀ s a s', I s → C s a → next s a = some s' → I s') {s : σ} (hs : I s) (as : List α) :
    Along next C s as ↔ Along next D s as := by
  have hall : Along next (fun _ _ => True) s as :=
    along_of_invariant (I := fun _ => True) (fun _ _ _ => trivial) (fun _ _ _ _ _ => trivial) trivial as
  exact along_congr_of hiff (fun s a s' h _ => hkeep s a s' h) hs hall

/-- An invariant of the allowed moves holds after the first part of an allowed schedule, and the
    rest of the schedule is allowed from there. -/
theorem Along.run_append {I : σ → Prop} {C : σ → α → Prop}
    (hstep : ∀ s a s', I s → C s a → next s a = some s' → I s') {s s' : σ} {as bs : List α}
    (h : Along next C s (as ++ bs)) (hs : I s) (hrun : run next s as = some s') : I s' ∧ Along next C s' bs := by
  induction as generalizing s with
  | nil =>
    cases hrun
    exact ⟨hs, h⟩
  | cons a as ih =>
    obtain ⟨s₁, hnext, hrun⟩ := Option.bind_eq_some_iff.mp hrun
    obtain ⟨hC, hrest⟩ := h s₁ hnext
    exact ih hrest (hstep s a s₁ hs hC hnext) hrun

variable {ε : Type}

/-- What a schedule does, when `event` says what a move does that is to be recorded. -/
def trace (next : σ → α → Option σ) (event : σ → α → Option ε) : σ → List α → List ε
  | _, [] => []
  | s, a :: as => (event s a).toList ++ ((next s a).map fun s' => trace next event s' as).getD []

/-- A relation between the state and what has happened so far, kept by every move. -/
theorem trace_invariant (event : σ → α → Option ε) {I : σ → List ε → Prop}
    (hstep : ∀ s es a s', I s es → next s a = some s' → I s' (es ++ (event s a).toList)) {s₀ s : σ}
    {es : List ε} {as : List α} (h₀ : I s₀ es) (h : run next s₀ as = some s) :
    I s (es ++ trace next event s₀ as) := by
  induction as generalizing s₀ es with
  | nil =>
    cases h
    simpa [trace] using h₀
  | cons a as ih =>
    obtain ⟨s₁, hnext, hrun⟩ := Option.bind_eq_some_iff.mp h
    have hlast := ih (hstep s₀ es a s₁ h₀ hnext) hrun
    simpa [trace, hnext, List.append_assoc] using hlast

theorem trace_append (event : σ → α → Option ε) {s₀ s : σ} {as : List α} (h : run next s₀ as = some s) (bs : List α) :
    trace next event s₀ (as ++ bs) = trace next event s₀ as ++ trace next event s bs := by
  induction as generalizing s₀ with
  | nil =>
    cases h
    rfl
  | cons a as ih =>
    obtain ⟨s₁, hnext, hrun⟩ := Option.bind_eq_some_iff.mp h
    rw [List.cons_append, trace, trace, hnext]
    simp only [Option.map_some, Option.getD_some]
    rw [ih hrun, List.append_assoc]

/-- When there is a move that brings the end nearer as long as it is not reached, it can be reached. -/
theorem exists_run_to_end {I Ended : σ → Prop} (measure : σ → Nat)
    (hmove : ∀ s, I s → ¬ Ended s → ∃ a s', next s a = some s' ∧ I s' ∧ measure s' < measure s) {s : σ} (hs : I s) :
    ∃ as s', run next s as = some s' ∧ Ended s' := by
  induction hn : measure s using Nat.strong_induction_on generalizing s with
  | _ n ih =>
    by_cases hended : Ended s
    · exact ⟨[], s, rfl, hended⟩
    · obtain ⟨a, s₁, hnext, hs₁, hless⟩ := hmove s hs hended
      obtain ⟨as, s', hrun, hend⟩ := ih _ (hn ▸ hless) hs₁ rfl
      refine ⟨a :: as, s', ?_, hend⟩
      rw [run, hnext]
      exact hrun

/-- A state that a schedule passes through is reached by a first part of it. -/
theorem run_of_mem_trace {s₀ s₁ : σ} {as : List α} (h : s₁ ∈ s₀ :: trace next next s₀ as) :
    ∃ k, run next s₀ (as.take k) = some s₁ := by
  induction as generalizing s₀ with
  | nil =>
    obtain rfl : s₁ = s₀ := by simpa [trace] using h
    exact ⟨0, rfl⟩
  | cons a as ih =>
    obtain rfl | h := List.mem_cons.mp h
    · exact ⟨0, rfl⟩
    · cases hnext : next s₀ a with
      | none => simp [trace, hnext] at h
      | some s₂ =>
        have hrest : s₁ ∈ s₂ :: trace next next s₂ as := by simpa [trace, hnext] using h
        obtain ⟨k, hrun⟩ := ih hrest
        refine ⟨k + 1, ?_⟩
        rw [List.take_succ_cons, run, hnext]
        exact hrun

end Runs

section Counting

variable {τ : Type}

/-- Counting threads when one of them moves on. -/
theorem countP_set {ts : List τ} {i : Nat} {t : τ} (h : ts[i]? = some t) (p : τ → Bool) (t' : τ) :
    (ts.set i t').countP p + (p t).toNat = ts.countP p + (p t').toNat := by
  induction ts generalizing i with
  | nil => cases h
  | cons u us ih =>
    cases i with
    | zero =>
      obtain rfl : u = t := by simpa using h
      simp only [List.set_cons_zero, List.countP_cons]
      cases p u <;> cases p t' <;> simp
    | succ i =>
      have hrest := ih (i := i) (by simpa using h)
      simp only [List.set_cons_succ, List.countP_cons]
      omega

variable {ι : Type} [Fintype ι]

/-- For how many it holds. -/
def count (P : ι → Bool) : Nat :=
  (Finset.univ.filter fun i => P i = true).card

theorem count_eq_sum (P : ι → Bool) : count P = ∑ i, (P i).toNat := by
  rw [count, Finset.card_filter]
  refine Finset.sum_congr rfl fun i _ => ?_
  cases P i <;> rfl

omit [Fintype ι] in
/-- A sum when one of its terms changes. -/
theorem sum_change [DecidableEq ι] {t : Finset ι} {f f' : ι → Nat} {i : ι} (hi : i ∈ t)
    (h : ∀ j, j ≠ i → f' j = f j) : ∑ j ∈ t, f' j + f i = ∑ j ∈ t, f j + f' i := by
  rw [← Finset.add_sum_erase _ f' hi, ← Finset.add_sum_erase _ f hi]
  have hrest : ∑ j ∈ t.erase i, f' j = ∑ j ∈ t.erase i, f j :=
    Finset.sum_congr rfl fun j hj => h j (Finset.ne_of_mem_erase hj)
  omega

theorem count_change [DecidableEq ι] {P P' : ι → Bool} {i : ι} (h : ∀ j, j ≠ i → P' j = P j) :
    count P' + (P i).toNat = count P + (P' i).toNat := by
  rw [count_eq_sum, count_eq_sum]
  exact sum_change (Finset.mem_univ i) fun j hj => congrArg Bool.toNat (h j hj)

theorem count_update [DecidableEq ι] (f : ι → τ) (i : ι) (a : τ) (P : τ → Bool) :
    count (fun j => P (update f i a j)) + (P (f i)).toNat = count (fun j => P (f j)) + (P a).toNat := by
  have hchange := count_change (P := fun j => P (f j)) (i := i)
    fun j hj => by rw [← update_of_ne hj a f]
  rwa [update_self] at hchange

theorem sum_update [DecidableEq ι] (f : ι → τ) (i : ι) (a : τ) (g : τ → Nat) :
    ∑ j, g (update f i a j) + g (f i) = ∑ j, g (f j) + g a := by
  have hchange := sum_change (f := fun j => g (f j)) (Finset.mem_univ i)
    fun j hj => by rw [← update_of_ne hj a f]
  rwa [update_self] at hchange

theorem count_le_one {P : ι → Bool} (h : count P ≤ 1) {i j : ι} (hi : P i = true) (hj : P j = true) : i = j :=
  Finset.card_le_one.mp h i (by simpa using hi) j (by simpa using hj)

theorem count_mono {P Q : ι → Bool} (h : ∀ i, P i = true → Q i = true) : count P ≤ count Q :=
  Finset.card_le_card fun i hi => by simpa using h i (by simpa using hi)

theorem count_eq_card {P : ι → Bool} (h : count P = Fintype.card ι) (i : ι) : P i = true := by
  have huniv : (Finset.univ.filter fun i => P i = true) = Finset.univ := (Finset.card_eq_iff_eq_univ _).mp h
  have hmem : i ∈ Finset.univ.filter fun i => P i = true := by
    rw [huniv]
    exact Finset.mem_univ i
  exact (Finset.mem_filter.mp hmem).2

/-- One of several is another one. -/
theorem exists_ne_of_count {P : ι → Bool} {i : ι} (hi : P i = true) (h : count P ≠ 1) : ∃ j, j ≠ i ∧ P j = true := by
  have hmem : i ∈ Finset.univ.filter fun i => P i = true := by simpa using hi
  have hpos : 0 < count P := Finset.card_pos.mpr ⟨i, hmem⟩
  obtain ⟨j, hj, hne⟩ := Finset.exists_mem_ne (s := Finset.univ.filter fun i => P i = true) (by rw [← count]; omega) i
  exact ⟨j, hne, by simpa using hj⟩

theorem count_pos {P : ι → Bool} : 0 < count P ↔ ∃ i, P i = true := by
  simp [count, Finset.card_pos, Finset.Nonempty]

end Counting

end interleaving
