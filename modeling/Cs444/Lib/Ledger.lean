import Mathlib.Data.List.Nodup
import Mathlib.Tactic.Common

/-! Logs of what a program acquires and releases. -/

namespace ledger

inductive Event (α : Type) where
  | acquired (r : α)
  | released (r : α)
deriving DecidableEq, Repr

namespace Event

variable {α : Type}

def resource : Event α → α
  | .acquired r | .released r => r

@[simp] theorem resource_acquired (r : α) : (acquired r).resource = r := rfl

@[simp] theorem resource_released (r : α) : (released r).resource = r := rfl

end Event

variable {α : Type} [DecidableEq α]

/-- What happened to `r`, the earliest first. -/
def history (r : α) (log : List (Event α)) : List (Event α) :=
  log.filter fun e => e.resource = r

/-- Whatever the log mentions was acquired once and then released once. -/
def Settled (log : List (Event α)) : Prop :=
  ∀ e ∈ log, history e.resource log = [.acquired e.resource, .released e.resource]

instance Settled.decidable (log : List (Event α)) : Decidable (Settled log) :=
  inferInstanceAs (Decidable (∀ e ∈ log, _))

section History

variable {r : α} {log log' : List (Event α)}

@[simp] theorem history_nil : history r [] = [] := rfl

theorem history_cons (e : Event α) :
    history r (e :: log) = if e.resource = r then e :: history r log else history r log := by
  simp only [history, List.filter_cons, decide_eq_true_eq]

theorem history_append : history r (log ++ log') = history r log ++ history r log' :=
  List.filter_append ..

/-- A resource that only one block of a log mentions has the history of that block. -/
theorem history_flatMap {ι : Type} {l : List ι} {f : ι → List (Event α)} {i : ι} (hl : l.Nodup) (hi : i ∈ l)
    (hf : ∀ j, j ≠ i → history r (f j) = []) : history r (l.flatMap f) = history r (f i) := by
  induction l with
  | nil => simp at hi
  | cons j l ih =>
    rw [List.flatMap_cons, history_append]
    rw [List.nodup_cons] at hl
    by_cases hij : j = i
    · subst hij
      have hrest : history r (l.flatMap f) = [] := by
        simp only [history, List.filter_flatMap, List.flatMap_eq_nil_iff]
        exact fun j' hj' => hf j' fun h => hl.1 (h ▸ hj')
      rw [hrest, List.append_nil]
    · rw [hf j hij, List.nil_append]
      exact ih hl.2 (by simpa [Ne.symm hij] using hi)

theorem Settled.history_eq (h : Settled log) (hr : history r log ≠ []) :
    history r log = [.acquired r, .released r] := by
  obtain ⟨e, he⟩ := List.exists_mem_of_ne_nil _ hr
  obtain ⟨hmem, rfl⟩ : e ∈ log ∧ e.resource = r := by simpa [history] using he
  exact h e hmem

/-- A resource released twice. -/
theorem not_settled_of_twice (hr : history r log = [.acquired r, .released r, .released r]) : ¬ Settled log := by
  intro h
  have honce := h.history_eq (r := r) (by simp [hr])
  simp [hr] at honce

end History

section Batches

variable {rs rs' : List α} {r : α}

/-- In a batch of one event for each of some resources, each has that event. -/
theorem history_map {event : α → Event α} (hevent : ∀ r, (event r).resource = r) (hrs : rs.Nodup) (hr : r ∈ rs) :
    history r (rs.map event) = [event r] := by
  have h : history r (rs.map event) = (rs.filter (· = r)).map event := by
    simp only [history, List.filter_map, Function.comp_def, hevent]
  rw [h, List.filter_eq, List.count_eq_one_of_mem hrs hr]
  rfl

/-- Release what was acquired, in whatever order. -/
theorem settled_of_perm (hrs : rs.Nodup) (hperm : rs'.Perm rs) :
    Settled (rs.map .acquired ++ rs'.map .released) := by
  intro e he
  have hmem : e.resource ∈ rs := by
    rcases List.mem_append.1 he with h | h
    · obtain ⟨r, hr, rfl⟩ := List.mem_map.1 h
      exact hr
    · obtain ⟨r, hr, rfl⟩ := List.mem_map.1 h
      exact hperm.subset hr
  rw [history_append, history_map (fun _ => rfl) hrs hmem,
    history_map (fun _ => rfl) (hperm.nodup_iff.2 hrs) (hperm.symm.subset hmem)]
  rfl

end Batches

section Balance

omit [DecidableEq α]

/-- What a log acquires, as often as it does. -/
def acquisitions : List (Event α) → List α
  | [] => []
  | .acquired r :: log => r :: acquisitions log
  | .released _ :: log => acquisitions log

def releases : List (Event α) → List α
  | [] => []
  | .acquired _ :: log => releases log
  | .released r :: log => r :: releases log

/-- What was acquired and not released is `held`. -/
def Balanced (log : List (Event α)) (held : List α) : Prop :=
  (acquisitions log).Perm (releases log ++ held)

variable {log : List (Event α)} {held : List α} {r : α}

theorem Balanced.acquire (h : Balanced log held) (r : α) : Balanced (.acquired r :: log) (r :: held) :=
  (List.Perm.cons r h).trans List.perm_middle.symm

theorem Balanced.release [DecidableEq α] (h : Balanced log held) (hr : r ∈ held) :
    Balanced (.released r :: log) (held.erase r) := by
  refine List.Perm.trans h ?_
  exact ((List.perm_cons_erase hr).append_left _).trans List.perm_middle

end Balance

end ledger
