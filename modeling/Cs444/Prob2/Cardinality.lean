import Cs444.Lib.Interleaving
import Cs444.Prob2.Set

open interleaving

open Function

namespace cs444.prob2

variable {num_slots : Nat} {t t' : set_t num_slots} {item : Fin num_slots}

section Calls

/-- `CRITICAL` with the lock of a set. -/
def critical {α : Type} (t : set_t num_slots) (context : set_t num_slots → Option (α × set_t num_slots)) :
    Option (α × set_t num_slots) := do
  let write_lock ← sem_wait t.write_lock
  let (r, t) ← context { t with write_lock }
  let write_lock ← sem_signal t.write_lock
  return (r, { t with write_lock })

/-- The loop of `set_take` and what it does with the item found, when `rand` returns these numbers in turn.
    `none`: the loop goes on after the last of them. -/
def set_take_search [NeZero num_slots] (t : set_t num_slots) : List Nat → Option (Fin num_slots × set_t num_slots)
  | [] => none
  | rand :: rands =>
    let item := Fin.ofNat num_slots rand
    match set_take t item with
    | some t' => some (item, t')
    | none => set_take_search t rands

inductive SetCall (num_slots : Nat) where
  | set_insert (item : Fin num_slots)
  | set_take (rands : List Nat)

/-- The set after a call. `none`: the call does not return. -/
def set_next [NeZero num_slots] (t : set_t num_slots) : SetCall num_slots → Option (set_t num_slots)
  | .set_insert item => (critical t fun t => some ((), set_insert t item)).map Prod.snd
  | .set_take rands => (critical t fun t => set_take_search t rands).map Prod.snd

end Calls

section Items

/-- The items in the set. -/
def set_t.items (t : set_t num_slots) : Finset (Fin num_slots) :=
  Finset.univ.filter fun item => t.slots item = true

@[simp]
theorem set_t.mem_items : item ∈ t.items ↔ t.slots item = true := by
  simp [set_t.items]

theorem items_set_alloc : (set_alloc num_slots).items = ∅ := by
  apply Finset.eq_empty_of_forall_notMem
  intro item hitem
  exact Bool.false_ne_true (set_t.mem_items.mp hitem)

theorem items_set_insert : (set_insert t item).items = insert item t.items := by
  ext j
  rw [set_t.mem_items, Finset.mem_insert, set_t.mem_items, set_insert]
  by_cases hj : j = item
  · simp [hj]
  · simp [hj]

theorem set_take_eq_some : set_take t item = some t' ↔ t.slots item = true ∧
    t' = { t with slots := update t.slots item false, cardinality := t.cardinality - 1 } := by
  rw [set_take]
  split
  · rename_i hslot
    rw [Option.some.injEq]
    exact ⟨fun h => ⟨hslot, h.symm⟩, fun h => h.2.symm⟩
  · rename_i hslot
    exact ⟨fun h => absurd h (by simp), fun h => absurd h.1 hslot⟩

theorem mem_of_set_take (h : set_take t item = some t') : item ∈ t.items :=
  set_t.mem_items.mpr (set_take_eq_some.mp h).1

theorem items_set_take (h : set_take t item = some t') : t'.items = t.items.erase item := by
  obtain ⟨hslot, rfl⟩ := set_take_eq_some.mp h
  ext j
  rw [set_t.mem_items, Finset.mem_erase, set_t.mem_items]
  by_cases hj : j = item
  · simp [hj]
  · simp [hj]

theorem card_items_set_take (h : set_take t item = some t') : t'.items.card + 1 = t.items.card := by
  rw [items_set_take h]
  exact Finset.card_erase_add_one (mem_of_set_take h)

theorem card_items_le : t.items.card ≤ num_slots := by
  have hle := Finset.card_le_univ t.items
  rwa [Fintype.card_fin] at hle

theorem card_items_lt_iff : t.items.card < num_slots ↔ t.items ≠ Finset.univ := by
  have hlt := Finset.card_lt_iff_ne_univ t.items
  rwa [Fintype.card_fin] at hlt

theorem set_cardinality_insert : set_cardinality (set_insert t item) =
    if set_cardinality t < num_slots then set_cardinality t + 1 else set_cardinality t := rfl

theorem set_cardinality_take (h : set_take t item = some t') : set_cardinality t' = set_cardinality t - 1 := by
  obtain ⟨-, rfl⟩ := set_take_eq_some.mp h
  rfl

/-- An insert of an item that is present only counts. -/
theorem set_insert_of_mem (hitem : item ∈ t.items) : set_insert t item = t ↔ ¬ set_cardinality t < num_slots := by
  have hslots : update t.slots item true = t.slots := by
    rw [← set_t.mem_items.mp hitem]
    exact update_eq_self item t.slots
  constructor
  · intro heq hlt
    have hcard := congrArg set_cardinality heq
    rw [set_cardinality_insert, if_pos hlt] at hcard
    omega
  · intro hfull
    rw [set_cardinality] at hfull
    rw [set_insert, hslots, if_neg hfull]

end Items

section Steps

variable [NeZero num_slots] {c : SetCall num_slots}

theorem set_take_of_search {rands : List Nat} (h : set_take_search t rands = some (item, t')) :
    set_take t item = some t' := by
  induction rands with
  | nil => simp [set_take_search] at h
  | cons rand rands ih =>
    rw [set_take_search] at h
    split at h
    · rename_i hfound
      cases h
      exact hfound
    · exact ih h

/-- The search of `set_take` can end exactly if there is an item. -/
theorem set_take_search_returns_iff : (∃ rands r, set_take_search t rands = some r) ↔ t.items.Nonempty := by
  constructor
  · rintro ⟨rands, ⟨item, t'⟩, hsearch⟩
    exact ⟨item, mem_of_set_take (set_take_of_search hsearch)⟩
  · rintro ⟨item, hitem⟩
    obtain ⟨t', htake⟩ : ∃ t', set_take t item = some t' :=
      ⟨_, set_take_eq_some.mpr ⟨set_t.mem_items.mp hitem, rfl⟩⟩
    refine ⟨[item.val], (item, t'), ?_⟩
    simp [set_take_search, htake]

theorem set_next_insert (hlock : t.write_lock = 1) : set_next t (.set_insert item) = some (set_insert t item) := by
  simp [set_next, critical, set_insert, hlock]

/-- What a call does when the lock is free: the lock is free again, and it is an insert or took one item. -/
theorem set_next_cases (hlock : t.write_lock = 1) (h : set_next t c = some t') : t'.write_lock = 1 ∧
    ((∃ item, c = .set_insert item ∧ t' = set_insert t item) ∨
      ∃ rands item, c = .set_take rands ∧ set_take t item = some t') := by
  cases c with
  | set_insert item =>
    rw [set_next_insert hlock] at h
    cases h
    exact ⟨hlock, .inl ⟨item, rfl, rfl⟩⟩
  | set_take rands =>
    obtain ⟨r, hcall, rfl⟩ := Option.map_eq_some_iff.mp h
    obtain ⟨write_lock, hwait, hcall⟩ := Option.bind_eq_some_iff.mp hcall
    obtain ⟨⟨item, t₀⟩, hsearch, hr⟩ := Option.bind_eq_some_iff.mp hcall
    obtain ⟨signalled, hsignal, hr⟩ := Option.bind_eq_some_iff.mp hr
    cases hr
    obtain ⟨hslot, rfl⟩ := set_take_eq_some.mp (set_take_of_search hsearch)
    -- the search leaves the lock as it is, and the signal takes back the wait
    obtain ⟨hwait, -⟩ := sem_wait_eq_some.mp hwait
    obtain ⟨hsignal, -⟩ := sem_signal_eq_some.mp hsignal
    have hsame : signalled = t.write_lock := hsignal.trans hwait.symm
    refine ⟨hsame.trans hlock, .inr ⟨rands, item, rfl, set_take_eq_some.mpr ⟨hslot, ?_⟩⟩⟩
    dsimp only
    rw [hsame]

end Steps

section Counter

/-- What holds after any calls: the counter is at least the number of items and at most that of slots. -/
structure Bounded (t : set_t num_slots) : Prop where
  write_lock : t.write_lock = 1
  items_le : t.items.card ≤ set_cardinality t
  le_slots : set_cardinality t ≤ num_slots

/-- `set_cardinality` tells how many items are in the set. -/
def Exact (t : set_t num_slots) : Prop := set_cardinality t = t.items.card

instance (t : set_t num_slots) : Decidable (Exact t) := inferInstanceAs (Decidable (_ = _))

/-- The counter is exact between two calls. -/
structure Counted (t : set_t num_slots) : Prop where
  write_lock : t.write_lock = 1
  exact : Exact t

theorem Counted.alloc : Counted (set_alloc num_slots) := by
  refine ⟨rfl, ?_⟩
  rw [Exact, items_set_alloc, Finset.card_empty]
  rfl

theorem Counted.bounded (h : Counted t) : Bounded t := by
  obtain ⟨hlock, hexact⟩ := h
  have hle := card_items_le (t := t)
  rw [Exact] at hexact
  exact ⟨hlock, by omega, by omega⟩

/-- With an exact counter the guard of `set_insert` lets it count unless the set has all items. -/
theorem Counted.lt_iff (h : Counted t) : set_cardinality t < num_slots ↔ t.items ≠ Finset.univ := by
  rw [h.exact, Int.ofNat_lt]
  exact card_items_lt_iff

variable [NeZero num_slots] {c : SetCall num_slots}

theorem Bounded.next (h : Bounded t) (hnext : set_next t c = some t') : Bounded t' := by
  obtain ⟨hlock, hlow, hhigh⟩ := h
  obtain ⟨hlock', ⟨item, -, rfl⟩ | ⟨rands, item, -, htake⟩⟩ := set_next_cases hlock hnext
  · have hslots := card_items_le (t := set_insert t item)
    have hmore : (set_insert t item).items.card ≤ t.items.card + 1 := by
      rw [items_set_insert]
      exact Finset.card_insert_le item t.items
    refine ⟨hlock', ?_, ?_⟩
    all_goals
      rw [set_cardinality_insert]
      split <;> omega
  · have hcard := card_items_set_take htake
    refine ⟨hlock', ?_, ?_⟩
    all_goals
      rw [set_cardinality_take htake]
      omega

/-- After any calls the counter is not below the number of items, and not above that of slots. -/
theorem set_cardinality_bounds (h : Reachable set_next (set_alloc num_slots) t) : Bounded t := by
  apply h.invariant Counted.alloc.bounded
  intro t c t' ht hnext
  exact ht.next hnext

/-- An insert of an item that is present changes nothing. -/
def SetCall.Idempotent (t : set_t num_slots) (c : SetCall num_slots) : Prop :=
  ∀ item, c = .set_insert item → item ∈ t.items → set_next t c = some t

/-- An insert is of an item that is not in the set, or the set has all items. -/
def SetCall.Fresh (t : set_t num_slots) (c : SetCall num_slots) : Prop :=
  ∀ item, c = .set_insert item → item ∉ t.items ∨ t.items = Finset.univ

theorem Counted.idempotent_iff (h : Counted t) : c.Idempotent t ↔ c.Fresh t := by
  have hsame : ∀ item ∈ t.items, set_next t (.set_insert item) = some t ↔ t.items = Finset.univ := by
    intro item hitem
    rw [set_next_insert h.write_lock, Option.some.injEq, set_insert_of_mem hitem, h.lt_iff, not_ne_iff]
  constructor
  · intro hidem item hc
    by_cases hitem : item ∈ t.items
    · right
      have hnext := hidem item hc hitem
      rw [hc] at hnext
      exact (hsame item hitem).mp hnext
    · exact .inl hitem
  · intro hfresh item hc hitem
    rw [hc]
    apply (hsame item hitem).mpr
    exact (hfresh item hc).resolve_left (fun hnot => hnot hitem)

theorem Counted.next (h : Counted t) (hfresh : c.Fresh t) (hnext : set_next t c = some t') : Counted t' := by
  have hexact := h.exact
  rw [Exact] at hexact
  obtain ⟨hlock, ⟨item, hc, rfl⟩ | ⟨rands, item, -, htake⟩⟩ := set_next_cases h.write_lock hnext
  · refine ⟨hlock, ?_⟩
    by_cases hitem : item ∈ t.items
    · have hall := (hfresh item hc).resolve_left (fun hnot => hnot hitem)
      rw [(set_insert_of_mem hitem).mpr (fun hlt => h.lt_iff.mp hlt hall)]
      exact h.exact
    · have hroom : set_cardinality t < num_slots := by
        apply h.lt_iff.mpr
        intro hall
        rw [hall] at hitem
        exact hitem (Finset.mem_univ item)
      rw [Exact, items_set_insert, Finset.card_insert_of_notMem hitem, set_cardinality_insert, if_pos hroom]
      omega
  · have hcard := card_items_set_take htake
    refine ⟨hlock, ?_⟩
    rw [Exact, set_cardinality_take htake]
    omega

/-- An insert that is not fresh leaves the counter one too high. -/
theorem Counted.not_exact (h : Counted t) (hfresh : ¬ c.Fresh t) (hnext : set_next t c = some t') : ¬ Exact t' := by
  have hexact := h.exact
  rw [Exact] at hexact
  simp only [SetCall.Fresh, not_forall, not_or, not_not] at hfresh
  obtain ⟨item, rfl, hitem, hroom⟩ := hfresh
  rw [set_next_insert h.write_lock] at hnext
  cases hnext
  rw [Exact, items_set_insert, Finset.insert_eq_self.mpr hitem, set_cardinality_insert, if_pos (h.lt_iff.mpr hroom)]
  omega

/-- From `set_alloc` on, `set_cardinality` is the number of items all along exactly if every insert is of an
    item that is not in the set, or made when the set has all items; and exactly then all inserts of items that
    are present change nothing. -/
theorem cardinality_exact_iff (cs : List (SetCall num_slots)) :
    (Visits set_next Exact (set_alloc num_slots) cs ↔
      Along set_next (fun t c => c.Fresh t) (set_alloc num_slots) cs) ∧
    (Along set_next (fun t c => c.Idempotent t) (set_alloc num_slots) cs ↔
      Along set_next (fun t c => c.Fresh t) (set_alloc num_slots) cs) := by
  constructor
  · apply visits_iff_along (I := Counted) (fun t h => h.exact) _ _ Counted.alloc
    · intro t c t' h hfresh hnext
      exact h.next hfresh hnext
    · intro t c t' h hfresh hnext
      exact h.not_exact hfresh hnext
  · apply along_congr (I := Counted) (fun t c h => h.idempotent_iff) _ Counted.alloc
    intro t c t' h hidem hnext
    exact h.next (h.idempotent_iff.mp hidem) hnext

end Counter

section Sample

/-- The item is inserted again when it is the only one of two. -/
def twice : List (SetCall 2) := [.set_insert ⟨0, Nat.two_pos⟩, .set_insert ⟨0, Nat.two_pos⟩]

/-- The two inserts of one item count two, and when it is taken the set is empty, counts one, and no call of
    `set_take` on it returns. -/
theorem twice_counts_two :
    (run set_next (set_alloc 2) twice).map (fun t => (set_cardinality t, t.items)) = some (2, {0}) ∧
    (∃ t, run set_next (set_alloc 2) (twice ++ [.set_take [0]]) = some t ∧ set_cardinality t = 1 ∧ t.items = ∅ ∧
      ∀ rands, set_take_search t rands = none) ∧
    ¬ Visits set_next Exact (set_alloc 2) twice ∧
    ¬ Along set_next (fun t c => c.Idempotent t) (set_alloc 2) twice := by
  have hfirst : Counted (set_insert (set_alloc 2) ⟨0, Nat.two_pos⟩) := ⟨rfl, by decide⟩
  have hstale : ¬ SetCall.Fresh (set_insert (set_alloc 2) ⟨0, Nat.two_pos⟩) (.set_insert ⟨0, Nat.two_pos⟩) := by
    intro hfresh
    exact absurd (hfresh _ rfl) (by decide)
  refine ⟨by decide, ?_, ?_, ?_⟩
  · refine ⟨_, rfl, rfl, by decide, ?_⟩
    intro rands
    by_contra hreturns
    obtain ⟨r, hr⟩ := Option.ne_none_iff_exists'.mp hreturns
    exact absurd (set_take_search_returns_iff.mp ⟨rands, r, hr⟩) (by decide)
  · rintro ⟨-, hvisits⟩
    obtain ⟨-, hvisits⟩ := hvisits _ (set_next_insert rfl)
    exact hfirst.not_exact hstale (set_next_insert hfirst.write_lock) (hvisits _ (set_next_insert hfirst.write_lock))
  · intro halong
    obtain ⟨-, halong⟩ := halong _ (set_next_insert rfl)
    obtain ⟨hidem, -⟩ := halong _ (set_next_insert hfirst.write_lock)
    exact hstale (hfirst.idempotent_iff.mp hidem)

/-- Both items are inserted, one of them again when the set is full, and one is taken. -/
def filled : List (SetCall 2) :=
  [.set_insert ⟨0, Nat.two_pos⟩, .set_insert ⟨1, Nat.one_lt_two⟩, .set_insert ⟨0, Nat.two_pos⟩, .set_take [3]]

theorem cardinality_exact_iff_filled :
    (run set_next (set_alloc 2) filled).map (fun t => (set_cardinality t, t.items)) = some (1, {0}) ∧
    Visits set_next Exact (set_alloc 2) filled ∧
    Along set_next (fun t c => c.Idempotent t) (set_alloc 2) filled := by
  have hfresh : Along set_next (fun t c => c.Fresh t) (set_alloc 2) filled := by
    intro t₁ h₁
    cases h₁
    refine ⟨?_, ?_⟩
    · rintro item ⟨⟩
      exact .inl (by decide)
    intro t₂ h₂
    cases h₂
    refine ⟨?_, ?_⟩
    · rintro item ⟨⟩
      exact .inl (by decide)
    intro t₃ h₃
    cases h₃
    refine ⟨?_, ?_⟩
    · rintro item ⟨⟩
      exact .inr (by decide)
    intro t₄ _
    refine ⟨?_, trivial⟩
    rintro item ⟨⟩
  exact ⟨by decide, (cardinality_exact_iff filled).1.mpr hfresh, (cardinality_exact_iff filled).2.mpr hfresh⟩

end Sample

end cs444.prob2
