import Cs444.Prob2.Groups
import Mathlib.Data.List.Nodup

open interleaving

open Function

namespace cs444.prob2

variable {E R : Nat} {s s' : State E R}

/-- What a step of an elf leaves alone. -/
structure ElfMove (s s' : State E R) (id : Fin E) : Prop where
  elf : ∀ j, j ≠ id → s'.elf j = s.elf j
  slots : ∀ j, j ≠ id → s'.elves_waiting.slots j = s.elves_waiting.slots j
  line : ∀ j, j ≠ id → s'.elf_line_set j = s.elf_line_set j
  santa : s'.santa = s.santa

variable {id : Fin E} {p p' : Elf}

theorem elf_next_frame (hnext : elf_next s id = some s') : ElfMove s s' id := by
  have hupdate : ∀ {α : Type} (f : Fin E → α) (a : α), ∀ j, j ≠ id → update f id a j = f j :=
    fun f a j hj => update_of_ne hj a f
  rw [elf_next] at hnext
  cases hp : s.elf id with simp only [hp] at hnext
  | counting_wait | mutex_wait | insert_wait | insert_signal | wake | mutex_signal | counter_wait | busy_signal
  | counting_signal | counter_signal =>
    obtain ⟨value, -, rfl⟩ := Option.map_eq_some_iff.mp hnext
    exact ⟨hupdate _ _, fun _ _ => rfl, fun _ _ => rfl, rfl⟩
  | line_wait =>
    obtain ⟨value, -, rfl⟩ := Option.map_eq_some_iff.mp hnext
    exact ⟨hupdate _ _, fun _ _ => rfl, hupdate _ _, rfl⟩
  | insert =>
    cases hnext
    exact ⟨hupdate _ _, hupdate _ _, fun _ _ => rfl, rfl⟩
  | test =>
    split at hnext <;> cases hnext <;>
      exact ⟨hupdate _ _, fun _ _ => rfl, fun _ _ => rfl, rfl⟩
  | decrement =>
    cases hnext
    exact ⟨hupdate _ _, fun _ _ => rfl, fun _ _ => rfl, rfl⟩

/-- The balance is kept when what the elves have and what there is left change together. -/
theorem Balance.exchange (h : Balance s) (hsanta : s'.santa = s.santa)
    (hcard : s'.elves_waiting.cardinality + s.occupied = s.elves_waiting.cardinality + s'.occupied)
    (hmutex : s'.elf_mutex + s'.inMutex = s.elf_mutex + s.inMutex)
    (hlock : s'.elf_counter_lock + s'.inCounter = s.elf_counter_lock + s.inCounter)
    (hbusy : s'.santa_busy_mutex + helping s'.num_elves_being_helped + s'.signalling =
      s.santa_busy_mutex + helping s.num_elves_being_helped + s.signalling)
    (hcounting :
      s'.elf_counting_sem + s'.queueing + s'.occupied + 3 * helping s'.num_elves_being_helped + 3 * s'.finishing =
        s.elf_counting_sem + s.queueing + s.occupied + 3 * helping s.num_elves_being_helped + 3 * s.finishing)
    (hhelped : s'.num_elves_being_helped + s.owing = s.num_elves_being_helped + s'.owing)
    (hle : s'.num_elves_being_helped ≤ s.num_elves_being_helped)
    (hfinishing : 0 < s'.finishing → s'.num_elves_being_helped = 0)
    (hidle : s.santa.idle = true → s'.num_elves_being_helped = 0 ∧ s'.signalling = 0)
    (hready : ∀ k, s.santa.need = some k → s'.occupied = s.occupied) : Balance s' := by
  obtain ⟨hcard₀, hmutex₀, hlock₀, hbusy₀, hcounting₀, hhelped₀, hle₀, -, -, hready₀⟩ := h
  rw [← hsanta] at hmutex₀ hlock₀ hbusy₀ hcounting₀ hhelped₀ hready₀ hidle hready
  refine ⟨?_, ?_, ?_, ?_, ?_, ?_, ?_, hfinishing, hidle, fun k hk => ?_⟩
  · omega
  · omega
  · omega
  · omega
  · omega
  · omega
  · omega
  · rw [hready k hk]
    exact hready₀ k hk

/-- An elf that is not inserting or decrementing moves on. What it puts into a semaphore is
    what it had taken from it. -/
theorem Balance.elf_move (h : Balance s) (hmove : ElfMove s s' id) (hp : s.elf id = p) (hp' : s'.elf id = p')
    (hslot : s'.elves_waiting.slots id = s.elves_waiting.slots id)
    (hcard : s'.elves_waiting.cardinality = s.elves_waiting.cardinality)
    (hn : s'.num_elves_being_helped = s.num_elves_being_helped)
    (hmutex : s'.elf_mutex + p'.inMutex.toNat = s.elf_mutex + p.inMutex.toNat)
    (hlock : s'.elf_counter_lock + p'.inCounter.toNat = s.elf_counter_lock + p.inCounter.toNat)
    (hbusy : s'.santa_busy_mutex + p'.signalling.toNat = s.santa_busy_mutex + p.signalling.toNat)
    (hcounting : s'.elf_counting_sem + p'.queueing.toNat + 3 * p'.finishing.toNat =
      s.elf_counting_sem + p.queueing.toNat + 3 * p.finishing.toNat)
    (howing : p'.owing (s.elves_waiting.slots id) = p.owing (s.elves_waiting.slots id))
    (hfinishing : p'.finishing.toNat ≤ p.finishing.toNat)
    (hsignalling : p'.signalling.toNat ≤ p.signalling.toNat) : Balance s' := by
  have hcounts := counts_change hmove.elf hmove.slots hp hp' rfl hslot
  rw [howing] at hcounts
  have hhelping : helping s'.num_elves_being_helped = helping s.num_elves_being_helped := by rw [hn]
  have hfin₀ := h.finishing
  apply h.exchange hmove.santa
  case hidle =>
    intro hsanta
    have hnone := h.idle hsanta
    omega
  all_goals omega

theorem Local.elf_move (h : Local s) (hmove : ElfMove s s' id)
    (hfits : (s'.elf id).Fits (s'.elves_waiting.slots id) (s'.elf_line_set id)
      (decide (s.santa.pending = some id))) : Local s' := by
  intro j
  by_cases hj : j = id
  · subst hj
    rw [hmove.santa]
    exact hfits
  · rw [hmove.elf j hj, hmove.slots j hj, hmove.line j hj, hmove.santa]
    exact h j

theorem Grouped.elf_move {g : Group E} (h : Grouped s g) (hmove : ElfMove s s' id)
    (howing : (s'.elf id).owing (s'.elves_waiting.slots id) = (s.elf id).owing (s.elves_waiting.slots id))
    (hslot : s.santa.inMutex = 1 → s'.elves_waiting.slots id = s.elves_waiting.slots id) : Grouped s' g := by
  obtain ⟨howes, htaken, hdecremented, hsub, htook, hout⟩ := h
  refine ⟨fun j => ?_, htaken, hdecremented, hsub, ?_, fun hin j hj => ?_⟩
  · by_cases hj : j = id
    · rw [hj, howing]
      exact howes id
    · rw [hmove.elf j hj, hmove.slots j hj]
      exact howes j
  · rw [hmove.santa]
    exact htook
  · rw [hmove.santa] at hin
    by_cases hid : j = id
    · subst hid
      rw [hslot hin]
      exact hout hin j hj
    · rw [hmove.slots j hid]
      exact hout hin j hj

/-- An elf that is neither inserting nor decrementing keeps everything. -/
theorem Inv.elf_move {g : Group E} (h : Inv s g) (hmove : ElfMove s s' id) (hp : s.elf id = p)
    (hp' : s'.elf id = p') (hset : s'.elves_waiting.slots id = s.elves_waiting.slots id)
    (hcard : s'.elves_waiting.cardinality = s.elves_waiting.cardinality)
    (hn : s'.num_elves_being_helped = s.num_elves_being_helped)
    (hsems : s'.elf_mutex + p'.inMutex.toNat = s.elf_mutex + p.inMutex.toNat ∧
      s'.elf_counter_lock + p'.inCounter.toNat = s.elf_counter_lock + p.inCounter.toNat ∧
      s'.santa_busy_mutex + p'.signalling.toNat = s.santa_busy_mutex + p.signalling.toNat ∧
      s'.elf_counting_sem + p'.queueing.toNat + 3 * p'.finishing.toNat =
        s.elf_counting_sem + p.queueing.toNat + 3 * p.finishing.toNat)
    (hfinishing : p'.finishing.toNat ≤ p.finishing.toNat) (hsignalling : p'.signalling.toNat ≤ p.signalling.toNat)
    (hfits : ∀ pending, p.Fits (s.elves_waiting.slots id) (s.elf_line_set id) pending →
      p'.owing (s.elves_waiting.slots id) = p.owing (s.elves_waiting.slots id) ∧
      p'.Fits (s.elves_waiting.slots id) (s'.elf_line_set id) pending) : Inv s' g := by
  have hlocal := h.elves id
  rw [hp] at hlocal
  obtain ⟨howing, hfits⟩ := hfits _ hlocal
  obtain ⟨hmutex, hlock, hbusy, hcounting⟩ := hsems
  refine ⟨?_, ?_, ?_⟩
  · exact h.balance.elf_move hmove hp hp' hset hcard hn hmutex hlock hbusy hcounting howing hfinishing hsignalling
  · apply h.elves.elf_move hmove
    rw [hp', hset]
    exact hfits
  · apply h.grouped.elf_move hmove
    · rw [hp, hp', hset]
      exact howing
    · intro _
      exact hset

theorem Santa.need_cases {santa : Santa E} {k : Nat} (h : santa.need = some k) :
    santa.inMutex = 1 ∨ k = 3 ∧ santa.togo = 3 ∨
      k = 3 ∧ santa.togo = 0 ∧ (santa.idle = true ∨ santa.holdsBusy = 1) := by
  cases santa <;> simp_all

/-- When Santa has counted three elves and not yet begun to take them, no other elf may queue. -/
theorem Balance.no_queueing (h : Balance s) {k : Nat} (hneed : s.santa.need = some k)
    (hmutex : s.santa.inMutex = 0) : s.queueing = 0 := by
  obtain ⟨-, -, -, hbusy, hcounting, hhelped, -, -, hidle, hready⟩ := h
  have hk := hready k hneed
  have hhelping := helping_cases s.num_elves_being_helped
  obtain hin | ⟨rfl, htogo⟩ | ⟨rfl, htogo, hsanta | hsanta⟩ := Santa.need_cases hneed
  · omega
  · omega
  · have hnone := hidle hsanta
    omega
  · omega

theorem Balance.elf_insert (h : Balance s) (hmove : ElfMove s s' id) (hp : s.elf id = .insert)
    (hslot : s.elves_waiting.slots id = false) (hp' : s'.elf id = .insert_signal)
    (hset : s'.elves_waiting = set_insert s.elves_waiting id)
    (hn : s'.num_elves_being_helped = s.num_elves_being_helped)
    (hsems : s'.elf_mutex = s.elf_mutex ∧ s'.elf_counter_lock = s.elf_counter_lock ∧
      s'.santa_busy_mutex = s.santa_busy_mutex ∧ s'.elf_counting_sem = s.elf_counting_sem) : Balance s' := by
  have hslot' : s'.elves_waiting.slots id = true := by
    rw [hset]
    exact update_self ..
  have hcounts := counts_change hmove.elf hmove.slots hp hp' hslot hslot'
  simp only [Elf.inMutex, Elf.inCounter, Elf.signalling, Elf.queueing, Elf.finishing, Elf.owing, Bool.toNat_true,
    Bool.toNat_false] at hcounts
  have hcard : s'.elves_waiting.cardinality = s.elves_waiting.cardinality + 1 := by
    have hfull : s'.occupied ≤ E := tally_le _
    have hcard₀ := h.cardinality
    rw [hset, set_insert]
    exact if_pos (by omega)
  -- The elf holds the mutex, so Santa has not begun to take.
  have hin : 0 < s.inMutex := tally_pos id (by rw [hp]; rfl)
  have hmutex := h.elf_mutex
  have hhelping : helping s'.num_elves_being_helped = helping s.num_elves_being_helped := by rw [hn]
  have hfin₀ := h.finishing
  obtain ⟨hmutex', hlock, hbusy, hcounting⟩ := hsems
  apply h.exchange hmove.santa
  case hidle =>
    intro hsanta
    have hnone := h.idle hsanta
    omega
  case hready =>
    intro k hneed
    have hnone := h.no_queueing hneed (by omega)
    omega
  all_goals omega

theorem Balance.elf_decrement (h : Balance s) (hmove : ElfMove s s' id) (hp : s.elf id = .decrement)
    (hslot : s'.elves_waiting.slots id = s.elves_waiting.slots id)
    (hcard : s'.elves_waiting.cardinality = s.elves_waiting.cardinality)
    (hn : s'.num_elves_being_helped = s.num_elves_being_helped - 1)
    (hp' : s'.elf id = if s.num_elves_being_helped - 1 = 0 then .busy_signal else .counter_signal)
    (hsems : s'.elf_mutex = s.elf_mutex ∧ s'.elf_counter_lock = s.elf_counter_lock ∧
      s'.santa_busy_mutex = s.santa_busy_mutex ∧ s'.elf_counting_sem = s.elf_counting_sem) : Balance s' := by
  have hpos : 0 < s.owing := tally_pos id (by rw [hp]; rfl)
  have hhelping := helping_cases s.num_elves_being_helped
  have hhelping' := helping_cases s'.num_elves_being_helped
  have hhelped₀ := h.helped
  have hfin₀ := h.finishing
  have hbusy₀ : ¬ s.santa.idle = true := by
    intro hsanta
    have hnone := h.idle hsanta
    omega
  obtain ⟨hmutex, hlock, hbusy, hcounting⟩ := hsems
  -- The last of the three goes on to `busy_signal`, the others to `counter_signal`.
  split at hp'
  all_goals
    have hcounts := counts_change hmove.elf hmove.slots hp hp' rfl hslot
    simp only [Elf.inMutex, Elf.inCounter, Elf.signalling, Elf.queueing, Elf.finishing, Elf.owing, Bool.toNat_true,
      Bool.toNat_false] at hcounts
    apply h.exchange hmove.santa
    case hidle => exact fun hsanta => absurd hsanta hbusy₀
    all_goals omega

theorem Grouped.elf_decrement {g : Group E} (h : Grouped s g) (hmove : ElfMove s s' id)
    (hp : s.elf id = .decrement) (hslots : s'.elves_waiting.slots = s.elves_waiting.slots)
    (hpaid : (s'.elf id).owing (s'.elves_waiting.slots id) = false) : Grouped s' (g.record (.decrement id)) := by
  obtain ⟨howes, htaken, hdecremented, hsub, htook, hout⟩ := h
  have hid : id ∈ g.taken ∧ id ∉ g.decremented := (howes id).mp (by rw [hp]; rfl)
  refine ⟨fun j => ?_, htaken, ?_, fun j hj => ?_, ?_, fun hin j hj => ?_⟩
  · by_cases hj : j = id
    · rw [hj, hpaid]
      simp [Group.record]
    · rw [hmove.elf j hj, hmove.slots j hj, howes j]
      simp [Group.record, hj]
  · simpa [Group.record] using (List.nodup_concat g.decremented id).mpr ⟨hid.2, hdecremented⟩
  · obtain hj | hj := List.mem_append.mp hj
    · exact hsub j hj
    · rw [List.mem_singleton.mp hj]
      exact hid.1
  · rw [hmove.santa]
    exact htook
  · rw [hmove.santa] at hin
    rw [hslots]
    exact hout hin j hj

theorem Inv.elf_next {g : Group E} (h : Inv s g) (hnext : elf_next s id = some s') :
    Inv s' ((event s (.elf id)).elim g g.record) := by
  have hmove := elf_next_frame hnext
  have hlocal := h.elves id
  by_cases hdecrement : s.elf id = .decrement
  · rw [event, if_pos hdecrement]
    rw [hdecrement] at hlocal
    simp only [prob2.elf_next, hdecrement] at hnext
    cases hnext
    refine ⟨?_, ?_, ?_⟩
    · exact h.balance.elf_decrement hmove hdecrement rfl rfl rfl (update_self ..) ⟨rfl, rfl, rfl, rfl⟩
    · apply h.elves.elf_move hmove
      dsimp only
      rw [update_self]
      split <;> exact hlocal
    · apply h.grouped.elf_decrement hmove hdecrement rfl
      dsimp only
      rw [update_self]
      split <;> rfl
  rw [event, if_neg hdecrement]
  cases hp : s.elf id with simp only [prob2.elf_next, hp] at hnext
  | decrement => exact absurd hp hdecrement
  | insert =>
    rw [hp] at hlocal
    obtain ⟨hslot, hline, hpending⟩ := hlocal
    have hin : 0 < s.inMutex := tally_pos id (by rw [hp]; rfl)
    have hmutex := h.balance.elf_mutex
    cases hnext
    refine ⟨?_, ?_, ?_⟩
    · exact h.balance.elf_insert hmove hp hslot (update_self ..) rfl rfl ⟨rfl, rfl, rfl, rfl⟩
    · apply h.elves.elf_move hmove
      dsimp only [set_insert]
      rw [update_self, update_self]
      exact ⟨rfl, hline, hpending⟩
    · apply h.grouped.elf_move hmove
      · dsimp only [set_insert]
        rw [update_self, hp]
        rfl
      · omega
  | counting_wait | mutex_wait | counter_wait =>
    obtain ⟨value, hvalue, rfl⟩ := Option.map_eq_some_iff.mp hnext
    apply h.elf_move hmove hp (update_self ..) rfl rfl rfl _ (by decide) (by decide)
    · exact fun _ hfits => ⟨rfl, hfits⟩
    · simp [sem_wait_eq_some.mp hvalue]
  | insert_wait | insert_signal | wake =>
    obtain ⟨value, -, rfl⟩ := Option.map_eq_some_iff.mp hnext
    apply h.elf_move hmove hp (update_self ..) rfl rfl rfl ⟨rfl, rfl, rfl, rfl⟩ (by decide) (by decide)
    exact fun _ hfits => ⟨rfl, hfits⟩
  | test =>
    split at hnext <;> cases hnext
    all_goals
      apply h.elf_move hmove hp (update_self ..) rfl rfl rfl ⟨rfl, rfl, rfl, rfl⟩ (by decide) (by decide)
      exact fun _ hfits => ⟨rfl, hfits⟩
  | mutex_signal =>
    obtain ⟨value, hvalue, rfl⟩ := Option.map_eq_some_iff.mp hnext
    apply h.elf_move hmove hp (update_self ..) rfl rfl rfl _ (by decide) (by decide)
    · rintro pending ⟨hslot, hline, hpending⟩
      rw [hslot]
      exact ⟨rfl, hline, hpending⟩
    · simp [sem_signal_eq_some.mp hvalue]
  | line_wait =>
    obtain ⟨value, hvalue, rfl⟩ := Option.map_eq_some_iff.mp hnext
    obtain ⟨hvalue, -⟩ := sem_wait_eq_some.mp hvalue
    apply h.elf_move hmove hp (update_self ..) rfl rfl rfl ⟨rfl, rfl, rfl, rfl⟩ (by decide) (by decide)
    intro pending hfits
    simp only [Elf.Fits] at hfits
    split at hfits
    · omega
    · rename_i hslot
      cases pending with
      | true => simp at hfits; omega
      | false =>
        simp only [Bool.toNat_false] at hfits
        simp_all [Elf.Fits]
  | busy_signal | counter_signal =>
    obtain ⟨value, hvalue, rfl⟩ := Option.map_eq_some_iff.mp hnext
    apply h.elf_move hmove hp (update_self ..) rfl rfl rfl _ (by decide) (by decide)
    · exact fun _ hfits => ⟨rfl, hfits⟩
    · simp [sem_signal_eq_some.mp hvalue]
  | counting_signal =>
    obtain ⟨value, hvalue, rfl⟩ := Option.map_eq_some_iff.mp hnext
    obtain ⟨-, rfl, -⟩ := (sem_signal_index_eq_some (by decide)).mp hvalue
    apply h.elf_move hmove hp (update_self ..) rfl rfl rfl _ (by decide) (by decide)
    · exact fun _ hfits => ⟨rfl, hfits⟩
    · simp

end cs444.prob2
