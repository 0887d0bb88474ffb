import Cs444.SchedRt.CpupriVec

open interleaving cs444.sched_rt

open Function

namespace cs444.sched_cpupri

variable {n : Nat}

variable {s : State n} {cpu : Fin n} {idx : Nat} {ph : SetPhase} {cp' : cpupri n}

/-- The invariant after a step of one CPU. The others see what the step does to the table. -/
theorem Inv.goto (hi : Inv s) (hpri : ∀ c, c ≠ cpu → cp'.cpu_to_pri c = s.cp.cpu_to_pri c)
    (hmask : ∀ idx c, (cp'.pri_to_cpu idx).mask c =
      if c = cpu then ph.marked (cp'.cpu_to_pri cpu) idx else (s.cp.pri_to_cpu idx).mask c)
    (hcount : ∀ idx, (cp'.pri_to_cpu idx).count + (s.counted cpu idx).toNat =
      (s.cp.pri_to_cpu idx).count + (ph.counted (cp'.cpu_to_pri cpu) idx).toNat)
    (hlock : ∀ idx c, (cp'.pri_to_cpu idx).lock = some c ↔
      if c = cpu then ph.locks = some idx else (s.set c).locks = some idx)
    (hactive : ∀ idx, cp'.pri_active idx = true ↔
      ph.shown (cp'.cpu_to_pri cpu) idx = true ∨ ∃ c, c ≠ cpu ∧ s.shown c idx = true)
    (hwf : ph.Wf (cp'.cpu_to_pri cpu)) : Inv (s.goto cpu ph cp') := by
  have hself : (s.goto cpu ph cp').set cpu = ph := update_self ..
  have hother : ∀ c, c ≠ cpu → (s.goto cpu ph cp').set c = s.set c := fun c hc => update_of_ne hc ..
  refine ⟨fun idx c => ?_, fun idx => ?_, fun idx c => ?_, fun idx => ?_, fun c => ?_⟩
  · refine (hmask idx c).trans ?_
    by_cases hc : c = cpu
    · subst hc
      rw [if_pos rfl, State.marked, hself]
      rfl
    · rw [if_neg hc, hi.mask, State.marked, State.marked, hother c hc]
      exact congrArg (fun pri => (s.set c).marked pri idx) (hpri c hc).symm
  · have hsame : ∀ c, c ≠ cpu →
        (fun c => (s.goto cpu ph cp').counted c idx) c = (fun c => s.counted c idx) c := by
      intro c hc
      simp only [State.counted, hother c hc]
      exact congrArg (fun pri => (s.set c).counted pri idx) (hpri c hc)
    have hchange := count_change hsame
    have hnow : (s.goto cpu ph cp').counted cpu idx = ph.counted (cp'.cpu_to_pri cpu) idx := by
      rw [State.counted, hself]
      rfl
    have hold := hi.count idx
    have hstep := hcount idx
    have hvec : ((s.goto cpu ph cp').cp.pri_to_cpu idx).count = (cp'.pri_to_cpu idx).count := rfl
    rw [hnow] at hchange
    omega
  · refine (hlock idx c).trans ?_
    by_cases hc : c = cpu
    · subst hc
      rw [if_pos rfl, hself]
    · rw [if_neg hc, hother c hc]
  · refine (hactive idx).trans ?_
    constructor
    · rintro (hshown | ⟨c, hc, hshown⟩)
      · exact ⟨cpu, by rw [State.shown, hself]; exact hshown⟩
      · refine ⟨c, ?_⟩
        rw [State.shown, hother c hc]
        exact (congrArg (fun pri => (s.set c).shown pri idx) (hpri c hc)).trans hshown
    · rintro ⟨c, hshown⟩
      by_cases hc : c = cpu
      · subst hc
        rw [State.shown, hself] at hshown
        exact .inl hshown
      · rw [State.shown, hother c hc] at hshown
        exact .inr ⟨c, hc, (congrArg (fun pri => (s.set c).shown pri idx) (hpri c hc)).symm.trans hshown⟩
  · by_cases hc : c = cpu
    · subst hc
      rw [hself]
      exact hwf
    · rw [hother c hc]
      exact (hpri c hc).symm ▸ hi.wf c

theorem Inv.active_iff (hi : Inv s) (cpu : Fin n) (idx : Nat) : s.cp.pri_active idx = true ↔
    s.shown cpu idx = true ∨ ∃ c, c ≠ cpu ∧ s.shown c idx = true := by
  rw [hi.active]
  constructor
  · rintro ⟨c, hc⟩
    by_cases hcpu : c = cpu
    · exact .inl (hcpu ▸ hc)
    · exact .inr ⟨c, hcpu, hc⟩
  · rintro (hc | ⟨c, -, hc⟩)
    · exact ⟨cpu, hc⟩
    · exact ⟨c, hc⟩

/-- The CPU shows where it showed before. -/
theorem Inv.active_same (hi : Inv s) (hshown : ∀ idx, ph.shown (s.cp.cpu_to_pri cpu) idx = s.shown cpu idx)
    (idx : Nat) : s.cp.pri_active idx = true ↔
      ph.shown (s.cp.cpu_to_pri cpu) idx = true ∨ ∃ c, c ≠ cpu ∧ s.shown c idx = true := by
  rw [hi.active_iff cpu, hshown]

/-- The CPU holds the locks it held before. -/
theorem Inv.lock_same (hi : Inv s) (hlocks : ph.locks = (s.set cpu).locks) (idx : Nat) (c : Fin n) :
    (s.cp.pri_to_cpu idx).lock = some c ↔ if c = cpu then ph.locks = some idx else (s.set c).locks = some idx := by
  rw [hi.lock]
  by_cases hc : c = cpu
  · rw [if_pos hc, hlocks, hc]
  · rw [if_neg hc]

theorem Inv.mask_same (hi : Inv s) (hmarked : ∀ idx, ph.marked (s.cp.cpu_to_pri cpu) idx = s.marked cpu idx)
    (idx : Nat) (c : Fin n) : (s.cp.pri_to_cpu idx).mask c =
      if c = cpu then ph.marked (s.cp.cpu_to_pri cpu) idx else (s.cp.pri_to_cpu idx).mask c := by
  by_cases hc : c = cpu
  · rw [if_pos hc, hmarked, hi.mask, hc]
  · rw [if_neg hc]

/-- The CPU stands towards the vectors as it did before, the locks apart: it is in the same masks, and is
    counted and shows in the same vectors. -/
structure State.Alike (s : State n) (cpu : Fin n) (ph : SetPhase) : Prop where
  marked : ∀ idx, ph.marked (s.cp.cpu_to_pri cpu) idx = s.marked cpu idx
  counted : ∀ idx, ph.counted (s.cp.cpu_to_pri cpu) idx = s.counted cpu idx
  shown : ∀ idx, ph.shown (s.cp.cpu_to_pri cpu) idx = s.shown cpu idx

theorem State.Alike.of_phase {old : SetPhase} (hph : s.set cpu = old)
    (hmarked : ph.marked (s.cp.cpu_to_pri cpu) = old.marked (s.cp.cpu_to_pri cpu))
    (hcounted : ph.counted (s.cp.cpu_to_pri cpu) = old.counted (s.cp.cpu_to_pri cpu))
    (hshown : ph.shown (s.cp.cpu_to_pri cpu) = old.shown (s.cp.cpu_to_pri cpu)) : s.Alike cpu ph := by
  subst hph
  exact ⟨congrFun hmarked, congrFun hcounted, congrFun hshown⟩

/-- Before the first access of a call and after its last the table is as it was. -/
theorem Inv.quiet_step (hi : Inv s) (hlocks : ph.locks = (s.set cpu).locks) (halike : s.Alike cpu ph)
    (hwf : ph.Wf (s.cp.cpu_to_pri cpu)) : Inv (s.goto cpu ph s.cp) :=
  hi.goto (fun _ _ => rfl) (hi.mask_same halike.marked) (fun idx => by rw [halike.counted]) (hi.lock_same hlocks)
    (hi.active_same halike.shown) hwf

/-- A step that works on one vector and leaves the bits alone. -/
theorem Inv.vec_step (hi : Inv s) {vec : cpupri_vec n}
    (hmask : ∀ c, vec.mask c =
      if c = cpu then ph.marked (s.cp.cpu_to_pri cpu) idx else (s.cp.pri_to_cpu idx).mask c)
    (hcount : vec.count + (s.counted cpu idx).toNat =
      (s.cp.pri_to_cpu idx).count + (ph.counted (s.cp.cpu_to_pri cpu) idx).toNat)
    (hlock : ∀ c, vec.lock = some c ↔ if c = cpu then ph.locks = some idx else (s.set c).locks = some idx)
    (hrest : ∀ idx', idx' ≠ idx → ph.marked (s.cp.cpu_to_pri cpu) idx' = s.marked cpu idx' ∧
      ph.counted (s.cp.cpu_to_pri cpu) idx' = s.counted cpu idx' ∧
      (ph.locks = some idx' ↔ (s.set cpu).locks = some idx'))
    (hshown : ∀ idx, ph.shown (s.cp.cpu_to_pri cpu) idx = s.shown cpu idx)
    (hwf : ph.Wf (s.cp.cpu_to_pri cpu)) : Inv (s.goto cpu ph (s.cp.setVec idx vec)) := by
  have hsame : (s.cp.setVec idx vec).pri_to_cpu idx = vec := update_self ..
  have hother : ∀ idx', idx' ≠ idx → (s.cp.setVec idx vec).pri_to_cpu idx' = s.cp.pri_to_cpu idx' :=
    fun idx' hidx => update_of_ne hidx ..
  apply hi.goto
  · exact fun _ _ => rfl
  · intro idx' c
    by_cases hidx : idx' = idx
    · subst hidx
      rw [hsame]
      exact hmask c
    · rw [hother idx' hidx]
      by_cases hc : c = cpu
      · rw [if_pos hc, hi.mask, hc]
        exact (hrest idx' hidx).1.symm
      · rw [if_neg hc]
  · intro idx'
    by_cases hidx : idx' = idx
    · subst hidx
      rw [hsame]
      exact hcount
    · rw [hother idx' hidx, ← (hrest idx' hidx).2.1]
      rfl
  · intro idx' c
    by_cases hidx : idx' = idx
    · subst hidx
      rw [hsame]
      exact hlock c
    · rw [hother idx' hidx, hi.lock]
      by_cases hc : c = cpu
      · rw [if_pos hc, hc, (hrest idx' hidx).2.2]
      · rw [if_neg hc]
  · exact hi.active_same hshown
  · exact hwf

/-- The lock of a vector is taken when nobody has it. -/
theorem Inv.lock_taken (hi : Inv s) (hfree : (s.cp.pri_to_cpu idx).lock = none) (hlocks : ph.locks = some idx)
    (c : Fin n) : some cpu = some c ↔ if c = cpu then ph.locks = some idx else (s.set c).locks = some idx := by
  by_cases hc : c = cpu
  · simp [hc, hlocks]
  · have hnot : (s.set c).locks ≠ some idx := by
      intro hlock
      have hheld := (hi.lock idx c).mpr hlock
      rw [hfree] at hheld
      cases hheld
    simp [hc, hnot, Ne.symm hc]

/-- It is dropped by the one who has it. -/
theorem Inv.lock_dropped (hi : Inv s) (hheld : (s.set cpu).locks = some idx) (hlocks : ph.locks = none) (c : Fin n) :
    (none : Option (Fin n)) = some c ↔ if c = cpu then ph.locks = some idx else (s.set c).locks = some idx := by
  by_cases hc : c = cpu
  · simp [hc, hlocks]
  · have hnot : (s.set c).locks ≠ some idx := fun hlock => hc (hi.locks_unique hheld hlock)
    simp [hc, hnot]

/-- A step that takes or drops the lock of a vector and changes nothing else. -/
theorem Inv.lock_step (hi : Inv s) {lock : Option (Fin n)}
    (hlock : ∀ c, lock = some c ↔ if c = cpu then ph.locks = some idx else (s.set c).locks = some idx)
    (hrest : ∀ idx', idx' ≠ idx → (ph.locks = some idx' ↔ (s.set cpu).locks = some idx'))
    (halike : s.Alike cpu ph) (hwf : ph.Wf (s.cp.cpu_to_pri cpu)) :
    Inv (s.goto cpu ph (s.cp.setVec idx { s.cp.pri_to_cpu idx with lock })) :=
  hi.vec_step (hi.mask_same halike.marked idx) (by rw [halike.counted]) hlock
    (fun idx' hidx => ⟨halike.marked idx', halike.counted idx', hrest idx' hidx⟩) halike.shown hwf

/-- Whoever else is counted in a vector whose lock the CPU holds shows there, and the other way round. -/
theorem Inv.exists_other (hi : Inv s) (hheld : (s.set cpu).locks = some idx) :
    (∃ c, c ≠ cpu ∧ s.shown c idx = true) ↔ ∃ c, c ≠ cpu ∧ s.counted c idx = true := by
  refine exists_congr fun c => and_congr_right fun hc => ?_
  have hnot : (s.set c).locks ≠ some idx := fun hlock => hc (hi.locks_unique hheld hlock)
  rw [State.counted, State.shown, SetPhase.counted_eq_shown hnot]

/-- A step that may change the bit of a vector. -/
theorem Inv.bit_step (hi : Inv s) {bit : Bool}
    (hbit : bit = true ↔ ph.shown (s.cp.cpu_to_pri cpu) idx = true ∨ ∃ c, c ≠ cpu ∧ s.shown c idx = true)
    (hshown : ∀ idx', idx' ≠ idx → ph.shown (s.cp.cpu_to_pri cpu) idx' = s.shown cpu idx')
    (hlocks : ph.locks = (s.set cpu).locks)
    (hmarked : ∀ idx, ph.marked (s.cp.cpu_to_pri cpu) idx = s.marked cpu idx)
    (hcounted : ∀ idx, ph.counted (s.cp.cpu_to_pri cpu) idx = s.counted cpu idx)
    (hwf : ph.Wf (s.cp.cpu_to_pri cpu)) :
    Inv (s.goto cpu ph { s.cp with pri_active := update s.cp.pri_active idx bit }) := by
  apply hi.goto
  · exact fun _ _ => rfl
  · exact hi.mask_same hmarked
  · intro idx'
    rw [← hcounted]
  · exact hi.lock_same hlocks
  · intro idx'
    by_cases hidx : idx' = idx
    · subst hidx
      rw [← hbit]
      simp
    · simp only [update_of_ne hidx]
      rw [hi.active_iff cpu, hshown idx' hidx]
  · exact hwf

end cs444.sched_cpupri
