import Cs444.SchedRt.CpupriFrame

open interleaving cs444.sched_rt

open Function

namespace cs444.sched_cpupri

variable {n : Nat}

variable {s s' : State n} {cpu : Fin n} {idx : Nat}

section Add

variable {old : Option Nat} {new : Nat}

theorem Inv.add_lock (hi : Inv s) (hph : s.set cpu = .add_lock old new)
    (hfree : (s.cp.pri_to_cpu new).lock = none) :
    Inv (s.goto cpu (.add_mask old new) (s.cp.setVec new { s.cp.pri_to_cpu new with lock := some cpu })) := by
  have hwf := hi.wf cpu
  rw [hph] at hwf
  refine hi.lock_step (hi.lock_taken hfree rfl) (fun idx hidx => ?_) (.of_phase hph rfl rfl rfl) hwf
  simp [hph, SetPhase.locks, Ne.symm hidx]

/-- The CPU is put into the mask of its new vector before it is counted there. -/
theorem Inv.add_mask (hi : Inv s) (hph : s.set cpu = .add_mask old new) :
    Inv (s.goto cpu (.add_count old new) (s.cp.setVec new
      { s.cp.pri_to_cpu new with mask := update (s.cp.pri_to_cpu new).mask cpu true })) := by
  have hwf := hi.wf cpu
  rw [hph] at hwf
  refine hi.vec_step (fun c => ?_) ?_ (hi.lock_same (by rw [hph]; rfl) new) (fun idx hidx => ?_) (fun idx => ?_) hwf
  · by_cases hc : c = cpu
    · subst hc
      simp [SetPhase.marked]
    · simp [hc]
  · simp [State.counted, hph, SetPhase.counted]
  · simp [State.marked, State.counted, hph, SetPhase.marked, SetPhase.counted, SetPhase.locks, Ne.symm hidx]
  · rw [State.shown, hph]
    rfl

theorem Inv.add_count (hi : Inv s) (hph : s.set cpu = .add_count old new) :
    Inv (s.goto cpu (.add_bit old new) (s.cp.setVec new
      { s.cp.pri_to_cpu new with count := (s.cp.pri_to_cpu new).count + 1 })) := by
  have hwf := hi.wf cpu
  rw [hph] at hwf
  refine hi.vec_step (hi.mask_same (fun idx => ?_) new) ?_ (hi.lock_same (by rw [hph]; rfl) new)
    (fun idx hidx => ?_) (fun idx => ?_) hwf
  · rw [State.marked, hph]
    rfl
  · simp [State.counted, hph, SetPhase.counted, hwf.2.1]
  · simp [State.marked, State.counted, hph, SetPhase.marked, SetPhase.counted, SetPhase.locks, Ne.symm hidx]
  · rw [State.shown, hph]
    rfl

/-- With the lock of the new vector dropped the call goes on to the old one, if there is one. -/
theorem Inv.add_unlock (hi : Inv s) (hph : s.set cpu = .add_unlock old new) :
    Inv (s.goto cpu (added old new) (s.cp.setVec new { s.cp.pri_to_cpu new with lock := none })) := by
  have hwf := hi.wf cpu
  rw [hph] at hwf
  have hheld : (s.set cpu).locks = some new := by rw [hph]; rfl
  have hlocks : (added old new).locks = none := by cases old <;> rfl
  refine hi.lock_step (hi.lock_dropped hheld hlocks) (fun idx hidx => ?_)
    ⟨fun idx => ?_, fun idx => ?_, fun idx => ?_⟩ ?_
  · simp [hlocks, hheld, Ne.symm hidx]
  · cases old <;> simp [State.marked, hph, SetPhase.marked, added, Bool.or_comm]
  · cases old <;> simp [State.counted, hph, SetPhase.counted, added, Bool.or_comm]
  · cases old <;> simp [State.shown, hph, SetPhase.shown, added, Bool.or_comm]
  · obtain ⟨hpri, hne, hnew, -⟩ := hwf
    cases old with
    | none => simpa [added, SetPhase.Wf] using hnew
    | some old => exact ⟨hpri, Ne.symm hne, fun idx hidx => Option.some_inj.mp hidx ▸ hnew⟩

/-- The bit of a vector is written or left as it is. -/
theorem write_pri_active (cp : cpupri n) {p : Prop} [Decidable p] (bit : Bool) :
    (if p then { cp with pri_active := update cp.pri_active idx bit } else cp) =
      { cp with pri_active := update cp.pri_active idx (if p then bit else cp.pri_active idx) } := by
  split
  · rfl
  · rw [update_eq_self]

/-- The first part of `cpupri_set` adds the CPU to its new vector. The bit is set unless another CPU is counted
    there, and then it is set already. -/
theorem Inv.add_bit (hi : Inv s) (hph : s.set cpu = .add_bit old new) :
    Inv (s.goto cpu (.add_unlock old new) (if (s.cp.pri_to_cpu new).count = 1 then
      { s.cp with pri_active := update s.cp.pri_active new true } else s.cp)) := by
  have hwf := hi.wf cpu
  rw [hph] at hwf
  have hheld : (s.set cpu).locks = some new := by rw [hph]; rfl
  have hcounted : s.counted cpu new = true := by simp [State.counted, hph, SetPhase.counted]
  rw [write_pri_active]
  apply hi.bit_step
  · refine iff_of_true ?_ (.inl (by simp [SetPhase.shown]))
    split
    · rfl
    · rename_i hcount
      have hmore : interleaving.count (fun c => s.counted c new) ≠ 1 := by
        intro hone
        rw [hi.count, hone] at hcount
        exact hcount rfl
      rw [hi.active_iff cpu, hi.exists_other hheld]
      exact .inr (exists_ne_of_count hcounted hmore)
  · intro idx hidx
    simp [State.shown, hph, SetPhase.shown, Ne.symm hidx]
  · rw [hph]
    rfl
  · exact fun idx => by simp [State.marked, hph, SetPhase.marked]
  · exact fun idx => by simp [State.counted, hph, SetPhase.counted]
  · exact hwf

end Add

section Del

variable {old : Nat} {new : Option Nat}

theorem Inv.del_lock (hi : Inv s) (hph : s.set cpu = .del_lock old new)
    (hfree : (s.cp.pri_to_cpu old).lock = none) :
    Inv (s.goto cpu (.del_count old new) (s.cp.setVec old { s.cp.pri_to_cpu old with lock := some cpu })) := by
  have hwf := hi.wf cpu
  rw [hph] at hwf
  refine hi.lock_step (hi.lock_taken hfree rfl) (fun idx hidx => ?_) (.of_phase hph rfl rfl rfl) hwf
  simp [hph, SetPhase.locks, Ne.symm hidx]

theorem Inv.del_count (hi : Inv s) (hph : s.set cpu = .del_count old new) :
    Inv (s.goto cpu (.del_bit old new) (s.cp.setVec old
      { s.cp.pri_to_cpu old with count := (s.cp.pri_to_cpu old).count - 1 })) := by
  have hwf := hi.wf cpu
  rw [hph] at hwf
  refine hi.vec_step (hi.mask_same (fun idx => ?_) old) ?_ (hi.lock_same (by rw [hph]; rfl) old)
    (fun idx hidx => ?_) (fun idx => ?_) hwf
  · rw [State.marked, hph]
    rfl
  · simp [State.counted, hph, SetPhase.counted, hwf.2.1]
  · simp [State.marked, State.counted, hph, SetPhase.marked, SetPhase.counted, SetPhase.locks, Ne.symm hidx]
  · rw [State.shown, hph]
    rfl

/-- The second part takes it out of its old one. The bit is cleared if nobody else is counted there. -/
theorem Inv.del_bit (hi : Inv s) (hph : s.set cpu = .del_bit old new) :
    Inv (s.goto cpu (.del_mask old new) (if (s.cp.pri_to_cpu old).count = 0 then
      { s.cp with pri_active := update s.cp.pri_active old false } else s.cp)) := by
  have hwf := hi.wf cpu
  rw [hph] at hwf
  have hheld : (s.set cpu).locks = some old := by rw [hph]; rfl
  have hgone : s.counted cpu old = false := by simp [State.counted, hph, SetPhase.counted, hwf.2.1]
  have hshown : s.shown cpu old = true := by simp [State.shown, hph, SetPhase.shown]
  have hcount : (∃ c, c ≠ cpu ∧ s.shown c old = true) ↔ (s.cp.pri_to_cpu old).count ≠ 0 := by
    have hpos : (s.cp.pri_to_cpu old).count ≠ 0 ↔ 0 < interleaving.count fun c => s.counted c old := by
      rw [hi.count]
      omega
    rw [hi.exists_other hheld, hpos, count_pos]
    refine exists_congr fun c => and_iff_right_of_imp fun hc => ?_
    rintro rfl
    rw [hgone] at hc
    exact Bool.noConfusion hc
  rw [write_pri_active]
  apply hi.bit_step
  · have hnot : (SetPhase.del_mask old new).shown (s.cp.cpu_to_pri cpu) old = false := by
      simp [SetPhase.shown, hwf.2.1]
    rw [hnot, hcount]
    split
    · rename_i hzero
      simp [hzero]
    · rename_i hsome
      simp [hsome, (hi.active_iff cpu old).mpr (.inl hshown)]
  · intro idx hidx
    simp [State.shown, hph, SetPhase.shown, Ne.symm hidx]
  · rw [hph]
    rfl
  · exact fun idx => by simp [State.marked, hph, SetPhase.marked]
  · exact fun idx => by simp [State.counted, hph, SetPhase.counted]
  · exact hwf

/-- The CPU leaves the mask of its old vector last, when it is no longer counted there. -/
theorem Inv.del_mask (hi : Inv s) (hph : s.set cpu = .del_mask old new) :
    Inv (s.goto cpu (.del_unlock old new) (s.cp.setVec old
      { s.cp.pri_to_cpu old with mask := update (s.cp.pri_to_cpu old).mask cpu false })) := by
  have hwf := hi.wf cpu
  rw [hph] at hwf
  refine hi.vec_step (fun c => ?_) ?_ (hi.lock_same (by rw [hph]; rfl) old) (fun idx hidx => ?_) (fun idx => ?_) hwf
  · by_cases hc : c = cpu
    · subst hc
      simp [SetPhase.marked, hwf.2.1]
    · simp [hc]
  · simp [State.counted, hph, SetPhase.counted]
  · simp [State.marked, State.counted, hph, SetPhase.marked, SetPhase.counted, SetPhase.locks, Ne.symm hidx]
  · rw [State.shown, hph]
    rfl

theorem Inv.del_unlock (hi : Inv s) (hph : s.set cpu = .del_unlock old new) :
    Inv (s.goto cpu (.store new) (s.cp.setVec old { s.cp.pri_to_cpu old with lock := none })) := by
  have hwf := hi.wf cpu
  rw [hph] at hwf
  refine hi.lock_step (hi.lock_dropped (by rw [hph]; rfl) rfl) (fun idx hidx => ?_) (.of_phase hph rfl rfl rfl) hwf.2.2
  simp [hph, SetPhase.locks, Ne.symm hidx]

/-- The last access of a call records the new priority. The table is already as it says. -/
theorem Inv.store (hi : Inv s) (hph : s.set cpu = .store new) :
    Inv (s.goto cpu .idle { s.cp with cpu_to_pri := update s.cp.cpu_to_pri cpu new }) := by
  have hwf := hi.wf cpu
  rw [hph] at hwf
  refine hi.goto (fun c hc => update_of_ne hc ..) (fun idx c => ?_) (fun idx => ?_)
    (hi.lock_same (by rw [hph]; rfl)) (fun idx => ?_) ?_
  · by_cases hc : c = cpu
    · subst hc
      simp [hi.mask, State.marked, hph, SetPhase.marked]
    · simp [hc]
  · simp [State.counted, hph, SetPhase.counted]
  · rw [hi.active_iff cpu]
    simp [State.shown, hph, SetPhase.shown]
  · simpa [SetPhase.Wf] using hwf

end Del

section Calls

/-- Every access keeps the invariant. -/
theorem Inv.go (hi : Inv s) (h : s.go cpu = some s') : Inv s' := by
  cases hph : s.set cpu with simp only [State.go, hph, reduceCtorEq] at h
  | add_lock old new =>
    split at h
    · cases h
      exact hi.add_lock hph (by assumption)
    · cases h
  | del_lock old new =>
    split at h
    · cases h
      exact hi.del_lock hph (by assumption)
    · cases h
  | add_mask old new =>
    cases h
    exact hi.add_mask hph
  | add_count old new =>
    cases h
    exact hi.add_count hph
  | add_bit old new =>
    cases h
    exact hi.add_bit hph
  | add_unlock old new =>
    cases h
    exact hi.add_unlock hph
  | del_count old new =>
    cases h
    exact hi.del_count hph
  | del_bit old new =>
    cases h
    exact hi.del_bit hph
  | del_mask old new =>
    cases h
    exact hi.del_mask hph
  | del_unlock old new =>
    cases h
    exact hi.del_unlock hph
  | store new =>
    cases h
    exact hi.store hph

/-- The priorities of `cpupri` are in range, so that the `BUG_ON` of `cpupri_set` does not fire. -/
theorem convert_prio_lt {prio : Nat} (h : convert_prio prio = some idx) : idx < CPUPRI_NR_PRIORITIES := by
  unfold convert_prio at h
  split at h
  · cases h
  split at h
  · cases h
    decide
  split at h
  · cases h
    decide
  · cases h
    simp only [CPUPRI_NR_PRIORITIES]
    omega

theorem start_of_some {prio new : Nat} {old : Option Nat} (h : convert_prio prio = some new) :
    start old (convert_prio prio) = if some new = old then .idle else .add_lock old new := by
  have hlt := convert_prio_lt h
  rw [h, start]
  simp only [Option.any_some, decide_eq_true_eq, if_neg (Nat.not_le.mpr hlt)]

theorem Inv.cpupri_set (hi : Inv s) (hidle : s.set cpu = .idle) (prio : Nat) :
    Inv (s.goto cpu (start (s.cp.cpu_to_pri cpu) (convert_prio prio)) s.cp) := by
  have hwf := hi.wf cpu
  rw [hidle] at hwf
  have hrange : (convert_prio prio).any (CPUPRI_NR_PRIORITIES ≤ ·) = false := by
    cases hnew : convert_prio prio with
    | none => rfl
    | some new => simpa using convert_prio_lt hnew
  unfold start
  rw [hrange]
  simp only [Bool.false_eq_true, if_false]
  split
  · exact hi.quiet_step (by rw [hidle]) (.of_phase hidle rfl rfl rfl) hwf
  · rename_i hne
    cases hnew : convert_prio prio with
    | some new =>
      rw [hnew] at hne
      exact hi.quiet_step (by rw [hidle]; rfl) (.of_phase hidle rfl rfl rfl) ⟨rfl, Ne.symm hne, convert_prio_lt hnew, hwf⟩
    | none =>
      cases hold : s.cp.cpu_to_pri cpu with
      | none => exact absurd (hnew.trans hold.symm) hne
      | some old =>
        refine hi.quiet_step (by rw [hidle]; rfl) ⟨fun idx => ?_, fun idx => ?_, fun idx => ?_⟩ ⟨hold, by simp, by simp⟩
        · simp [State.marked, hidle, SetPhase.marked, hold]
        · simp [State.counted, hidle, SetPhase.counted, hold]
        · simp [State.shown, hidle, SetPhase.shown, hold]

theorem Inv.next (hi : Inv s) {m : Move n} (h : next s m = some s') : Inv s' := by
  cases m with
  | go cpu => exact hi.go h
  | cpupri_set cpu prio =>
    rw [sched_cpupri.next] at h
    split at h
    · rename_i hidle
      cases h
      exact hi.cpupri_set hidle prio
    · cases h

end Calls

end cs444.sched_cpupri
