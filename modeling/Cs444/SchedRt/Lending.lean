import Cs444.Lib.Interleaving
import Cs444.SchedRt.Bandwidth
import Mathlib.Algebra.BigOperators.Ring.Finset
import Mathlib.Algebra.Order.BigOperators.Group.Finset

open interleaving

open Function

namespace cs444.sched_rt

variable {d d' d'' : Domain} {span : List Nat} {rt_b : rt_bandwidth}

section Words

theorem wrap_u64_of_lt {x : Int} (h₀ : 0 ≤ x) (h : x < 2 ^ 63) : (wrap_u64 x : Int) = x := by
  rw [wrap_u64, Int.emod_eq_of_lt h₀ (by omega), Int.toNat_of_nonneg h₀]

theorem wrap_s64_of_lt {x : Int} (h₀ : -2 ^ 63 ≤ x) (h : x < 2 ^ 63) : wrap_s64 x = x := by
  rw [wrap_s64]
  apply Int.bmod_eq_of_le
  · omega
  · omega

theorem ne_runtime_inf {x : Nat} (h : (x : Int) < 2 ^ 63) : x ≠ RUNTIME_INF := by
  rw [RUNTIME_INF]
  omega

end Words

section Shares

/-- The runtime of a run queue that takes part in borrowing. -/
def Domain.share (d : Domain) (i : Nat) : Nat :=
  if (d.rt_rq i).rt_runtime = RUNTIME_INF then 0 else (d.rt_rq i).rt_runtime

/-- One for a run queue that takes part in borrowing. -/
def Domain.enabled (d : Domain) (i : Nat) : Nat :=
  if (d.rt_rq i).rt_runtime = RUNTIME_INF then 0 else 1

theorem share_le {t : Finset Nat} {i : Nat} (hi : i ∈ t) : d.share i ≤ ∑ j ∈ t, d.share j :=
  Finset.single_le_sum (f := d.share) (fun _ _ => Nat.zero_le _) hi

theorem share_add_le {t : Finset Nat} {i j : Nat} (hi : i ∈ t) (hj : j ∈ t) (hij : i ≠ j) :
    d.share i + d.share j ≤ ∑ k ∈ t, d.share k := by
  rw [← Finset.add_sum_erase t d.share hi]
  have hle : d.share j ≤ ∑ k ∈ t.erase i, d.share k := share_le (Finset.mem_erase.mpr ⟨hij.symm, hj⟩)
  omega

/-- Runtime has been moved between run queues that take part in borrowing, and no calculation
    has gone below zero. -/
structure Moved (d d' : Domain) : Prop where
  time : ∀ i, (d'.rt_rq i).rt_time = (d.rt_rq i).rt_time
  inf : ∀ i, (d'.rt_rq i).rt_runtime = RUNTIME_INF ↔ (d.rt_rq i).rt_runtime = RUNTIME_INF
  results : (∀ r ∈ d.results, 0 ≤ r) → ∀ r ∈ d'.results, 0 ≤ r
  bug : d'.bug = d.bug

theorem Moved.refl (d : Domain) : Moved d d := ⟨fun _ => rfl, fun _ => Iff.rfl, fun h => h, rfl⟩

theorem Moved.trans (h : Moved d d') (h' : Moved d' d'') : Moved d d'' where
  time i := (h'.time i).trans (h.time i)
  inf i := (h'.inf i).trans (h.inf i)
  results hr := h'.results (h.results hr)
  bug := h'.bug.trans h.bug

theorem Moved.enabled (h : Moved d d') (i : Nat) : d'.enabled i = d.enabled i := by
  simp only [Domain.enabled, h.inf i]

section SetRuntime

variable {i : Nat} {result : Int}

theorem set_runtime_of_ne {j : Nat} (hj : j ≠ i) : (d.set_runtime i result).rt_rq j = d.rt_rq j :=
  update_of_ne hj _ _

theorem share_of_ne {j : Nat} (hj : j ≠ i) : (d.set_runtime i result).share j = d.share j := by
  rw [Domain.share, Domain.share, set_runtime_of_ne hj]

theorem runtime_set_runtime (h₀ : 0 ≤ result) (h : result < 2 ^ 63) :
    (((d.set_runtime i result).rt_rq i).rt_runtime : Int) = result := by
  rw [Domain.set_runtime]
  simp only [update_self]
  exact wrap_u64_of_lt h₀ h

theorem share_set_runtime (h₀ : 0 ≤ result) (h : result < 2 ^ 63) :
    ((d.set_runtime i result).share i : Int) = result := by
  have hruntime := runtime_set_runtime (d := d) (i := i) h₀ h
  rw [Domain.share, if_neg (ne_runtime_inf (by omega))]
  exact hruntime

theorem moved_set_runtime (hi : (d.rt_rq i).rt_runtime ≠ RUNTIME_INF) (h₀ : 0 ≤ result) (h : result < 2 ^ 63) :
    Moved d (d.set_runtime i result) := by
  refine ⟨fun j => ?_, fun j => ?_, fun hr r hmem => ?_, rfl⟩
  · by_cases hj : j = i
    · rw [hj, Domain.set_runtime]
      simp only [update_self]
    · rw [set_runtime_of_ne hj]
  · by_cases hj : j = i
    · have hruntime := runtime_set_runtime (d := d) (i := i) h₀ h
      rw [hj]
      exact ⟨fun hinf => absurd hinf (ne_runtime_inf (by omega)), fun hinf => absurd hinf hi⟩
    · rw [set_runtime_of_ne hj]
  · obtain hmem | hmem := List.mem_append.mp hmem
    · exact hr r hmem
    · rw [List.mem_singleton.mp hmem]
      exact h₀

theorem sum_set_runtime {t : Finset Nat} (hmem : i ∈ t) (h₀ : 0 ≤ result) (h : result < 2 ^ 63) :
    ((∑ j ∈ t, (d.set_runtime i result).share j : Nat) : Int) + d.share i =
      ((∑ j ∈ t, d.share j : Nat) : Int) + result := by
  have hchange : ∑ j ∈ t, (d.set_runtime i result).share j + d.share i =
      ∑ j ∈ t, d.share j + (d.set_runtime i result).share i := sum_change hmem fun j hj => share_of_ne hj
  have hresult := share_set_runtime (d := d) (i := i) h₀ h
  omega

end SetRuntime

end Shares

section Borrow

variable {t : Finset Nat} {this i : Nat}

theorem share_of_enabled (hi : (d.rt_rq i).rt_runtime ≠ RUNTIME_INF) : d.share i = (d.rt_rq i).rt_runtime :=
  if_neg hi

/-- No more is borrowed than there is to spare, and what the borrower has afterwards is not
    negative, although what it borrows may be. -/
theorem borrowed_spec (rt_period weight rt_runtime : Nat) {diff : Int} (h₀ : 0 < diff)
    (h : rt_runtime + diff < 2 ^ 63) :
    borrowed rt_period weight rt_runtime diff ≤ diff ∧ 0 ≤ rt_runtime + borrowed rt_period weight rt_runtime diff := by
  have hdiff : (wrap_u64 diff : Int) = diff := wrap_u64_of_lt (by omega) (by omega)
  have hle : div_u64 (wrap_u64 diff) weight ≤ wrap_u64 diff := Nat.div_le_self _ _
  have hpart : wrap_s64 (div_u64 (wrap_u64 diff) weight) = div_u64 (wrap_u64 diff) weight :=
    wrap_s64_of_lt (by omega) (by omega)
  have hsum : (wrap_u64 (rt_runtime + (div_u64 (wrap_u64 diff) weight : Nat)) : Int) =
      rt_runtime + (div_u64 (wrap_u64 diff) weight : Nat) := wrap_u64_of_lt (by omega) (by omega)
  rw [borrowed, hpart]
  split
  · rw [wrap_s64_of_lt (by omega) (by omega)]
    omega
  · omega

/-- Runtime has gone from the run queue `i` to another one. -/
structure Lent (t : Finset Nat) (this i : Nat) (diff : Int) (d d' : Domain) : Prop where
  moved : Moved d d'
  total : ∑ j ∈ t, d'.share j = ∑ j ∈ t, d.share j
  gain : ((d'.rt_rq this).rt_runtime : Int) = (d.rt_rq this).rt_runtime + diff
  out : ∀ j, j ≠ i → j ≠ this → d'.rt_rq j = d.rt_rq j
  none : diff = 0 → d'.rt_rq = d.rt_rq

theorem set_runtime_same (h : ((d.rt_rq i).rt_runtime : Int) < 2 ^ 63) :
    (d.set_runtime i (d.rt_rq i).rt_runtime).rt_rq = d.rt_rq := by
  have hruntime : wrap_u64 ((d.rt_rq i).rt_runtime : Int) = (d.rt_rq i).rt_runtime :=
    Int.natCast_inj.mp (wrap_u64_of_lt (by omega) h)
  rw [Domain.set_runtime, hruntime]
  exact update_eq_self i d.rt_rq

theorem lend_spec {diff : Int} (hi : i ∈ t) (hthis : this ∈ t) (hne : i ≠ this)
    (hienabled : (d.rt_rq i).rt_runtime ≠ RUNTIME_INF) (hthisenabled : (d.rt_rq this).rt_runtime ≠ RUNTIME_INF)
    (htotal : ∑ j ∈ t, d.share j < 2 ^ 63) (hle : diff ≤ (d.rt_rq i).rt_runtime)
    (hnonneg : 0 ≤ (d.rt_rq this).rt_runtime + diff) (hd' : d' = d.set_runtime i ((d.rt_rq i).rt_runtime - diff)) :
    Lent t this i diff d (d'.set_runtime this ((d'.rt_rq this).rt_runtime + diff)) := by
  have hboth := share_add_le (d := d) hi hthis hne
  rw [share_of_enabled hienabled, share_of_enabled hthisenabled] at hboth
  have hsame : d'.rt_rq this = d.rt_rq this := by
    rw [hd']
    exact set_runtime_of_ne hne.symm
  have hmoved : Moved d d' := by
    rw [hd']
    exact moved_set_runtime hienabled (by omega) (by omega)
  have hthisenabled' : (d'.rt_rq this).rt_runtime ≠ RUNTIME_INF := by rwa [hsame]
  have hfirst : ((∑ j ∈ t, d'.share j : Nat) : Int) + d.share i =
      ((∑ j ∈ t, d.share j : Nat) : Int) + ((d.rt_rq i).rt_runtime - diff) := by
    rw [hd']
    exact sum_set_runtime hi (by omega) (by omega)
  have hsecond := sum_set_runtime (d := d') (t := t) (i := this) hthis
    (show 0 ≤ ((d'.rt_rq this).rt_runtime : Int) + diff by rw [hsame]; omega) (by rw [hsame]; omega)
  rw [share_of_enabled hienabled] at hfirst
  rw [share_of_enabled hthisenabled'] at hsecond
  rw [hsame] at hsecond ⊢
  refine ⟨hmoved.trans (moved_set_runtime hthisenabled' (by omega) (by omega)), by omega,
    runtime_set_runtime (by omega) (by omega), fun j hj hj' => ?_, fun hzero => ?_⟩
  · rw [set_runtime_of_ne hj', hd', set_runtime_of_ne hj]
  · have hd : d'.rt_rq = d.rt_rq := by
      rw [hd', hzero, Int.sub_zero]
      exact set_runtime_same (by omega)
    have hback := set_runtime_same (d := d') (i := this) (by rw [hsame]; omega)
    rw [hsame] at hback
    rw [hzero, Int.add_zero, hback, hd]

/-- What a turn of the loop of `do_balance_runtime` does: nothing if the run queue has no time to spare,
    or else some runtime is lent, and the loop ends if the borrower has a whole period. -/
theorem balance_loop_cons (rt_period weight : Nat) (more : Bool) (hi : i ∈ t) (hthis : this ∈ t)
    (henabled : (d.rt_rq this).rt_runtime ≠ RUNTIME_INF) (htotal : ∑ j ∈ t, d.share j < 2 ^ 63)
    (htime : (d.rt_rq i).rt_time < 2 ^ 63) (span : List Nat) :
    ((i = this ∨ (d.rt_rq i).rt_runtime = RUNTIME_INF ∨ (d.rt_rq i).rt_runtime ≤ (d.rt_rq i).rt_time) ∧
        balance_loop rt_period weight this d more (i :: span) = balance_loop rt_period weight this d more span) ∨
      i ≠ this ∧ (d.rt_rq i).rt_runtime ≠ RUNTIME_INF ∧ (d.rt_rq i).rt_time < (d.rt_rq i).rt_runtime ∧
        ∃ d', Lent t this i (borrowed rt_period weight (d.rt_rq this).rt_runtime
            ((d.rt_rq i).rt_runtime - (d.rt_rq i).rt_time)) d d' ∧
          balance_loop rt_period weight this d more (i :: span) =
            if (d'.rt_rq this).rt_runtime = rt_period then (d', true)
            else balance_loop rt_period weight this d' true span := by
  rw [balance_loop]
  split
  · rename_i heq
    exact .inl ⟨.inl heq, rfl⟩
  rename_i hne
  split
  · rename_i hinf
    exact .inl ⟨.inr (.inl hinf), rfl⟩
  rename_i hienabled
  dsimp only
  have hboth := share_add_le (d := d) hi hthis hne
  rw [share_of_enabled hienabled, share_of_enabled henabled] at hboth
  have hspare : wrap_s64 ((d.rt_rq i).rt_runtime - (d.rt_rq i).rt_time) =
      (d.rt_rq i).rt_runtime - (d.rt_rq i).rt_time := wrap_s64_of_lt (by omega) (by omega)
  rw [hspare]
  split
  · rename_i hpos
    obtain ⟨hle, hnonneg⟩ := borrowed_spec rt_period weight (d.rt_rq this).rt_runtime hpos (by omega)
    exact .inr ⟨hne, hienabled, by omega, _,
      lend_spec hi hthis hne hienabled henabled htotal (by omega) hnonneg rfl, rfl⟩
  · exact .inl ⟨.inr (.inr (by omega)), rfl⟩

theorem balance_loop_spec (rt_period weight : Nat) (more : Bool) (hsub : ∀ j ∈ span, j ∈ t) (hthis : this ∈ t)
    (henabled : (d.rt_rq this).rt_runtime ≠ RUNTIME_INF) (htotal : ∑ j ∈ t, d.share j < 2 ^ 63)
    (htime : ∀ j ∈ t, (d.rt_rq j).rt_time < 2 ^ 63) :
    Moved d (balance_loop rt_period weight this d more span).1 ∧
      ∑ j ∈ t, (balance_loop rt_period weight this d more span).1.share j = ∑ j ∈ t, d.share j := by
  induction span generalizing d more with
  | nil => exact ⟨Moved.refl d, rfl⟩
  | cons i span ih =>
    have hi : i ∈ t := hsub i List.mem_cons_self
    have hrest : ∀ j ∈ span, j ∈ t := fun j hj => hsub j (List.mem_cons_of_mem i hj)
    obtain ⟨-, hloop⟩ | ⟨-, -, -, d', hlent, hloop⟩ :=
      balance_loop_cons rt_period weight more hi hthis henabled htotal (htime i hi) span
    · rw [hloop]
      exact ih more hrest henabled htotal htime
    · rw [hloop]
      split
      · exact ⟨hlent.moved, hlent.total⟩
      · obtain ⟨hmoved, hsum⟩ := ih true hrest (fun hinf => henabled ((hlent.moved.inf this).mp hinf))
          (by rwa [hlent.total]) fun j hj => by rw [hlent.moved.time j]; exact htime j hj
        exact ⟨hlent.moved.trans hmoved, hsum.trans hlent.total⟩

end Borrow

section Reclaim

variable {t : Finset Nat} {this : Nat}

/-- What is reclaimed is taken from the run queues of the list. If something is still wanted,
    either they have nothing left, or there was something to hand out and nobody to take it. -/
structure Reclaimed (t : Finset Nat) (this : Nat) (span : List Nat) (d : Domain) (want : Int) (r : Domain × Int) :
    Prop where
  moved : Moved d r.1
  total : ((∑ j ∈ t, r.1.share j : Nat) : Int) + want = ((∑ j ∈ t, d.share j : Nat) : Int) + r.2
  out : ∀ j ∉ span, r.1.rt_rq j = d.rt_rq j
  own : r.1.rt_rq this = d.rt_rq this
  left : r.2 = 0 ∨ (0 < r.2 ∧ ∀ j ∈ span, j ≠ this → r.1.share j = 0) ∨
    want < 0 ∧ ∀ j ∈ span, j ≠ this → (d.rt_rq j).rt_runtime = RUNTIME_INF

theorem share_of_inf {i : Nat} (hi : (d.rt_rq i).rt_runtime = RUNTIME_INF) : d.share i = 0 :=
  if_pos hi

theorem Reclaimed.skip {want : Int} {i : Nat} {r : Domain × Int} (h : Reclaimed t this span d want r)
    (hi : i = this ∨ (d.rt_rq i).rt_runtime = RUNTIME_INF) : Reclaimed t this (i :: span) d want r := by
  refine ⟨h.moved, h.total, fun j hj => h.out j fun hmem => hj (List.mem_cons_of_mem i hmem), h.own, ?_⟩
  obtain hzero | ⟨hpos, hnone⟩ | ⟨hneg, hinf⟩ := h.left
  · exact .inl hzero
  · refine .inr (.inl ⟨hpos, fun j hj hne => ?_⟩)
    obtain rfl | hj := List.mem_cons.mp hj
    · obtain rfl | hi := hi
      · exact absurd rfl hne
      · exact share_of_inf ((h.moved.inf j).mpr hi)
    · exact hnone j hj hne
  · refine .inr (.inr ⟨hneg, fun j hj hne => ?_⟩)
    obtain rfl | hj := List.mem_cons.mp hj
    · exact hi.resolve_left hne
    · exact hinf j hj hne

theorem reclaim_loop_spec {want : Int} (hsub : ∀ j ∈ span, j ≠ this → j ∈ t) (hnodup : span.Nodup)
    (hwant : -2 ^ 63 < want ∧ want < 2 ^ 63) (hne : want ≠ 0) (htotal : ((∑ j ∈ t, d.share j : Nat) : Int) < 2 ^ 63)
    (htotal' : ((∑ j ∈ t, d.share j : Nat) : Int) - want < 2 ^ 63) :
    Reclaimed t this span d want (reclaim_loop this d want span) := by
  induction span generalizing d want with
  | nil =>
    refine ⟨Moved.refl d, rfl, fun _ _ => rfl, rfl, ?_⟩
    obtain hneg | hpos := Int.lt_or_gt_of_ne hne
    · exact .inr (.inr ⟨hneg, by simp⟩)
    · exact .inr (.inl ⟨hpos, by simp⟩)
  | cons i span ih =>
    obtain ⟨hi, hnodup⟩ := List.nodup_cons.mp hnodup
    have hrest : ∀ j ∈ span, j ≠ this → j ∈ t := fun j hj => hsub j (List.mem_cons_of_mem i hj)
    rw [reclaim_loop]
    split
    · rename_i hskip
      exact (ih hrest hnodup hwant hne htotal htotal').skip hskip
    · rename_i htake
      obtain ⟨hithis, hienabled⟩ := not_or.mp htake
      have hit : i ∈ t := hsub i List.mem_cons_self hithis
      have hshare := share_le (d := d) hit
      rw [share_of_enabled hienabled] at hshare
      have hcast : wrap_s64 ((d.rt_rq i).rt_runtime : Int) = (d.rt_rq i).rt_runtime :=
        wrap_s64_of_lt (by omega) (by omega)
      dsimp only
      rw [hcast]
      -- What is taken leaves a runtime that is not negative and not too large.
      generalize hdiff : (if want > 0 then min ((d.rt_rq i).rt_runtime : Int) want else want) = diff
      have hdiff' : 0 < want ∧ diff = min ((d.rt_rq i).rt_runtime : Int) want ∨ want < 0 ∧ diff = want := by
        split at hdiff <;> omega
      have hresult : 0 ≤ ((d.rt_rq i).rt_runtime : Int) - diff ∧ ((d.rt_rq i).rt_runtime : Int) - diff < 2 ^ 63 := by
        omega
      have hmoved := moved_set_runtime hienabled hresult.1 hresult.2
      have hsum := sum_set_runtime (d := d) hit hresult.1 hresult.2
      have hthis : (d.set_runtime i ((d.rt_rq i).rt_runtime - diff)).rt_rq this = d.rt_rq this :=
        set_runtime_of_ne (Ne.symm hithis)
      rw [share_of_enabled hienabled] at hsum
      rw [wrap_s64_of_lt (by omega) (by omega)]
      split
      · rename_i hzero
        refine ⟨hmoved, ?_, fun j hj => ?_, hthis, .inl hzero⟩
        · dsimp only
          omega
        · exact set_runtime_of_ne fun hji => hj (hji ▸ List.mem_cons_self)
      · rename_i hmore
        have hrec := ih (d := d.set_runtime i ((d.rt_rq i).rt_runtime - diff)) hrest hnodup (by omega) hmore
          (by omega) (by omega)
        refine ⟨hmoved.trans hrec.moved, ?_, fun j hj => ?_, hrec.own.trans hthis, ?_⟩
        · have htotal := hrec.total
          omega
        · rw [hrec.out j fun hmem => hj (List.mem_cons_of_mem i hmem)]
          exact set_runtime_of_ne fun hji => hj (hji ▸ List.mem_cons_self)
        · obtain hzero | ⟨hpos, hnone⟩ | ⟨hneg, -⟩ := hrec.left
          · exact .inl hzero
          · refine .inr (.inl ⟨hpos, fun j hj hjthis => ?_⟩)
            obtain rfl | hj := List.mem_cons.mp hj
            · have hempty := share_set_runtime (d := d) (i := j) hresult.1 hresult.2
              rw [Domain.share, hrec.out j hi, ← Domain.share]
              omega
            · exact hnone j hj hjthis
          · omega

end Reclaim

section Conservation

variable {t : Finset Nat} {this : Nat}

/-- The run queues that take part in borrowing have the base runtime on average. -/
structure Sound (t : Finset Nat) (rt_b : rt_bandwidth) (d : Domain) : Prop where
  total : ∑ i ∈ t, d.share i = (∑ i ∈ t, d.enabled i) * rt_b.rt_runtime
  time : ∀ i ∈ t, (d.rt_rq i).rt_time < 2 ^ 63
  results : ∀ r ∈ d.results, 0 ≤ r
  bug : d.bug = false

theorem sum_enabled_le (t : Finset Nat) (d : Domain) : ∑ i ∈ t, d.enabled i ≤ t.card := by
  rw [Finset.card_eq_sum_ones]
  refine Finset.sum_le_sum fun i _ => ?_
  rw [Domain.enabled]
  split <;> omega

theorem Sound.lt (h : Sound t rt_b d) (hbound : t.card * rt_b.rt_runtime < 2 ^ 63) :
    ∑ i ∈ t, d.share i < 2 ^ 63 := by
  rw [h.total]
  exact Nat.lt_of_le_of_lt (Nat.mul_le_mul_right _ (sum_enabled_le t d)) hbound

theorem Sound.do_balance_runtime (h : Sound t rt_b d) (hbound : t.card * rt_b.rt_runtime < 2 ^ 63)
    (hsub : ∀ j ∈ span, j ∈ t) (hthis : this ∈ t) (henabled : (d.rt_rq this).rt_runtime ≠ RUNTIME_INF) :
    Sound t rt_b (do_balance_runtime span rt_b d this).1 := by
  obtain ⟨hmoved, hsum⟩ := balance_loop_spec rt_b.rt_period span.length false hsub hthis henabled (h.lt hbound)
    h.time
  refine ⟨?_, fun i hi => ?_, hmoved.results h.results, hmoved.bug.trans h.bug⟩
  · rw [sched_rt.do_balance_runtime, hsum, h.total]
    exact congrArg (· * rt_b.rt_runtime) (Finset.sum_congr rfl fun i _ => (hmoved.enabled i).symm)
  · rw [sched_rt.do_balance_runtime, hmoved.time i]
    exact h.time i hi

theorem disable_of_ne {i : Nat} (hi : i ≠ this) : (d.disable this).rt_rq i = d.rt_rq i :=
  update_of_ne hi _ _

theorem disable_inf : ((d.disable this).rt_rq this).rt_runtime = RUNTIME_INF := by
  rw [Domain.disable]
  simp only [update_self]

theorem sum_disable (hthis : this ∈ t) :
    ∑ i ∈ t, (d.disable this).share i = ∑ i ∈ t.erase this, d.share i ∧
      ∑ i ∈ t, (d.disable this).enabled i = ∑ i ∈ t.erase this, d.enabled i := by
  refine ⟨?_, ?_⟩
  · rw [← Finset.add_sum_erase _ _ hthis, share_of_inf disable_inf, Nat.zero_add]
    refine Finset.sum_congr rfl fun i hi => ?_
    rw [Domain.share, Domain.share, disable_of_ne (Finset.ne_of_mem_erase hi)]
  · rw [← Finset.add_sum_erase _ _ hthis, Domain.enabled, if_pos disable_inf, Nat.zero_add]
    refine Finset.sum_congr rfl fun i hi => ?_
    rw [Domain.enabled, Domain.enabled, disable_of_ne (Finset.ne_of_mem_erase hi)]

theorem time_disable (d : Domain) (this i : Nat) : ((d.disable this).rt_rq i).rt_time = (d.rt_rq i).rt_time := by
  by_cases hi : i = this
  · rw [hi, Domain.disable]
    simp only [update_self]
  · rw [disable_of_ne hi]

/-- The others have what is wanted, so that nothing is left wanting. -/
theorem Reclaimed.want_eq_zero {base : Nat} {r : Domain × Int}
    (h : Reclaimed (t.erase this) this span d (base - (d.rt_rq this).rt_runtime) r)
    (hspan : ∀ j ∈ t, j ∈ span)
    (htotal : (∑ i ∈ t.erase this, d.share i) + (d.rt_rq this).rt_runtime =
      (∑ i ∈ t.erase this, d.enabled i) * base + base) : r.2 = 0 := by
  have hsum := h.total
  obtain hzero | ⟨hpos, hnone⟩ | ⟨hneg, hinf⟩ := h.left
  · exact hzero
  · exfalso
    have hempty : ∑ i ∈ t.erase this, r.1.share i = 0 := by
      refine Finset.sum_eq_zero fun i hi => ?_
      obtain ⟨hi, hmem⟩ := Finset.mem_erase.mp hi
      exact hnone i (hspan i hmem) hi
    have hnonneg := Nat.zero_le ((∑ i ∈ t.erase this, d.enabled i) * base)
    omega
  · exfalso
    have hoff : ∀ i ∈ t.erase this, (d.rt_rq i).rt_runtime = RUNTIME_INF := by
      intro i hi
      obtain ⟨hi, hmem⟩ := Finset.mem_erase.mp hi
      exact hinf i (hspan i hmem) hi
    have hshares : ∑ i ∈ t.erase this, d.share i = 0 := Finset.sum_eq_zero fun i hi => share_of_inf (hoff i hi)
    have henabled : ∑ i ∈ t.erase this, d.enabled i = 0 := Finset.sum_eq_zero fun i hi => if_pos (hoff i hi)
    rw [hshares, henabled] at htotal
    omega

theorem Sound.disable_runtime (h : Sound t rt_b d) (hbound : t.card * rt_b.rt_runtime < 2 ^ 63)
    (hnodup : span.Nodup) (hspan : ∀ j, j ∈ span ↔ j ∈ t) (hthis : this ∈ t) :
    Sound t rt_b (__disable_runtime span rt_b d this) := by
  obtain ⟨hshares, henabled⟩ := sum_disable (d := d) hthis
  have htotal := h.total
  rw [← Finset.add_sum_erase _ _ hthis, ← Finset.add_sum_erase _ _ hthis] at htotal
  rw [__disable_runtime]
  split
  · rename_i hbalanced
    refine ⟨?_, fun i hi => ?_, h.results, h.bug⟩
    · rw [hshares, henabled]
      by_cases hinf : (d.rt_rq this).rt_runtime = RUNTIME_INF
      · rwa [share_of_inf hinf, Domain.enabled, if_pos hinf, Nat.zero_add, Nat.zero_add] at htotal
      · rw [share_of_enabled hinf, Domain.enabled, if_neg hinf, Nat.add_mul, Nat.one_mul,
          hbalanced.resolve_left hinf] at htotal
        omega
    · rw [time_disable]
      exact h.time i hi
  · rename_i hunbalanced
    obtain ⟨hinf, hne⟩ := not_or.mp hunbalanced
    rw [share_of_enabled hinf, Domain.enabled, if_neg hinf, Nat.add_mul, Nat.one_mul] at htotal
    have hlt := h.lt hbound
    have hbase : rt_b.rt_runtime < 2 ^ 63 :=
      Nat.lt_of_le_of_lt (Nat.le_mul_of_pos_left _ (Finset.card_pos.mpr ⟨this, hthis⟩)) hbound
    rw [← Finset.add_sum_erase _ _ hthis, share_of_enabled hinf] at hlt
    rw [wrap_s64_of_lt (by omega) (by omega)]
    have hreclaimed : Reclaimed (t.erase this) this span d (rt_b.rt_runtime - (d.rt_rq this).rt_runtime)
        (reclaim_loop this d (rt_b.rt_runtime - (d.rt_rq this).rt_runtime) span) :=
      reclaim_loop_spec (fun j hj hj' => Finset.mem_erase.mpr ⟨hj', (hspan j).mp hj⟩) hnodup (by omega) (by omega)
        (by omega) (by omega)
    have hzero := hreclaimed.want_eq_zero (fun j hj => (hspan j).mpr hj) (by omega)
    obtain ⟨hmoved, hsum, -, -, -⟩ := hreclaimed
    dsimp only
    generalize reclaim_loop this d (rt_b.rt_runtime - (d.rt_rq this).rt_runtime) span = r at hmoved hsum hzero ⊢
    obtain ⟨hshares, henabled⟩ := sum_disable (d := r.1) hthis
    have hsame : ∑ i ∈ t.erase this, r.1.enabled i = ∑ i ∈ t.erase this, d.enabled i :=
      Finset.sum_congr rfl fun i _ => hmoved.enabled i
    refine ⟨?_, fun i hi => ?_, hmoved.results h.results, ?_⟩
    · rw [hzero] at hsum
      have hleft : ∑ i ∈ t, (r.1.disable this).share i =
          (∑ i ∈ t, (r.1.disable this).enabled i) * rt_b.rt_runtime := by
        rw [hshares, henabled, hsame]
        omega
      exact hleft
    · have htime := time_disable r.1 this i
      rw [hmoved.time i] at htime
      have hlt := h.time i hi
      rw [← htime] at hlt
      exact hlt
    · simp [hzero, hmoved.bug, h.bug]

theorem Sound.enable_runtime (h : Sound t rt_b d) (hbound : t.card * rt_b.rt_runtime < 2 ^ 63) (hthis : this ∈ t)
    (hinf : (d.rt_rq this).rt_runtime = RUNTIME_INF) : Sound t rt_b (__enable_runtime rt_b d this) := by
  have hbase : rt_b.rt_runtime < 2 ^ 63 :=
    Nat.lt_of_le_of_lt (Nat.le_mul_of_pos_left _ (Finset.card_pos.mpr ⟨this, hthis⟩)) hbound
  have hothers : ∀ i, i ≠ this → (__enable_runtime rt_b d this).rt_rq i = d.rt_rq i :=
    fun i hi => update_of_ne hi _ _
  have hruntime : ((__enable_runtime rt_b d this).rt_rq this).rt_runtime = rt_b.rt_runtime := by
    rw [__enable_runtime]
    simp only [update_self]
  have hon : ((__enable_runtime rt_b d this).rt_rq this).rt_runtime ≠ RUNTIME_INF := by
    rw [hruntime]
    exact ne_runtime_inf (by omega)
  have hshares : ∑ i ∈ t, (__enable_runtime rt_b d this).share i + d.share this =
      ∑ i ∈ t, d.share i + (__enable_runtime rt_b d this).share this :=
    sum_change hthis fun i hi => by rw [Domain.share, Domain.share, hothers i hi]
  have henabled : ∑ i ∈ t, (__enable_runtime rt_b d this).enabled i + d.enabled this =
      ∑ i ∈ t, d.enabled i + (__enable_runtime rt_b d this).enabled this :=
    sum_change hthis fun i hi => by rw [Domain.enabled, Domain.enabled, hothers i hi]
  rw [share_of_inf hinf, share_of_enabled hon, hruntime, Nat.add_zero] at hshares
  rw [Domain.enabled, if_pos hinf, Domain.enabled, if_neg hon, Nat.add_zero] at henabled
  refine ⟨?_, fun i hi => ?_, h.results, h.bug⟩
  · rw [hshares, henabled, h.total, Nat.add_mul, Nat.one_mul]
  · by_cases hi' : i = this
    · rw [hi', __enable_runtime]
      simp only [update_self]
      omega
    · rw [hothers i hi']
      exact h.time i hi

theorem Sound.set_time (h : Sound t rt_b d) {i rt_time : Nat} (htime : rt_time < 2 ^ 63) :
    Sound t rt_b { d with rt_rq := update d.rt_rq i { d.rt_rq i with rt_time } } := by
  have hruntime : ∀ j, (update d.rt_rq i { d.rt_rq i with rt_time } j).rt_runtime =
      (d.rt_rq j).rt_runtime := by
    intro j
    by_cases hj : j = i
    · rw [hj, update_self]
    · rw [update_of_ne hj]
  refine ⟨?_, fun j hj => ?_, h.results, h.bug⟩
  · simpa only [Domain.share, Domain.enabled, hruntime] using h.total
  · by_cases hji : j = i
    · simp only [hji, update_self]
      exact htime
    · simp only [update_of_ne hji]
      exact h.time j hj

theorem Sound.transfer (h : Sound span.toFinset rt_b d) (hnodup : span.Nodup)
    (hbound : span.length * rt_b.rt_runtime < 2 ^ 63) {a : Transfer} (hnext : transfer span rt_b d a = some d') :
    Sound span.toFinset rt_b d' := by
  have hcard : span.toFinset.card * rt_b.rt_runtime < 2 ^ 63 := by rwa [List.toFinset_card_of_nodup hnodup]
  cases a with simp only [sched_rt.transfer] at hnext
  | do_balance_runtime i =>
    split at hnext
    · rename_i hvalid
      obtain ⟨hi, hexceeded⟩ := hvalid
      have hmem : i ∈ span.toFinset := List.mem_toFinset.mpr hi
      have htime := h.time i hmem
      cases hnext
      exact h.do_balance_runtime hcard (fun j hj => List.mem_toFinset.mpr hj) hmem (ne_runtime_inf (by omega))
    · cases hnext
  | disable_runtime i =>
    split at hnext
    · rename_i hi
      cases hnext
      exact h.disable_runtime hcard hnodup (fun j => List.mem_toFinset.symm) (List.mem_toFinset.mpr hi)
    · cases hnext
  | enable_runtime i =>
    split at hnext
    · rename_i hvalid
      cases hnext
      exact h.enable_runtime hcard (List.mem_toFinset.mpr hvalid.1) hvalid.2
    · cases hnext
  | set_time i rt_time =>
    split at hnext
    · rename_i htime
      cases hnext
      exact h.set_time htime
    · cases hnext

/-- No calculation went below zero, the run queues that take part in borrowing have the base
    runtime on average, and no `BUG_ON` was reached. -/
structure Conserved (span : List Nat) (rt_b : rt_bandwidth) (d : Domain) : Prop where
  results : ∀ r ∈ d.results, 0 ≤ r
  total : ∑ i ∈ span.toFinset with (d.rt_rq i).rt_runtime ≠ RUNTIME_INF, (d.rt_rq i).rt_runtime =
    (span.toFinset.filter fun i => (d.rt_rq i).rt_runtime ≠ RUNTIME_INF).card * rt_b.rt_runtime
  bug : d.bug = false

theorem Sound.conserved (h : Sound span.toFinset rt_b d) : Conserved span rt_b d := by
  refine ⟨h.results, ?_, h.bug⟩
  rw [Finset.sum_filter, Finset.card_filter]
  simpa only [Domain.share, Domain.enabled, ite_not] using h.total

theorem Sound.start {d₀ : Domain}
    (hstart : ∀ i ∈ span, (d₀.rt_rq i).rt_runtime = rt_b.rt_runtime ∧ (d₀.rt_rq i).rt_time < 2 ^ 63)
    (hnone : d₀.results = [] ∧ d₀.bug = false) : Sound span.toFinset rt_b d₀ := by
  have hshare : ∀ i ∈ span.toFinset, d₀.share i = d₀.enabled i * rt_b.rt_runtime := by
    intro i hi
    rw [Domain.share, Domain.enabled, (hstart i (List.mem_toFinset.mp hi)).1]
    split <;> simp
  refine ⟨?_, fun i hi => (hstart i (List.mem_toFinset.mp hi)).2, by simp [hnone.1], hnone.2⟩
  rw [Finset.sum_mul]
  exact Finset.sum_congr rfl hshare

/-- Every run of a root domain that starts with the base runtime everywhere. -/
theorem runtime_conserved {d₀ : Domain} (hnodup : span.Nodup) (hbound : span.length * rt_b.rt_runtime < 2 ^ 63)
    (hstart : ∀ i ∈ span, (d₀.rt_rq i).rt_runtime = rt_b.rt_runtime ∧ (d₀.rt_rq i).rt_time < 2 ^ 63)
    (hnone : d₀.results = [] ∧ d₀.bug = false) (h : Reachable (transfer span rt_b) d₀ d) : Conserved span rt_b d :=
  (h.invariant (Sound.start hstart hnone) fun _ _ _ hs hnext => hs.transfer hnodup hbound hnext).conserved

/-- The first CPU borrows from the second up to its period. The second is disabled, takes back what
    it has lent, is enabled again, and lends to the third. -/
def borrowAndReclaim : List Transfer :=
  [.set_time 0 970, .do_balance_runtime 0, .disable_runtime 1, .enable_runtime 1, .set_time 2 980, .do_balance_runtime 2]

theorem runtime_conserved_borrowAndReclaim :
    ∃ d, interleaving.run (transfer [0, 1, 2] ⟨1000, 950⟩) ⟨fun _ => init_rt_rq 950, [], false⟩ borrowAndReclaim = some d ∧
      (d.rt_rq 2).rt_runtime = 1000 ∧ Conserved [0, 1, 2] ⟨1000, 950⟩ d := by
  have hlast : (interleaving.run (transfer [0, 1, 2] ⟨1000, 950⟩) ⟨fun _ => init_rt_rq 950, [], false⟩ borrowAndReclaim).map
      (fun d => (d.rt_rq 2).rt_runtime) = some 1000 := by decide +kernel
  obtain ⟨d, hrun, hruntime⟩ := Option.map_eq_some_iff.mp hlast
  exact ⟨d, hrun, hruntime, runtime_conserved (by decide) (by decide) (fun i _ => ⟨rfl, by simp [init_rt_rq]⟩) ⟨rfl, rfl⟩
    ⟨_, hrun⟩⟩

end Conservation

end cs444.sched_rt
