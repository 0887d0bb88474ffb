import Cs444.SchedRt.Lending

open interleaving

open Function

namespace cs444.sched_rt

set_option linter.style.nameCheck false

section Model

/-- The CPUs of the root domain `k`, where `rd` says in which one a CPU is. -/
def rd_span (cpus : List Nat) (rd : Nat → Nat) (k : Nat) : List Nat :=
  cpus.filter fun i => rd i = k

/-- `do_balance_runtime` for the run queue of the CPU `this`, executed on `cpu`: the root domain is that
    of the CPU it is executed on. -/
def do_balance_runtime_on (cpus : List Nat) (rd : Nat → Nat) (rt_b : rt_bandwidth) (d : Domain) (cpu this : Nat) :
    Domain × Bool :=
  do_balance_runtime (rd_span cpus rd (rd cpu)) rt_b d this

/-- What changes the runtimes of a group, where the CPUs are in several root domains. -/
inductive Execution where
  | do_balance_runtime (cpu this : Nat)
  | disable_runtime (this : Nat)
  | enable_runtime (this : Nat)
  | set_time (this : Nat) (rt_time : Nat)

/-- One of them, if it may be done, as for one root domain. -/
def execute (cpus : List Nat) (rd : Nat → Nat) (rt_b : rt_bandwidth) (d : Domain) : Execution → Option Domain
  | .do_balance_runtime cpu this =>
    if cpu ∈ cpus ∧ this ∈ cpus ∧ (d.rt_rq this).rt_time > (d.rt_rq this).rt_runtime then
      some (do_balance_runtime_on cpus rd rt_b d cpu this).1
    else none
  | .disable_runtime this => if this ∈ cpus then some (__disable_runtime (rd_span cpus rd (rd this)) rt_b d this) else none
  | .enable_runtime this =>
    if this ∈ cpus ∧ (d.rt_rq this).rt_runtime = RUNTIME_INF then some (__enable_runtime rt_b d this) else none
  | .set_time this rt_time =>
    if rt_time < 2 ^ 63 then
      some { d with rt_rq := update d.rt_rq this { d.rt_rq this with rt_time } }
    else none

end Model

variable {d d' : Domain} {rt_b : rt_bandwidth} {cpus span : List Nat} {rd : Nat → Nat} {this cpu i k : Nat} {t : Finset Nat}

section Loop

variable {rt_period weight : Nat}

/-- The run queue `i` has something to lend to `this`: the borrower is not at a whole period, and there
    is a unit for each CPU to spare, unless the borrower has more than a period, part of which it would
    hand back. -/
def Lends (rt_period weight : Nat) (d : Domain) (this i : Nat) : Prop :=
  (d.rt_rq i).rt_runtime ≠ RUNTIME_INF ∧ (d.rt_rq i).rt_time < (d.rt_rq i).rt_runtime ∧
    (d.rt_rq this).rt_runtime ≠ rt_period ∧
    (weight ≤ (d.rt_rq i).rt_runtime - (d.rt_rq i).rt_time ∨ rt_period < (d.rt_rq this).rt_runtime)

instance (rt_period weight : Nat) (d : Domain) (this i : Nat) : Decidable (Lends rt_period weight d this i) :=
  inferInstanceAs (Decidable (_ ∧ _ ∧ _ ∧ (_ ∨ _)))

/-- How much is borrowed, in numbers. -/
theorem borrowed_cases (rt_period rt_runtime : Nat) {diff : Int} (hweight : 0 < weight) (h₀ : 0 < diff)
    (h : rt_runtime + diff < 2 ^ 63) :
    (rt_period < rt_runtime → borrowed rt_period weight rt_runtime diff = rt_period - rt_runtime) ∧
      (rt_runtime ≤ rt_period → 0 ≤ borrowed rt_period weight rt_runtime diff ∧
        rt_runtime + borrowed rt_period weight rt_runtime diff ≤ rt_period ∧
        (borrowed rt_period weight rt_runtime diff = 0 ↔ rt_runtime = rt_period ∨ diff < weight)) := by
  obtain ⟨n, rfl⟩ := Int.eq_ofNat_of_zero_le h₀.le
  have hdiff : wrap_u64 (n : Int) = n := Int.natCast_inj.mp (wrap_u64_of_lt (by omega) (by omega))
  have hle : n / weight ≤ n := Nat.div_le_self _ _
  have hzero : n / weight = 0 ↔ n < weight := Nat.div_eq_zero_iff_lt hweight
  rw [borrowed, hdiff, div_u64]
  generalize n / weight = part at hle hzero ⊢
  have hpart : wrap_s64 (part : Int) = part := wrap_s64_of_lt (by omega) (by omega)
  have hsum : (wrap_u64 ((rt_runtime : Int) + part) : Int) = rt_runtime + part := wrap_u64_of_lt (by omega) (by omega)
  rw [hpart]
  split
  · rename_i hover
    rw [wrap_s64_of_lt (by omega) (by omega)]
    omega
  · omega

theorem share_congr (h : d'.rt_rq = d.rt_rq) : d'.share = d.share := by
  funext i
  rw [Domain.share, Domain.share, h]

/-- What the loop needs to know of the run queues, so that nothing wraps. -/
structure Bounded (t : Finset Nat) (this : Nat) (d : Domain) : Prop where
  mem : this ∈ t
  enabled : (d.rt_rq this).rt_runtime ≠ RUNTIME_INF
  total : ∑ j ∈ t, d.share j < 2 ^ 63
  time : ∀ j ∈ t, (d.rt_rq j).rt_time < 2 ^ 63

theorem Bounded.moved (h : Bounded t this d) (hmoved : Moved d d') (hsum : ∑ j ∈ t, d'.share j = ∑ j ∈ t, d.share j) :
    Bounded t this d' where
  mem := h.mem
  enabled hinf := h.enabled ((hmoved.inf this).mp hinf)
  total := hsum ▸ h.total
  time j hj := hmoved.time j ▸ h.time j hj

theorem Bounded.runtime_add_lt (h : Bounded t this d) (hi : i ∈ t) (hne : i ≠ this)
    (hienabled : (d.rt_rq i).rt_runtime ≠ RUNTIME_INF) :
    (d.rt_rq i).rt_runtime + (d.rt_rq this).rt_runtime < 2 ^ 63 := by
  have hboth := share_add_le (d := d) hi h.mem hne
  rw [share_of_enabled hienabled, share_of_enabled h.enabled] at hboth
  exact hboth.trans_lt h.total

/-- What a run queue with time to spare lends is nothing, or `Lends` says so. -/
theorem Bounded.borrowed_eq_zero_iff (h : Bounded t this d) (rt_period : Nat) (hi : i ∈ t) (hne : i ≠ this)
    (hweight : 0 < weight) (hienabled : (d.rt_rq i).rt_runtime ≠ RUNTIME_INF)
    (hspare : (d.rt_rq i).rt_time < (d.rt_rq i).rt_runtime) :
    borrowed rt_period weight (d.rt_rq this).rt_runtime ((d.rt_rq i).rt_runtime - (d.rt_rq i).rt_time) = 0 ↔
      ¬ Lends rt_period weight d this i := by
  have hlt := h.runtime_add_lt hi hne hienabled
  obtain ⟨hover, hwithin⟩ := borrowed_cases rt_period (d.rt_rq this).rt_runtime hweight
    (show 0 < ((d.rt_rq i).rt_runtime : Int) - (d.rt_rq i).rt_time by omega) (by omega)
  rw [Lends]
  by_cases hle : (d.rt_rq this).rt_runtime ≤ rt_period
  · rw [(hwithin hle).2.2]
    simp only [hienabled, hspare, ne_eq, not_false_eq_true, true_and, not_and_or, not_or, not_not]
    omega
  · have hborrowed := hover (Nat.not_le.mp hle)
    simp only [hienabled, hspare, ne_eq, not_false_eq_true, true_and, not_and_or, not_or, not_not]
    omega

/-- Where nobody lends anything, the run queues stay as they are. -/
theorem Bounded.loop_idle (h : Bounded t this d) (hweight : 0 < weight) (hsub : ∀ j ∈ span, j ∈ t) (more : Bool)
    (hnone : ∀ j ∈ span, j ≠ this → ¬ Lends rt_period weight d this j) :
    (balance_loop rt_period weight this d more span).1.rt_rq = d.rt_rq := by
  induction span generalizing d more with
  | nil => rfl
  | cons i span ih =>
    have hi : i ∈ t := hsub i List.mem_cons_self
    have hrest : ∀ j ∈ span, j ∈ t := fun j hj => hsub j (List.mem_cons_of_mem i hj)
    obtain ⟨-, hloop⟩ | ⟨hne, hienabled, hspare, d', hlent, hloop⟩ :=
      balance_loop_cons rt_period weight more hi h.mem h.enabled h.total (h.time i hi) span
    · rw [hloop]
      exact ih h hrest more fun j hj => hnone j (List.mem_cons_of_mem i hj)
    · have hsame : d'.rt_rq = d.rt_rq := hlent.none
        ((h.borrowed_eq_zero_iff rt_period hi hne hweight hienabled hspare).mpr (hnone i List.mem_cons_self hne))
      rw [hloop]
      split
      · exact hsame
      · rw [ih (h.moved hlent.moved hlent.total) hrest true fun j hj hj' => ?_, hsame]
        rw [Lends, hsame]
        exact hnone j (List.mem_cons_of_mem i hj) hj'

/-- A borrower below its period does not lose runtime. -/
theorem Bounded.loop_le (h : Bounded t this d) (rt_period : Nat) (hweight : 0 < weight) (hsub : ∀ j ∈ span, j ∈ t)
    (more : Bool) (hperiod : (d.rt_rq this).rt_runtime ≤ rt_period) :
    (d.rt_rq this).rt_runtime ≤ ((balance_loop rt_period weight this d more span).1.rt_rq this).rt_runtime := by
  induction span generalizing d more with
  | nil => exact le_refl _
  | cons i span ih =>
    have hi : i ∈ t := hsub i List.mem_cons_self
    have hrest : ∀ j ∈ span, j ∈ t := fun j hj => hsub j (List.mem_cons_of_mem i hj)
    obtain ⟨-, hloop⟩ | ⟨hne, hienabled, hspare, d', hlent, hloop⟩ :=
      balance_loop_cons rt_period weight more hi h.mem h.enabled h.total (h.time i hi) span
    · rw [hloop]
      exact ih h hrest more hperiod
    · have hlt := h.runtime_add_lt hi hne hienabled
      have hgain := hlent.gain
      obtain ⟨hnonneg, hle, -⟩ := (borrowed_cases rt_period (d.rt_rq this).rt_runtime hweight
        (show 0 < ((d.rt_rq i).rt_runtime : Int) - (d.rt_rq i).rt_time by omega) (by omega)).2 hperiod
      rw [hloop]
      split
      · dsimp only
        omega
      · have hlater := ih (h.moved hlent.moved hlent.total) hrest true (by omega)
        omega

/-- Where somebody lends something, the runtime of the borrower changes. -/
theorem Bounded.loop_lends (h : Bounded t this d) (hweight : 0 < weight) (hsub : ∀ j ∈ span, j ∈ t) (more : Bool)
    (hi : i ∈ span) (hne : i ≠ this) (hlends : Lends rt_period weight d this i) :
    ((balance_loop rt_period weight this d more span).1.rt_rq this).rt_runtime ≠ (d.rt_rq this).rt_runtime := by
  induction span generalizing d more with
  | nil => exact absurd hi List.not_mem_nil
  | cons j span ih =>
    have hj : j ∈ t := hsub j List.mem_cons_self
    have hrest : ∀ x ∈ span, x ∈ t := fun x hx => hsub x (List.mem_cons_of_mem j hx)
    obtain ⟨hidle, hloop⟩ | ⟨hjne, hjenabled, hspare, d', hlent, hloop⟩ :=
      balance_loop_cons rt_period weight more hj h.mem h.enabled h.total (h.time j hj) span
    · rw [hloop]
      obtain rfl | hi := List.mem_cons.mp hi
      · obtain ⟨hienabled, hispare, -, -⟩ := hlends
        omega
      · exact ih h hrest more hi hlends
    · have hlt := h.runtime_add_lt hj hjne hjenabled
      have hgain := hlent.gain
      have hcases := borrowed_cases rt_period (d.rt_rq this).rt_runtime hweight
        (show 0 < ((d.rt_rq j).rt_runtime : Int) - (d.rt_rq j).rt_time by omega) (by omega)
      have hzero := h.borrowed_eq_zero_iff rt_period hj hjne hweight hjenabled hspare
      obtain ⟨-, -, hneperiod, -⟩ := id hlends
      rw [hloop]
      by_cases hjlends : Lends rt_period weight d this j
      · -- The borrower goes up, and not down again, or down to a whole period.
        have hchange := mt hzero.mp (not_not.mpr hjlends)
        by_cases hperiod : (d.rt_rq this).rt_runtime ≤ rt_period
        · obtain ⟨hnonneg, hle, -⟩ := hcases.2 hperiod
          split
          · dsimp only
            omega
          · have hlater := (h.moved hlent.moved hlent.total).loop_le rt_period hweight hrest true (by omega)
            omega
        · have hdown := hcases.1 (Nat.not_le.mp hperiod)
          rw [if_pos (by omega)]
          dsimp only
          omega
      · have hnothing := hzero.mpr hjlends
        have hsame := hlent.none hnothing
        rw [if_neg (by rw [hsame]; exact hneperiod)]
        obtain rfl | hi := List.mem_cons.mp hi
        · exact absurd hlends hjlends
        · have hlater := ih (h.moved hlent.moved hlent.total) hrest true hi (by rw [Lends, hsame]; exact hlends)
          rw [hsame] at hlater
          exact hlater

/-- The run queues of other CPUs are not touched. -/
theorem balance_loop_out (rt_period weight : Nat) (more : Bool) (hi : i ∉ span) (hne : i ≠ this) :
    (balance_loop rt_period weight this d more span).1.rt_rq i = d.rt_rq i := by
  induction span generalizing d more with
  | nil => rfl
  | cons j span ih =>
    obtain ⟨hij, hi⟩ := not_or.mp (mt List.mem_cons.mpr hi)
    rw [balance_loop]
    dsimp only
    split
    · exact ih more hi
    split
    · exact ih more hi
    split
    · split
      · rw [set_runtime_of_ne hne, set_runtime_of_ne hij]
      · rw [ih true hi, set_runtime_of_ne hne, set_runtime_of_ne hij]
    · exact ih more hi

end Loop

section Domains

theorem mem_rd_span : i ∈ rd_span cpus rd k ↔ i ∈ cpus ∧ rd i = k := by
  simp [rd_span]

theorem mem_rd_span_toFinset : i ∈ (rd_span cpus rd k).toFinset ↔ i ∈ cpus ∧ rd i = k := by
  rw [List.mem_toFinset, mem_rd_span]

/-- The runtimes of the other root domains are as before, and no root domain has gained or lost. -/
structure Contained (cpus : List Nat) (rd : Nat → Nat) (this : Nat) (d d' : Domain) : Prop where
  frame : ∀ i, rd i ≠ rd this → (d'.rt_rq i).rt_runtime = (d.rt_rq i).rt_runtime
  total : ∀ k, ∑ i ∈ (rd_span cpus rd k).toFinset, d'.share i = ∑ i ∈ (rd_span cpus rd k).toFinset, d.share i

/-- The CPU is in the root domain of the run queue, or nobody in its own root domain has anything to
    lend. -/
def Confined (cpus : List Nat) (rd : Nat → Nat) (rt_b : rt_bandwidth) (d : Domain) (cpu this : Nat) : Prop :=
  rd cpu = rd this ∨
    ∀ i ∈ rd_span cpus rd (rd cpu), ¬ Lends rt_b.rt_period (rd_span cpus rd (rd cpu)).length d this i

instance (cpus : List Nat) (rd : Nat → Nat) (rt_b : rt_bandwidth) (d : Domain) (cpu this : Nat) :
    Decidable (Confined cpus rd rt_b d cpu this) :=
  inferInstanceAs (Decidable (_ ∨ ∀ i ∈ _, ¬ Lends _ _ d this i))

theorem length_rd_span_pos (hcpu : cpu ∈ cpus) : 0 < (rd_span cpus rd (rd cpu)).length :=
  List.length_pos_of_mem (mem_rd_span.mpr ⟨hcpu, rfl⟩)

theorem rd_span_subset (k : Nat) : ∀ j ∈ rd_span cpus rd k, j ∈ cpus.toFinset := fun _ hj =>
  List.mem_toFinset.mpr (mem_rd_span.mp hj).1

/-- Only run queues of the root domain of the CPU and the borrower are touched. -/
theorem do_balance_runtime_on_out (hi : rd i ≠ rd cpu) (hne : i ≠ this) :
    (do_balance_runtime_on cpus rd rt_b d cpu this).1.rt_rq i = d.rt_rq i :=
  balance_loop_out _ _ _ (fun hmem => hi (mem_rd_span.mp hmem).2) hne

theorem Bounded.mono (h : Bounded t this d) {u : Finset Nat} (hsub : u ⊆ t) (hmem : this ∈ u) : Bounded u this d where
  mem := hmem
  enabled := h.enabled
  total := (Finset.sum_le_sum_of_subset hsub).trans_lt h.total
  time j hj := h.time j (hsub hj)

theorem Bounded.do_balance_runtime (h : Bounded t this d) (rt_b : rt_bandwidth) (hsub : ∀ j ∈ span, j ∈ t) :
    Moved d (do_balance_runtime span rt_b d this).1 ∧
      ∑ j ∈ t, (do_balance_runtime span rt_b d this).1.share j = ∑ j ∈ t, d.share j :=
  balance_loop_spec rt_b.rt_period span.length false hsub h.mem h.enabled h.total h.time

/-- The root domain of the borrower does not keep its total if it borrows from another one. -/
theorem Bounded.total_ne (h : Bounded cpus.toFinset this d) (hcpu : cpu ∈ cpus)
    (hnot : ¬ Confined cpus rd rt_b d cpu this) :
    ∑ i ∈ (rd_span cpus rd (rd this)).toFinset, (do_balance_runtime_on cpus rd rt_b d cpu this).1.share i ≠
      ∑ i ∈ (rd_span cpus rd (rd this)).toFinset, d.share i := by
  rw [Confined, not_or] at hnot
  obtain ⟨hother, hlends⟩ := hnot
  push Not at hlends
  obtain ⟨i, hi, hlends⟩ := hlends
  have hne : i ≠ this := by
    rintro rfl
    exact hother (mem_rd_span.mp hi).2.symm
  have hmoved : Moved d (do_balance_runtime_on cpus rd rt_b d cpu this).1 :=
    (h.do_balance_runtime rt_b (rd_span_subset _)).1
  have hchange : ((do_balance_runtime_on cpus rd rt_b d cpu this).1.rt_rq this).rt_runtime ≠
      (d.rt_rq this).rt_runtime :=
    h.loop_lends (length_rd_span_pos hcpu) (rd_span_subset _) false hi hne hlends
  have hmem : this ∈ (rd_span cpus rd (rd this)).toFinset :=
    mem_rd_span_toFinset.mpr ⟨List.mem_toFinset.mp h.mem, rfl⟩
  -- The borrower is the only one of its root domain that has changed.
  have hshares : ∀ j ∈ (rd_span cpus rd (rd this)).toFinset.erase this,
      (do_balance_runtime_on cpus rd rt_b d cpu this).1.share j = d.share j := by
    intro j hj
    obtain ⟨hjthis, hj⟩ := Finset.mem_erase.mp hj
    have hjother : rd j ≠ rd cpu := by
      rw [(mem_rd_span_toFinset.mp hj).2]
      exact Ne.symm hother
    rw [Domain.share, Domain.share, do_balance_runtime_on_out hjother hjthis]
  rw [← Finset.add_sum_erase _ _ hmem, ← Finset.add_sum_erase _ _ hmem, Finset.sum_congr rfl hshares,
    share_of_enabled h.enabled, share_of_enabled fun hinf => h.enabled ((hmoved.inf this).mp hinf)]
  exact fun heq => hchange (Nat.add_right_cancel heq)

/-- Runtime stays in its root domains just when the call is confined. -/
theorem Bounded.contained_iff (h : Bounded cpus.toFinset this d) (hcpu : cpu ∈ cpus) :
    Contained cpus rd this d (do_balance_runtime_on cpus rd rt_b d cpu this).1 ↔ Confined cpus rd rt_b d cpu this := by
  constructor
  · intro hcontained
    by_contra hnot
    exact h.total_ne hcpu hnot (hcontained.total (rd this))
  · rintro (hsame | hnone)
    · have hout : ∀ i, rd i ≠ rd this → (do_balance_runtime_on cpus rd rt_b d cpu this).1.rt_rq i = d.rt_rq i := by
        intro i hi
        refine do_balance_runtime_on_out (hsame ▸ hi) ?_
        rintro rfl
        exact hi rfl
      refine ⟨fun i hi => by rw [hout i hi], fun k => ?_⟩
      by_cases hk : k = rd this
      · have hmem : this ∈ (rd_span cpus rd k).toFinset :=
          mem_rd_span_toFinset.mpr ⟨List.mem_toFinset.mp h.mem, hk.symm⟩
        have hsub : (rd_span cpus rd k).toFinset ⊆ cpus.toFinset := fun i hi =>
          rd_span_subset k i (List.mem_toFinset.mp hi)
        refine ((h.mono hsub hmem).do_balance_runtime rt_b fun j hj => ?_).2
        rw [hsame, ← hk] at hj
        exact List.mem_toFinset.mpr hj
      · refine Finset.sum_congr rfl fun i hi => ?_
        have hi : rd i ≠ rd this := by rwa [(mem_rd_span_toFinset.mp hi).2]
        rw [Domain.share, Domain.share, hout i hi]
    · have hidle : (do_balance_runtime_on cpus rd rt_b d cpu this).1.rt_rq = d.rt_rq :=
        h.loop_idle (length_rd_span_pos hcpu) (rd_span_subset _) false fun i hi _ => hnone i hi
      refine ⟨fun i _ => by rw [hidle], fun k => ?_⟩
      rw [share_congr hidle]

end Domains

section Executions

/-- The run queues of each root domain that take part in borrowing have the base runtime on average. -/
def EachSound (cpus : List Nat) (rd : Nat → Nat) (rt_b : rt_bandwidth) (d : Domain) : Prop :=
  ∀ k, Sound (rd_span cpus rd k).toFinset rt_b d

theorem sum_rd_span (cpus : List Nat) (rd : Nat → Nat) (f : Nat → Nat) :
    ∑ k ∈ cpus.toFinset.image rd, ∑ i ∈ (rd_span cpus rd k).toFinset, f i = ∑ i ∈ cpus.toFinset, f i := by
  simp only [rd_span, List.toFinset_filter, decide_eq_true_eq]
  exact Finset.sum_fiberwise_of_maps_to (fun i hi => Finset.mem_image_of_mem rd hi) f

theorem EachSound.whole (h : EachSound cpus rd rt_b d) : Sound cpus.toFinset rt_b d where
  total := by
    rw [← sum_rd_span cpus rd d.share, ← sum_rd_span cpus rd d.enabled, Finset.sum_mul]
    exact Finset.sum_congr rfl fun k _ => (h k).total
  time i hi := (h (rd i)).time i (mem_rd_span_toFinset.mpr ⟨List.mem_toFinset.mp hi, rfl⟩)
  results := (h 0).results
  bug := (h 0).bug

theorem Sound.congr (h : Sound t rt_b d) (hsame : ∀ i ∈ t, d'.rt_rq i = d.rt_rq i) (hresults : ∀ r ∈ d'.results, 0 ≤ r)
    (hbug : d'.bug = false) : Sound t rt_b d' where
  total := by
    have hshares : ∑ i ∈ t, d'.share i = ∑ i ∈ t, d.share i :=
      Finset.sum_congr rfl fun i hi => by rw [Domain.share, Domain.share, hsame i hi]
    have henabled : ∑ i ∈ t, d'.enabled i = ∑ i ∈ t, d.enabled i :=
      Finset.sum_congr rfl fun i hi => by rw [Domain.enabled, Domain.enabled, hsame i hi]
    rw [hshares, henabled, h.total]
  time i hi := hsame i hi ▸ h.time i hi
  results := hresults
  bug := hbug

/-- What keeps the root domain of a run queue sound and touches no other keeps all of them sound. -/
theorem EachSound.of_own (h : EachSound cpus rd rt_b d) (hown : Sound (rd_span cpus rd k).toFinset rt_b d')
    (hout : ∀ i, rd i ≠ k → d'.rt_rq i = d.rt_rq i) : EachSound cpus rd rt_b d' := by
  intro j
  by_cases hj : j = k
  · rwa [hj]
  · refine (h j).congr (fun i hi => hout i ?_) hown.results hown.bug
    rwa [(mem_rd_span_toFinset.mp hi).2]

theorem reclaim_loop_out (want : Int) (hi : i ∉ span) : (reclaim_loop this d want span).1.rt_rq i = d.rt_rq i := by
  induction span generalizing d want with
  | nil => rfl
  | cons j span ih =>
    obtain ⟨hij, hi⟩ := not_or.mp (mt List.mem_cons.mpr hi)
    rw [reclaim_loop]
    dsimp only
    generalize (if want > 0 then min (wrap_s64 (d.rt_rq j).rt_runtime) want else want) = diff
    split
    · exact ih want hi
    split
    · exact set_runtime_of_ne hij
    · rw [ih _ hi, set_runtime_of_ne hij]

theorem disable_runtime_out (hi : i ∉ span) (hne : i ≠ this) :
    (__disable_runtime span rt_b d this).rt_rq i = d.rt_rq i := by
  rw [__disable_runtime]
  split
  · exact disable_of_ne hne
  · exact (disable_of_ne hne).trans (reclaim_loop_out _ hi)

theorem card_rd_span_le (cpus : List Nat) (rd : Nat → Nat) (k : Nat) :
    (rd_span cpus rd k).toFinset.card ≤ cpus.length :=
  (List.toFinset_card_le _).trans (List.length_filter_le _ _)

/-- What an execution must keep to: a `do_balance_runtime` is confined, anything else is free. -/
def keeps (cpus : List Nat) (rd : Nat → Nat) (rt_b : rt_bandwidth) (d : Domain) : Execution → Prop
  | .do_balance_runtime cpu this => Confined cpus rd rt_b d cpu this
  | .disable_runtime _ | .enable_runtime _ | .set_time _ _ => True

theorem EachSound.do_balance_runtime_on (h : EachSound cpus rd rt_b d) (hcpu : cpu ∈ cpus)
    (hthis : Bounded cpus.toFinset this d) (hconfined : Confined cpus rd rt_b d cpu this) :
    EachSound cpus rd rt_b (do_balance_runtime_on cpus rd rt_b d cpu this).1 := by
  have hmoved : Moved d (sched_rt.do_balance_runtime_on cpus rd rt_b d cpu this).1 :=
    (hthis.do_balance_runtime rt_b (rd_span_subset _)).1
  have hcontained := (hthis.contained_iff hcpu).mpr hconfined
  intro k
  refine ⟨?_, fun i hi => ?_, hmoved.results (h k).results, hmoved.bug.trans (h k).bug⟩
  · rw [hcontained.total k, (h k).total]
    exact congrArg (· * rt_b.rt_runtime) (Finset.sum_congr rfl fun i _ => (hmoved.enabled i).symm)
  · rw [hmoved.time i]
    exact (h k).time i hi

theorem Conserved.total_shares (h : Conserved span rt_b d) :
    ∑ i ∈ span.toFinset, d.share i = (∑ i ∈ span.toFinset, d.enabled i) * rt_b.rt_runtime := by
  have htotal := h.total
  rw [Finset.sum_filter, Finset.card_filter] at htotal
  simpa only [Domain.share, Domain.enabled, ite_not] using htotal

section Step

variable (hbound : cpus.length * rt_b.rt_runtime < 2 ^ 63)
include hbound

theorem EachSound.bounded (h : EachSound cpus rd rt_b d) (hthis : this ∈ cpus)
    (hexceeded : (d.rt_rq this).rt_time > (d.rt_rq this).rt_runtime) : Bounded cpus.toFinset this d := by
  have hmem : this ∈ cpus.toFinset := List.mem_toFinset.mpr hthis
  have hcard : cpus.toFinset.card * rt_b.rt_runtime < 2 ^ 63 :=
    (Nat.mul_le_mul_right _ (List.toFinset_card_le _)).trans_lt hbound
  have htime := h.whole.time this hmem
  exact ⟨hmem, ne_runtime_inf (by omega), h.whole.lt hcard, h.whole.time⟩

theorem EachSound.execute (h : EachSound cpus rd rt_b d) (hnodup : cpus.Nodup) {e : Execution}
    (hkeeps : keeps cpus rd rt_b d e) (hnext : execute cpus rd rt_b d e = some d') : EachSound cpus rd rt_b d' := by
  have hcard : ∀ k, (rd_span cpus rd k).toFinset.card * rt_b.rt_runtime < 2 ^ 63 := fun k =>
    (Nat.mul_le_mul_right _ (card_rd_span_le cpus rd k)).trans_lt hbound
  have hown : ∀ {x}, x ∈ cpus → x ∈ (rd_span cpus rd (rd x)).toFinset := fun hx =>
    mem_rd_span_toFinset.mpr ⟨hx, rfl⟩
  cases e with simp only [sched_rt.execute] at hnext
  | do_balance_runtime cpu this =>
    split at hnext
    · rename_i hvalid
      obtain ⟨hcpu, hthis, hexceeded⟩ := hvalid
      cases hnext
      exact h.do_balance_runtime_on hcpu (h.bounded hbound hthis hexceeded) hkeeps
    · cases hnext
  | disable_runtime this =>
    split at hnext
    · rename_i hthis
      cases hnext
      have hspan : (rd_span cpus rd (rd this)).Nodup := hnodup.filter _
      refine h.of_own ((h (rd this)).disable_runtime (hcard _) hspan (fun j => List.mem_toFinset.symm) (hown hthis))
        fun i hi => disable_runtime_out (fun hmem => hi (mem_rd_span.mp hmem).2) ?_
      rintro rfl
      exact hi rfl
    · cases hnext
  | enable_runtime this =>
    split at hnext
    · rename_i hvalid
      cases hnext
      refine h.of_own ((h (rd this)).enable_runtime (hcard _) (hown hvalid.1) hvalid.2) fun i hi =>
        update_of_ne ?_ _ _
      rintro rfl
      exact hi rfl
    · cases hnext
  | set_time this rt_time =>
    split at hnext
    · rename_i htime
      cases hnext
      exact fun k => (h k).set_time htime
    · cases hnext

/-- A root domain that has borrowed from another one has too much. -/
theorem EachSound.not_conserved (h : EachSound cpus rd rt_b d) {e : Execution} (hnot : ¬ keeps cpus rd rt_b d e)
    (hnext : sched_rt.execute cpus rd rt_b d e = some d') : ¬ ∀ k, Conserved (rd_span cpus rd k) rt_b d' := by
  cases e with simp only [keeps, not_true_eq_false] at hnot
  | do_balance_runtime cpu this =>
    rw [sched_rt.execute] at hnext
    split at hnext
    · rename_i hvalid
      obtain ⟨hcpu, hthis, hexceeded⟩ := hvalid
      cases hnext
      have hbounded := h.bounded hbound hthis hexceeded
      have hmoved : Moved d (sched_rt.do_balance_runtime_on cpus rd rt_b d cpu this).1 :=
        (hbounded.do_balance_runtime rt_b (rd_span_subset _)).1
      intro hconserved
      refine hbounded.total_ne hcpu hnot ?_
      rw [(hconserved (rd this)).total_shares, (h (rd this)).total]
      exact congrArg (· * rt_b.rt_runtime) (Finset.sum_congr rfl fun i _ => hmoved.enabled i)
    · cases hnext

end Step

/-- A call of `do_balance_runtime` moves runtime only within the root domain of its run queue just when
    it is executed in that root domain or finds nobody to borrow from; and a run in which the CPUs start
    with the base runtime keeps each root domain at what it has, with no `BUG_ON` in `__disable_runtime`,
    just when all its calls are so. -/
theorem root_domains_keep_runtime_iff (hnodup : cpus.Nodup) (hbound : cpus.length * rt_b.rt_runtime < 2 ^ 63) :
    (∀ d this cpu, Bounded cpus.toFinset this d → cpu ∈ cpus →
      (Contained cpus rd this d (do_balance_runtime_on cpus rd rt_b d cpu this).1 ↔
        Confined cpus rd rt_b d cpu this)) ∧
    ∀ d₀ : Domain, (∀ i ∈ cpus, (d₀.rt_rq i).rt_runtime = rt_b.rt_runtime ∧ (d₀.rt_rq i).rt_time < 2 ^ 63) →
      d₀.results = [] → d₀.bug = false → ∀ es,
      (Visits (execute cpus rd rt_b) (fun d => ∀ k, Conserved (rd_span cpus rd k) rt_b d) d₀ es ↔
        Along (execute cpus rd rt_b) (keeps cpus rd rt_b) d₀ es) := by
  refine ⟨fun d this cpu h hcpu => h.contained_iff hcpu, fun d₀ hstart hresults hbug es => ?_⟩
  have hsound : EachSound cpus rd rt_b d₀ := by
    intro k
    refine Sound.start (fun i hi => hstart i (mem_rd_span.mp hi).1) ⟨hresults, hbug⟩
  exact visits_iff_along (fun d h k => (h k).conserved) (fun d e d' h hkeeps => h.execute hbound hnodup hkeeps)
    (fun d e d' h hnot => h.not_conserved hbound hnot) hsound es

/-- The run queue of CPU 0 has used more than its runtime, the others have used nothing. -/
def exceeded : Domain :=
  ⟨update (fun _ => init_rt_rq 950) 0 { init_rt_rq 950 with rt_time := 970 }, [], false⟩

/-- CPUs 0 and 1 in a root domain and CPU 2 in another one. CPU 1 runs `do_balance_runtime` for CPU 0,
    gets back what it has lent, and CPU 2 is disabled. -/
theorem root_domains_keep_runtime_iff_remote :
    Contained [0, 1, 2] (· / 2) 0 exceeded (do_balance_runtime_on [0, 1, 2] (· / 2) ⟨1000, 950⟩ exceeded 1 0).1 ∧
      Visits (execute [0, 1, 2] (· / 2) ⟨1000, 950⟩) (fun d => ∀ k, Conserved (rd_span [0, 1, 2] (· / 2) k) ⟨1000, 950⟩ d)
        exceeded [.do_balance_runtime 1 0, .disable_runtime 1, .disable_runtime 2] := by
  obtain ⟨hcall, hrun⟩ := @root_domains_keep_runtime_iff ⟨1000, 950⟩ [0, 1, 2] (· / 2) (by decide) (by decide)
  refine ⟨(hcall exceeded 0 1 ⟨by decide, by decide, by decide, by decide⟩ (by decide)).mpr (.inl rfl),
    (hrun exceeded (by decide) rfl rfl _).mpr ?_⟩
  exact fun _ _ => ⟨.inl rfl, fun _ _ => ⟨trivial, fun _ _ => ⟨trivial, trivial⟩⟩⟩

/-- Each CPU in a root domain of its own. CPU 1 runs `do_balance_runtime` for CPU 0, which then has what
    CPU 1 cannot get back when it is disabled. -/
theorem do_balance_runtime_leaks :
    let d := (do_balance_runtime_on [0, 1] id ⟨1000, 950⟩ exceeded 1 0).1
    (exceeded.rt_rq 0).rt_runtime = 950 ∧ (exceeded.rt_rq 1).rt_runtime = 950 ∧
      (d.rt_rq 0).rt_runtime = 1000 ∧ (d.rt_rq 1).rt_runtime = 900 ∧
      (interleaving.run (execute [0, 1] id ⟨1000, 950⟩) exceeded [.do_balance_runtime 1 0, .disable_runtime 1]).map
        (·.bug) = some true := by
  decide +kernel

end Executions

end cs444.sched_rt
