import Cs444.SchedRt.CpupriFind

open interleaving cs444.sched_rt

namespace cs444.sched_cpupri

variable {n : Nat}

section Exactness

variable {q : Query n} {s : State n} {w : Watch n} {T : Topology} {rd : root_domain} {p : task_struct} {idx t : Nat}

/-- A sorted list up to a bound. -/
theorem takeWhile_lt_eq_filter {l : List Nat} (hl : l.Pairwise (· < ·)) (t : Nat) :
    l.takeWhile (fun x => decide (x < t)) = l.filter fun x => decide (x < t) := by
  induction l with
  | nil => rfl
  | cons a l ih =>
    obtain ⟨hhead, htail⟩ := List.pairwise_cons.mp hl
    by_cases ha : a < t
    · rw [List.takeWhile_cons_of_pos (by simpa using ha), List.filter_cons_of_pos (by simpa using ha), ih htail]
    · rw [List.takeWhile_cons_of_neg (by simpa using ha), List.filter_cons_of_neg (by simpa using ha)]
      refine (List.filter_eq_nil_iff.mpr fun b hb => ?_).symm
      have hab := hhead b hb
      simp only [decide_eq_true_eq]
      omega

/-- The CPUs of a level that a task may run on. -/
def level (T : Topology) (rd : root_domain) (p : task_struct) (idx : Nat) : List Nat :=
  (pri_to_cpu T rd idx).filter (p.cpus_allowed.contains ·)

theorem cpupri_find_eq (hpri : convert_prio p.prio = some t) : sched_rt.cpupri_find T rd p =
    (((List.range CPUPRI_NR_PRIORITIES).filter fun idx => pri_to_cpu T rd idx ≠ []).filter fun idx =>
      decide (idx < t)).findSome? fun idx => if level T rd p idx = [] then none else some (level T rd p idx) := by
  have hsorted : ((List.range CPUPRI_NR_PRIORITIES).filter fun idx => pri_to_cpu T rd idx ≠ []).Pairwise (· < ·) :=
    List.pairwise_lt_range.filter _
  rw [← takeWhile_lt_eq_filter hsorted, sched_rt.cpupri_find, hpri]
  rfl

theorem cpupri_find_invalid (hpri : convert_prio p.prio = none) : sched_rt.cpupri_find T rd p = none := by
  have hstop : ∀ l : List Nat, l.takeWhile (fun idx => (none : Option Nat).any (idx < ·)) = [] := by
    intro l
    cases l <;> rfl
  rw [sched_rt.cpupri_find, hpri]
  simp only [hstop, List.findSome?_nil]

theorem cpupri_find_eq_none (hpri : convert_prio p.prio = some t) (hnone : ∀ idx, idx < t → level T rd p idx = []) :
    sched_rt.cpupri_find T rd p = none := by
  rw [cpupri_find_eq hpri, List.findSome?_eq_none_iff]
  intro idx hidx
  have hlt : idx < t := by simpa using (List.mem_filter.mp hidx).2
  rw [if_pos (hnone idx hlt)]

theorem cpupri_find_eq_some (hpri : convert_prio p.prio = some t) (hidx : idx < t) (hrange : idx < CPUPRI_NR_PRIORITIES)
    (hlevel : level T rd p idx ≠ []) (hnone : ∀ i, i < idx → level T rd p i = []) :
    sched_rt.cpupri_find T rd p = some (level T rd p idx) := by
  have hvec : pri_to_cpu T rd idx ≠ [] := by
    intro hnil
    exact hlevel (by rw [level, hnil]; rfl)
  have hmem : idx ∈ ((List.range CPUPRI_NR_PRIORITIES).filter fun idx => pri_to_cpu T rd idx ≠ []).filter
      fun idx => decide (idx < t) := by
    simp only [List.mem_filter, List.mem_range, decide_eq_true_eq]
    exact ⟨⟨hrange, hvec⟩, hidx⟩
  have hsorted := (List.pairwise_lt_range (n := CPUPRI_NR_PRIORITIES)).filter
    (fun idx => decide (pri_to_cpu T rd idx ≠ [])) |>.filter fun idx => decide (idx < t)
  obtain ⟨l₁, l₂, hl⟩ := List.append_of_mem hmem
  rw [cpupri_find_eq hpri, List.findSome?_eq_some_iff]
  refine ⟨l₁, idx, l₂, hl, if_neg hlevel, fun x hx => if_pos (hnone x ?_)⟩
  rw [hl] at hsorted
  exact (List.pairwise_append.mp hsorted).2.2 x hx idx List.mem_cons_self

/-- The table says what the scheduler has recorded. -/
structure Agrees (T : Topology) (rd : root_domain) (p : task_struct) (q : Query n) (s : State n) : Prop where
  nr_cpu_ids : T.nr_cpu_ids = n
  recorded : ∀ c : Fin n, s.cp.cpu_to_pri c = convert_prio (rd.cpupri c)
  task_pri : q.task_pri = convert_prio p.prio
  allowed : ∀ c : Fin n, q.cpus_allowed c = p.cpus_allowed.contains c.val

/-- A mask as the list of its CPUs. -/
def cpus (mask : Fin n → Bool) : List Nat :=
  (List.range n).filter fun c => if hc : c < n then mask ⟨c, hc⟩ else false

/-- The CPUs of a level as the search sees them. -/
def fits (q : Query n) (s : State n) (idx : Nat) (c : Fin n) : Bool :=
  q.cpus_allowed c && decide (s.cp.cpu_to_pri c = some idx)

theorem Agrees.level_eq (h : Agrees T rd p q s) (idx : Nat) : level T rd p idx = cpus (fits q s idx) := by
  rw [level, pri_to_cpu, h.nr_cpu_ids, List.filter_filter, cpus]
  refine List.filter_congr fun c hc => ?_
  have hlt := List.mem_range.mp hc
  rw [dif_pos hlt, fits, h.recorded, h.allowed]

theorem cpus_eq_nil {mask : Fin n → Bool} : cpus mask = [] ↔ ∀ c, mask c = false := by
  rw [cpus, List.filter_eq_nil_iff]
  constructor
  · intro h c
    have hc := h c (List.mem_range.mpr c.isLt)
    simpa using hc
  · intro h c hc
    rw [dif_pos (List.mem_range.mp hc), h]
    exact Bool.false_ne_true

/-- How far a search is when nobody changes the table. -/
def FindPhase.Exactly (q : Query n) (s : State n) : FindPhase n → Prop
  | .scan idx => ∀ i < idx, ∀ c, fits q s i c = false
  | .any idx k => q.task_pri.any (idx < ·) ∧ idx < CPUPRI_NR_PRIORITIES ∧ (∀ i < idx, ∀ c, fits q s i c = false) ∧
    ∀ c : Fin n, c < k → fits q s idx c = false
  | .copy idx k lowest_mask => q.task_pri.any (idx < ·) ∧ idx < CPUPRI_NR_PRIORITIES ∧
    (∀ i < idx, ∀ c, fits q s i c = false) ∧ (∃ c, fits q s idx c = true) ∧
    ∀ c : Fin n, c < k → lowest_mask c = fits q s idx c
  | .done none => ∀ i, q.task_pri.any (i < ·) → ∀ c, fits q s i c = false
  | .done (some lowest_mask) => ∃ idx, q.task_pri.any (idx < ·) ∧ idx < CPUPRI_NR_PRIORITIES ∧
    (∀ i < idx, ∀ c, fits q s i c = false) ∧ (∃ c, fits q s idx c = true) ∧ ∀ c, lowest_mask c = fits q s idx c

theorem find_exactly (hs : Exact s) (hrange : ∀ c idx, s.cp.cpu_to_pri c = some idx → idx < CPUPRI_NR_PRIORITIES)
    {f : FindPhase n} (h : f.Exactly q s) : (cpupri_find q s.cp f).Exactly q s := by
  have hmask : ∀ idx c, (q.cpus_allowed c && (s.cp.pri_to_cpu idx).mask c) = fits q s idx c := by
    intro idx c
    rw [fits, Bool.eq_iff_iff.mpr ((hs.mask idx c).trans decide_eq_true_iff.symm)]
  cases f with
  | scan idx =>
    rw [cpupri_find]
    split
    · rename_i hend
      intro i _ c
      by_contra hfit
      rw [Bool.not_eq_false, fits, Bool.and_eq_true, decide_eq_true_eq] at hfit
      have hi := hrange c i hfit.2
      have hvacant := h i (Nat.lt_of_lt_of_le hi hend) c
      simp [fits, hfit] at hvacant
    · rename_i hlt
      split
      · rename_i hbit
        intro i hi c
        obtain hi | rfl := Nat.lt_succ_iff_lt_or_eq.mp hi
        · exact h i hi c
        · by_contra hfit
          rw [Bool.not_eq_false, fits, Bool.and_eq_true, decide_eq_true_eq] at hfit
          have hactive := (hs.active i).mpr ⟨c, hfit.2⟩
          simp [hactive] at hbit
      · split
        · rename_i hstop
          intro i hi c
          apply h i
          cases hpri : q.task_pri with
          | none =>
            rw [hpri] at hi
            cases hi
          | some p =>
            rw [hpri] at hi hstop
            simp at hi hstop
            omega
        · rename_i hstop
          refine ⟨?_, Nat.lt_of_not_le hlt, h, fun c hc => absurd hc (Nat.not_lt_zero _)⟩
          cases hpri : q.task_pri with
          | none =>
            rw [hpri] at hstop
            exact absurd rfl hstop
          | some p =>
            rw [hpri] at hstop
            simpa using hstop
  | any idx k =>
    obtain ⟨hbelow, hidx, hvacant, hseen⟩ := h
    rw [cpupri_find]
    split
    · rename_i hk
      rw [hmask]
      split
      · rename_i hfit
        exact ⟨hbelow, hidx, hvacant, ⟨_, hfit⟩, fun c hc => absurd hc (Nat.not_lt_zero _)⟩
      · rename_i hfit
        refine ⟨hbelow, hidx, hvacant, fun c hc => ?_⟩
        obtain hc | hc := Nat.lt_succ_iff_lt_or_eq.mp hc
        · exact hseen c hc
        · obtain rfl : c = ⟨k, hk⟩ := Fin.ext hc
          simpa using hfit
    · rename_i hk
      intro i hi c
      obtain hi | rfl := Nat.lt_succ_iff_lt_or_eq.mp hi
      · exact hvacant i hi c
      · exact hseen c (by omega)
  | copy idx k lowest_mask =>
    obtain ⟨hbelow, hidx, hvacant, hsome, hcopied⟩ := h
    rw [cpupri_find]
    split
    · rename_i hk
      rw [hmask]
      refine ⟨hbelow, hidx, hvacant, hsome, fun c hc => ?_⟩
      by_cases hck : c = ⟨k, hk⟩
      · rw [hck, Function.update_self]
      · rw [Function.update_of_ne hck]
        refine hcopied c (Nat.lt_of_le_of_ne (Nat.lt_succ_iff.mp hc) fun heq => hck (Fin.ext heq))
    · rename_i hk
      have hall : ∀ c, lowest_mask c = fits q s idx c := fun c => hcopied c (by omega)
      obtain ⟨c, hc⟩ := hsome
      rw [if_pos ⟨c, by rw [hall c, hc]⟩]
      exact ⟨idx, hbelow, hidx, hvacant, ⟨c, hc⟩, hall⟩
  | done r => exact h

/-- With no `cpupri_set` under way the table stands for the priorities recorded last, and `cpupri_find` returns
    the CPUs of the lowest level below the task that has one the task may run on. -/
theorem cpupri_find_exact (hs : Reachable next cpupri_init s) (hidle : ∀ cpu, s.set cpu = .idle)
    (hagree : Agrees T rd p q s) {k : Nat} (hk : CPUPRI_NR_PRIORITIES * (2 * n + 3) + 1 < k) :
    ∃ r, run (watch q) ⟨s, .scan 0⟩ (List.replicate k .find) = some ⟨s, .done r⟩ ∧
      r.map cpus = sched_rt.cpupri_find T rd p := by
  have hi : Inv s := hs.invariant cpupri_init_inv fun _ _ _ hi hnext => hi.next hnext
  have hrange : ∀ c idx, s.cp.cpu_to_pri c = some idx → idx < CPUPRI_NR_PRIORITIES := by
    intro c idx hc
    have hplace : s.place c = some idx := by
      rw [State.place, hidle]
      exact hc
    exact hi.place_lt hplace
  have hstart : (FindPhase.scan 0 : FindPhase n).Exactly q s := fun i hi => absurd hi (Nat.not_lt_zero _)
  obtain ⟨f, hrun, hf⟩ := run_finds (fun f hf => find_exactly (hi.exact hidle) hrange hf) hstart k
  have hdone : ∃ r, f = .done r := by
    by_contra hbusy
    have hleft := run_find_left (w := ⟨s, .scan 0⟩) trivial hrun fun r hr => hbusy ⟨r, hr⟩
    simp only [FindPhase.left, Nat.sub_zero, List.countP_replicate, WatchMove.isFind, if_true] at hleft
    omega
  obtain ⟨r, rfl⟩ := hdone
  refine ⟨r, hrun, ?_⟩
  have hempty : ∀ i, (∀ c, fits q s i c = false) → level T rd p i = [] := by
    intro i hvacant
    rw [hagree.level_eq, cpus_eq_nil]
    exact hvacant
  cases hpri : convert_prio p.prio with
  | none =>
    have hnone : q.task_pri = none := hagree.task_pri.trans hpri
    cases r with
    | none => exact (cpupri_find_invalid hpri).symm
    | some lowest_mask =>
      obtain ⟨idx, hbelow, -⟩ := hf
      rw [hnone] at hbelow
      cases hbelow
  | some t =>
    have hsome : q.task_pri = some t := hagree.task_pri.trans hpri
    cases r with
    | none =>
      rw [cpupri_find_eq_none hpri fun i hlt => hempty i (hf i (by rw [hsome]; simpa using hlt))]
      rfl
    | some lowest_mask =>
      obtain ⟨idx, hbelow, hidx, hvacant, ⟨c, hc⟩, hall⟩ := hf
      rw [hsome, Option.any_some, decide_eq_true_eq] at hbelow
      have hmask : lowest_mask = fits q s idx := funext hall
      have hlevel : level T rd p idx ≠ [] := by
        rw [hagree.level_eq, Ne, cpus_eq_nil]
        intro hnone
        rw [hnone c] at hc
        exact Bool.noConfusion hc
      rw [cpupri_find_eq_some hpri hbelow hidx hlevel fun i hlt => hempty i (hvacant i hlt), hagree.level_eq, hmask]
      rfl

/-- The records of the scheduler for the same CPU. -/
def sampleTopology : Topology :=
  { nr_cpu_ids := 1, smp_processor_id := 0, local_cpu_mask := true, for_each_domain := fun _ => [] }

def sampleDomain : root_domain := { rto_mask := fun _ => false, rto_count := 0, cpupri := fun _ => 100 }

def sampleTask : task_struct :=
  { prio := 50, normal_prio := 50, nr_cpus_allowed := 1, cpus_allowed := [0], rt_rq := [], rt_class := true
    on_cpu := false }

theorem sample_agrees : Agrees sampleTopology sampleDomain sampleTask sampleQuery sampleTable := by
  refine ⟨rfl, fun c => ?_, rfl, fun c => ?_⟩ <;> rw [Subsingleton.elim c ⟨0, Nat.one_pos⟩] <;> rfl

theorem cpupri_find_exact_sample :
    Agrees sampleTopology sampleDomain sampleTask sampleQuery sampleTable ∧
    ∃ r, run (watch sampleQuery) ⟨sampleTable, .scan 0⟩ (List.replicate 600 .find) = some ⟨sampleTable, .done r⟩ ∧
      r.map cpus = sched_rt.cpupri_find sampleTopology sampleDomain sampleTask :=
  ⟨sample_agrees, cpupri_find_exact sampleTable_reachable sampleTable_idle sample_agrees (by decide)⟩

end Exactness

end cs444.sched_cpupri
