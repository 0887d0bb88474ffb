import Cs444.SchedRt.CpupriTable

open interleaving cs444.sched_rt

open Function

namespace cs444.sched_cpupri

variable {n : Nat}

section Model

/-- What `cpupri_find` is asked for: the priority of the task, where none stands for `CPUPRI_INVALID`, and the
    CPUs it may run on. -/
structure Query (n : Nat) where
  task_pri : Option Nat
  cpus_allowed : Fin n → Bool

/-- How far a `cpupri_find` is: it looks for the next bit, goes through a mask to see if it has a CPU for the
    task, goes through it again to copy it, or has returned, with the mask if it returns 1. -/
inductive FindPhase (n : Nat) where
  | scan (idx : Nat)
  | any (idx k : Nat)
  | copy (idx k : Nat) (lowest_mask : Fin n → Bool)
  | done (lowest_mask : Option (Fin n → Bool))

/-- One bit read from the table, which is not locked. -/
def cpupri_find (q : Query n) (cp : cpupri n) : FindPhase n → FindPhase n
  | .scan idx =>
    if CPUPRI_NR_PRIORITIES ≤ idx then .done none
    else if !cp.pri_active idx then .scan (idx + 1)
    else if q.task_pri.all (· ≤ idx) then .done none
    else .any idx 0
  | .any idx k =>
    if hk : k < n then
      if q.cpus_allowed ⟨k, hk⟩ && (cp.pri_to_cpu idx).mask ⟨k, hk⟩ then .copy idx 0 fun _ => false
      else .any idx (k + 1)
    else .scan (idx + 1)
  | .copy idx k lowest_mask =>
    if hk : k < n then
      .copy idx (k + 1) (update lowest_mask ⟨k, hk⟩
        (q.cpus_allowed ⟨k, hk⟩ && (cp.pri_to_cpu idx).mask ⟨k, hk⟩))
    else if ∃ cpu, lowest_mask cpu = true then .done (some lowest_mask)
    else .scan (idx + 1)
  | .done r => .done r

/-- A `cpupri_find` while `cpupri_set` is called for the CPUs. -/
structure Watch (n : Nat) where
  tab : State n
  find : FindPhase n

inductive WatchMove (n : Nat) where
  | set (m : Move n)
  | find

def watch (q : Query n) (w : Watch n) : WatchMove n → Option (Watch n)
  | .set m => (next w.tab m).map fun tab => { w with tab }
  | .find => some { w with find := cpupri_find q w.tab.cp w.find }

/-- One CPU that runs a normal task. -/
def sampleCall : List (Move 1) := .cpupri_set ⟨0, Nat.one_pos⟩ 100 :: List.replicate 6 (.go ⟨0, Nat.one_pos⟩)

def sampleTable : State 1 := (run next cpupri_init sampleCall).getD cpupri_init

theorem sampleTable_reachable : Reachable next cpupri_init sampleTable := ⟨sampleCall, rfl⟩

theorem sampleTable_idle (cpu : Fin 1) : sampleTable.set cpu = .idle := by
  rw [Subsingleton.elim cpu ⟨0, Nat.one_pos⟩]
  rfl

/-- A real-time task that may run anywhere. -/
def sampleQuery : Query 1 := ⟨some 51, fun _ => true⟩

/-- Two CPUs that run normal tasks. -/
def pairCalls : List (Move 2) :=
  .cpupri_set ⟨0, Nat.two_pos⟩ 100 :: List.replicate 6 (.go ⟨0, Nat.two_pos⟩) ++
    .cpupri_set ⟨1, Nat.one_lt_two⟩ 100 :: List.replicate 6 (.go ⟨1, Nat.one_lt_two⟩)

def pairTable : State 2 := (run next cpupri_init pairCalls).getD cpupri_init

theorem pairTable_reachable : Reachable next cpupri_init pairTable := ⟨pairCalls, rfl⟩

def pairQuery : Query 2 := ⟨some 71, fun _ => true⟩

end Model

section Ending

variable {q : Query n} {w w' : Watch n}

/-- How many reads a search has to make at most. -/
def FindPhase.left : FindPhase n → Nat
  | .scan idx => (CPUPRI_NR_PRIORITIES - idx) * (2 * n + 3) + 1
  | .any idx k => (CPUPRI_NR_PRIORITIES - (idx + 1)) * (2 * n + 3) + 1 + (2 * n + 2 - k)
  | .copy idx k _ => (CPUPRI_NR_PRIORITIES - (idx + 1)) * (2 * n + 3) + 1 + (n + 1 - k)
  | .done _ => 0

/-- The search stays inside the table. -/
def FindPhase.Inside : FindPhase n → Prop
  | .any idx k | .copy idx k _ => idx < CPUPRI_NR_PRIORITIES ∧ k ≤ n
  | _ => True

/-- Every read brings the search nearer to its end. -/
theorem find_left (q : Query n) (cp : cpupri n) {f : FindPhase n} (hf : f.Inside) (hbusy : ∀ r, f ≠ .done r) :
    (cpupri_find q cp f).Inside ∧ (cpupri_find q cp f).left < f.left := by
  cases f with
  | scan idx =>
    rw [cpupri_find]
    split
    · exact ⟨trivial, by simp [FindPhase.left]⟩
    · rename_i hlt
      have hturn : (CPUPRI_NR_PRIORITIES - idx) * (2 * n + 3) =
          (CPUPRI_NR_PRIORITIES - (idx + 1)) * (2 * n + 3) + (2 * n + 3) := by
        rw [← Nat.succ_mul]
        congr 1
        omega
      split
      · refine ⟨trivial, ?_⟩
        simp only [FindPhase.left]
        omega
      · split
        · exact ⟨trivial, by simp [FindPhase.left]⟩
        · refine ⟨⟨Nat.lt_of_not_le hlt, Nat.zero_le _⟩, ?_⟩
          simp only [FindPhase.left]
          omega
  | any idx k =>
    obtain ⟨hidx, hk⟩ := hf
    rw [cpupri_find]
    split
    · split
      · refine ⟨⟨hidx, Nat.zero_le _⟩, ?_⟩
        simp only [FindPhase.left]
        omega
      · refine ⟨⟨hidx, by omega⟩, ?_⟩
        simp only [FindPhase.left]
        omega
    · refine ⟨trivial, ?_⟩
      simp only [FindPhase.left]
      omega
  | copy idx k lowest_mask =>
    obtain ⟨hidx, hk⟩ := hf
    rw [cpupri_find]
    split
    · refine ⟨⟨hidx, by omega⟩, ?_⟩
      simp only [FindPhase.left]
      omega
    · split
      · exact ⟨trivial, by simp [FindPhase.left]⟩
      · refine ⟨trivial, ?_⟩
        simp only [FindPhase.left]
        omega
  | done r => exact absurd rfl (hbusy r)

def WatchMove.isFind : WatchMove n → Bool
  | .find => true
  | .set _ => false

/-- A search over a table that nobody changes. -/
theorem run_finds {s : State n} {P : FindPhase n → Prop} (hstep : ∀ f, P f → P (cpupri_find q s.cp f))
    {f : FindPhase n} (hf : P f) (k : Nat) :
    ∃ f', run (watch q) ⟨s, f⟩ (List.replicate k .find) = some ⟨s, f'⟩ ∧ P f' := by
  induction k generalizing f with
  | zero => exact ⟨f, rfl, hf⟩
  | succ k ih => exact ih (hstep f hf)

/-- A search that is over stays over. -/
theorem run_done {ms : List (WatchMove n)} {r : Option (Fin n → Bool)} (hr : w.find = .done r)
    (hrun : run (watch q) w ms = some w') : w'.find = .done r := by
  refine run_invariant (I := fun w => w.find = .done r) ?_ hr hrun
  intro w m w' hw hstep
  cases m with
  | set m =>
    obtain ⟨s₁, -, rfl⟩ := Option.map_eq_some_iff.mp hstep
    exact hw
  | find =>
    cases hstep
    simp [hw, cpupri_find]

/-- The table may change under the search, but not the number of its reads. -/
theorem run_find_left {ms : List (WatchMove n)} (hf : w.find.Inside) (hrun : run (watch q) w ms = some w')
    (hbusy : ∀ r, w'.find ≠ .done r) : ms.countP WatchMove.isFind + w'.find.left ≤ w.find.left := by
  induction ms generalizing w with
  | nil =>
    cases hrun
    simp
  | cons m ms ih =>
    obtain ⟨w₁, hstep, hrest⟩ := Option.bind_eq_some_iff.mp hrun
    cases m with
    | set m =>
      obtain ⟨s₁, -, rfl⟩ := Option.map_eq_some_iff.mp hstep
      simpa [WatchMove.isFind] using ih (w := { w with tab := s₁ }) hf hrest
    | find =>
      cases hstep
      by_cases hdone : ∃ r, w.find = .done r
      · obtain ⟨r, hr⟩ := hdone
        exact absurd (run_done hr hrun) (hbusy r)
      · have hnot : ∀ r, w.find ≠ .done r := fun r hr => hdone ⟨r, hr⟩
        obtain ⟨hin, hless⟩ := find_left q w.tab.cp hf hnot
        have hlater := ih hin hrest
        simp only [List.countP_cons, WatchMove.isFind, if_true]
        dsimp only at hlater hless
        omega

end Ending

section Missing

variable {q : Query n} {w w' : Watch n} {s s' : State n} {cpu : Fin n} {idx pri : Nat}

/-- A call for the CPU takes it no further down, and not as far up as the task. -/
def SetPhase.Rises (pri : Nat) : SetPhase → Prop
  | .idle => True
  | .bug => False
  | .add_lock old new | .add_mask old new | .add_count old new | .add_bit old new | .add_unlock old new =>
    (∀ idx, old = some idx → idx ≤ new) ∧ new < pri
  | .del_lock _ new | .del_count _ new | .del_bit _ new | .del_mask _ new | .del_unlock _ new | .store new =>
    new.all (· < pri)

/-- The calls for the CPU that are made while the search is on take it no further down either. -/
def Rising (pri : Nat) (cpu : Fin n) (s : State n) : Move n → Prop
  | .cpupri_set c prio => c = cpu →
    ∃ new, convert_prio prio = some new ∧ (∀ idx, s.cp.cpu_to_pri cpu = some idx → idx ≤ new) ∧ new < pri
  | .go _ => True

/-- The CPU is at `idx`, below the task, and no call for it under way takes it down. -/
structure Climbs (pri : Nat) (cpu : Fin n) (idx : Nat) (s : State n) : Prop where
  place : s.place cpu = some idx
  below : idx < pri
  rises : (s.set cpu).Rises pri

/-- An access of such a call leaves the CPU where it is or takes it up. -/
theorem SetPhase.place_succ {ph : SetPhase} {rec : Option Nat} (hplace : ph.place rec = some idx)
    (hbelow : idx < pri) (hrises : ph.Rises pri) :
    ∃ idx', idx ≤ idx' ∧ idx' < pri ∧ ph.succ.place (ph.stored rec) = some idx' ∧ ph.succ.Rises pri := by
  cases ph with
  | idle => exact ⟨idx, le_refl _, hbelow, hplace, trivial⟩
  | bug => exact hrises.elim
  | add_unlock old new =>
    obtain ⟨hup, hnew⟩ := hrises
    obtain rfl : old = some idx := hplace
    exact ⟨new, hup idx rfl, hnew, rfl, by simpa [SetPhase.succ, added, SetPhase.Rises] using hnew⟩
  | store new => exact ⟨idx, le_refl _, hbelow, hplace, trivial⟩
  | _ => exact ⟨idx, le_refl _, hbelow, hplace, hrises⟩

theorem Climbs.next (hc : Climbs pri cpu idx s) {m : Move n} (hm : Rising pri cpu s m) (h : next s m = some s') :
    ∃ idx', idx ≤ idx' ∧ Climbs pri cpu idx' s' := by
  obtain ⟨hplace, hbelow, hrises⟩ := hc
  by_cases hcpu : cpu = m.cpu
  · cases m with
    | go c =>
      obtain rfl : cpu = c := hcpu
      obtain ⟨-, hset, hpri⟩ := go_eq h
      obtain ⟨idx', hle, hbelow', hplace', hrises'⟩ := SetPhase.place_succ hplace hbelow hrises
      refine ⟨idx', hle, ?_, hbelow', ?_⟩
      · rw [State.place, hset, hpri, update_self, update_self]
        exact hplace'
      · rw [hset, update_self]
        exact hrises'
    | cpupri_set c prio =>
      obtain rfl : cpu = c := hcpu
      obtain ⟨new, hnew, hup, hlt⟩ := hm rfl
      rw [sched_cpupri.next] at h
      split at h
      · rename_i hidle
        cases h
        rw [State.place, hidle] at hplace
        refine ⟨idx, le_refl _, ?_, hbelow, ?_⟩
        · rw [State.place]
          simp only [update_self, start_of_some hnew]
          split <;> exact hplace
        · simp only [update_self, start_of_some hnew]
          split
          · exact trivial
          · exact ⟨hup, hlt⟩
      · cases h
  · obtain ⟨hset, hpri⟩ := next_other h hcpu
    refine ⟨idx, le_refl _, ?_, hbelow, ?_⟩
    · rw [State.place, hset, hpri]
      exact hplace
    · rw [hset]
      exact hrises

/-- The search has not gone past the CPU. -/
def FindPhase.Ahead (cpu : Fin n) (place : Nat) : FindPhase n → Prop
  | .scan idx => idx ≤ place
  | .any idx k => idx < place ∨ (idx = place ∧ k ≤ cpu)
  | .copy idx k lowest_mask => idx < place ∨ (idx = place ∧ k ≤ cpu) ∨ (cpu.val < k ∧ lowest_mask cpu = true)
  | .done r => ∃ lowest_mask, r = some lowest_mask ∧ ∃ c, lowest_mask c = true

theorem FindPhase.Ahead.mono {f : FindPhase n} {idx' : Nat} (h : f.Ahead cpu idx) (hle : idx ≤ idx') :
    f.Ahead cpu idx' := by
  cases f with
  | scan i => exact Nat.le_trans h hle
  | any i k =>
    simp only [FindPhase.Ahead] at h ⊢
    omega
  | copy i k lowest_mask =>
    simp only [FindPhase.Ahead] at h ⊢
    obtain hlt | ⟨rfl, hk⟩ | hcopied := h
    · exact .inl (Nat.lt_of_lt_of_le hlt hle)
    · exact (Nat.lt_or_eq_of_le hle).imp_right fun heq => .inl ⟨heq, hk⟩
    · exact .inr (.inr hcopied)
  | done r => exact h

/-- The search does not go past the CPU. -/
theorem Inv.find_ahead (hi : Inv s) (hplace : s.place cpu = some idx) (hbelow : ∀ p ∈ q.task_pri, idx < p)
    (hsome : q.task_pri ≠ none) (hallowed : q.cpus_allowed cpu = true) {f : FindPhase n} (h : f.Ahead cpu idx) :
    (cpupri_find q s.cp f).Ahead cpu idx := by
  obtain ⟨hmask, hactive⟩ := hi.placed hplace
  have hrange := hi.place_lt hplace
  cases f with
  | scan i =>
    have hi : i ≤ idx := h
    rw [cpupri_find, if_neg (by omega)]
    split
    · rename_i hbit
      have hne : i ≠ idx := by
        rintro rfl
        simp [hactive] at hbit
      exact Nat.lt_of_le_of_ne hi hne
    · split
      · rename_i hstop
        cases hpri : q.task_pri with
        | none => exact absurd hpri hsome
        | some p =>
          have hlt := hbelow p hpri
          rw [hpri] at hstop
          simp at hstop
          omega
      · obtain hlt | rfl := Nat.lt_or_eq_of_le hi
        · exact .inl hlt
        · exact .inr ⟨rfl, Nat.zero_le _⟩
  | any i k =>
    rw [cpupri_find]
    split
    · rename_i hk
      split
      · obtain hlt | ⟨rfl, -⟩ := h
        · exact .inl hlt
        · exact .inr (.inl ⟨rfl, Nat.zero_le _⟩)
      · rename_i hnot
        obtain hlt | ⟨rfl, hle⟩ := h
        · exact .inl hlt
        · refine .inr ⟨rfl, Nat.lt_of_le_of_ne hle ?_⟩
          rintro rfl
          simp [hallowed, hmask] at hnot
    · obtain hlt | ⟨rfl, hle⟩ := h
      · exact hlt
      · have := cpu.isLt
        omega
  | copy i k lowest_mask =>
    rw [cpupri_find]
    split
    · rename_i hk
      obtain hlt | ⟨rfl, hle⟩ | ⟨hlt, hcopied⟩ := h
      · exact .inl hlt
      · obtain hlt | heq := Nat.lt_or_eq_of_le hle
        · exact .inr (.inl ⟨rfl, hlt⟩)
        · refine .inr (.inr ⟨by omega, ?_⟩)
          subst heq
          simp [hallowed, hmask]
      · refine .inr (.inr ⟨by omega, ?_⟩)
        rw [update_of_ne]
        · exact hcopied
        · rintro rfl
          exact Nat.lt_irrefl _ hlt
    · split
      · rename_i hfound
        exact ⟨lowest_mask, rfl, hfound⟩
      · rename_i hnone
        obtain hlt | ⟨rfl, hle⟩ | ⟨-, hcopied⟩ := h
        · exact hlt
        · have := cpu.isLt
          omega
        · exact absurd ⟨cpu, hcopied⟩ hnone
  | done r => exact h

/-- The search does not go past the CPU, whatever `cpupri_set` does meanwhile to the others, and to it as long
    as it only takes it up. -/
def Unmissed (pri : Nat) (cpu : Fin n) (w : Watch n) : Prop :=
  Inv w.tab ∧ ∃ idx, Climbs pri cpu idx w.tab ∧ w.find.Ahead cpu idx

theorem Unmissed.watch (hpri : q.task_pri = some pri) (hallowed : q.cpus_allowed cpu = true)
    (h : Unmissed pri cpu w) {m : WatchMove n} (hm : ∀ m', m = .set m' → Rising pri cpu w.tab m')
    (hstep : watch q w m = some w') : Unmissed pri cpu w' := by
  obtain ⟨hi, idx, hclimbs, hahead⟩ := h
  cases m with
  | set m =>
    obtain ⟨s₁, hnext, rfl⟩ := Option.map_eq_some_iff.mp hstep
    obtain ⟨idx', hle, hclimbs'⟩ := hclimbs.next (hm m rfl) hnext
    exact ⟨hi.next hnext, idx', hclimbs', hahead.mono hle⟩
  | find =>
    cases hstep
    refine ⟨hi, idx, hclimbs, hi.find_ahead hclimbs.place ?_ ?_ hallowed hahead⟩
    · intro p hp
      rw [hpri, Option.mem_def, Option.some_inj] at hp
      exact hp ▸ hclimbs.below
    · rw [hpri]
      exact Option.some_ne_none _

/-- `cpupri_find` takes no lock. Still it finds a CPU whenever one that the task may run on stays below the
    task, as long as that one is not taken further down while the search is on. -/
theorem cpupri_find_never_misses {ms : List (WatchMove n)} (hs : Reachable next cpupri_init s)
    (hclimbs : Climbs pri cpu idx s) (hpri : q.task_pri = some pri) (hallowed : q.cpus_allowed cpu = true)
    (hrising : Along (watch q) (fun w m => ∀ m', m = .set m' → Rising pri cpu w.tab m') ⟨s, .scan 0⟩ ms)
    (hrun : run (watch q) ⟨s, .scan 0⟩ ms = some w)
    (henough : CPUPRI_NR_PRIORITIES * (2 * n + 3) + 1 < ms.countP WatchMove.isFind) :
    ∃ lowest_mask, w.find = .done (some lowest_mask) ∧ ∃ c, lowest_mask c = true := by
  have hi : Inv s := hs.invariant cpupri_init_inv fun _ _ _ hi hnext => hi.next hnext
  have hstart : Unmissed pri cpu ⟨s, .scan 0⟩ := ⟨hi, idx, hclimbs, Nat.zero_le _⟩
  have halong : Along (watch q) (fun w m => ∀ m', m = .set m' → Rising pri cpu w.tab m') ⟨s, .scan 0⟩ (ms ++ []) := by
    rwa [List.append_nil]
  obtain ⟨⟨-, idx', -, hahead⟩, -⟩ := halong.run_append
    (fun w m w' hw hm hstep => Unmissed.watch hpri hallowed hw hm hstep) hstart hrun
  by_cases hdone : ∃ r, w.find = .done r
  · obtain ⟨r, hr⟩ := hdone
    rw [hr] at hahead
    obtain ⟨lowest_mask, rfl, hsome⟩ := hahead
    exact ⟨lowest_mask, hr, hsome⟩
  · have hleft := run_find_left (w := ⟨s, .scan 0⟩) trivial hrun fun r hr => hdone ⟨r, hr⟩
    simp only [FindPhase.left, Nat.sub_zero] at hleft
    omega

/-- Calls that are made for other CPUs only. -/
theorem along_others {ms : List (WatchMove n)} (h : ∀ prio, .set (.cpupri_set cpu prio) ∉ ms) (w : Watch n) :
    Along (watch q) (fun w m => ∀ m', m = .set m' → Rising pri cpu w.tab m') w ms := by
  induction ms generalizing w with
  | nil => exact trivial
  | cons m ms ih =>
    refine fun w' _ => ⟨fun m' hm => ?_, ih (fun prio hmem => h prio (List.mem_cons_of_mem _ hmem)) w'⟩
    cases m' with
    | go c => exact trivial
    | cpupri_set c prio =>
      rintro rfl
      exact absurd (hm ▸ List.mem_cons_self) (h prio)

/-- Both CPUs get a real-time task while the search is on, and leave the vector it has come to. -/
def pairMoves : List (WatchMove 2) :=
  let first : WatchMove 2 := .set (.go ⟨0, Nat.two_pos⟩)
  let second : WatchMove 2 := .set (.go ⟨1, Nat.one_lt_two⟩)
  [.set (.cpupri_set ⟨1, Nat.one_lt_two⟩ 50), .find, first, second, .find, first, second, .find] ++
    List.replicate 9 first ++ [.find] ++ List.replicate 9 second

def pairStart : WatchMove 2 := .set (.cpupri_set ⟨0, Nat.two_pos⟩ 80)

/-- The call for the first CPU takes it up, and there is no other one for it. -/
theorem pairMoves_rising :
    Along (watch pairQuery) (fun w m => ∀ m', m = .set m' → Rising 71 (⟨0, Nat.two_pos⟩ : Fin 2) w.tab m')
      ⟨pairTable, .scan 0⟩ (pairStart :: pairMoves ++ List.replicate 800 .find) := by
  refine fun w _ => ⟨fun m' hm => ?_, along_others (fun prio hmem => ?_) w⟩
  · obtain rfl : .cpupri_set ⟨0, Nat.two_pos⟩ 80 = m' := WatchMove.set.inj hm
    refine fun _ => ⟨21, by decide, fun idx hidx => ?_, by decide⟩
    obtain rfl : CPUPRI_NORMAL = idx := Option.some.inj hidx
    decide
  · obtain hmem | hmem := List.mem_append.mp hmem
    · simp [pairMoves] at hmem
    · exact absurd (List.eq_of_mem_replicate hmem) (by simp)

theorem cpupri_find_never_misses_sample : ∃ w : Watch 2, ∃ lowest_mask,
    run (watch pairQuery) ⟨pairTable, .scan 0⟩ (pairStart :: pairMoves ++ List.replicate 800 .find) = some w ∧
    w.find = .done (some lowest_mask) ∧ ∃ c, lowest_mask c = true := by
  have hsome : (run (watch pairQuery) ⟨pairTable, .scan 0⟩ (pairStart :: pairMoves)).isSome = true := by
    decide +kernel
  obtain ⟨w₁, hw₁⟩ := Option.isSome_iff_exists.mp hsome
  obtain ⟨f, hrest, -⟩ := run_finds (q := pairQuery) (s := w₁.tab) (P := fun _ => True) (f := w₁.find)
    (fun _ _ => trivial) trivial 800
  have hrun : run (watch pairQuery) ⟨pairTable, .scan 0⟩ (pairStart :: pairMoves ++ List.replicate 800 .find) =
      some ⟨w₁.tab, f⟩ := by
    rw [run_append, hw₁, Option.bind_some]
    exact hrest
  have hclimbs : Climbs 71 (⟨0, Nat.two_pos⟩ : Fin 2) CPUPRI_NORMAL pairTable := ⟨rfl, by decide, trivial⟩
  obtain ⟨lowest_mask, hdone, hfound⟩ := cpupri_find_never_misses pairTable_reachable hclimbs rfl rfl pairMoves_rising
    hrun (by rw [List.countP_append, List.countP_replicate]; decide)
  exact ⟨_, lowest_mask, hrun, hdone, hfound⟩

end Missing

section Finding

variable {q : Query n} {w w' : Watch n} {ws : List (Watch n)} {idx : Nat}

/-- The CPUs were seen in the vector `idx` at some moment, and the task may run on them. -/
def Seen (q : Query n) (ws : List (Watch n)) (idx : Nat) (lowest_mask : Fin n → Bool) : Prop :=
  ∀ c, lowest_mask c = true →
    q.cpus_allowed c = true ∧ ∃ w ∈ ws, (w.tab.cp.pri_to_cpu idx).mask c = true

/-- What a search can say of what it has found so far. -/
def FindPhase.Sound (q : Query n) (ws : List (Watch n)) : FindPhase n → Prop
  | .any idx _ => q.task_pri.any (idx < ·)
  | .copy idx _ lowest_mask => q.task_pri.any (idx < ·) ∧ Seen q ws idx lowest_mask
  | .done (some lowest_mask) =>
    (∃ c, lowest_mask c = true) ∧ ∃ idx, q.task_pri.any (idx < ·) ∧ Seen q ws idx lowest_mask
  | _ => True

theorem Seen.mono {lowest_mask : Fin n → Bool} (h : Seen q ws idx lowest_mask) (ws' : List (Watch n)) :
    Seen q (ws ++ ws') idx lowest_mask := by
  intro c hc
  obtain ⟨hallowed, w, hw, hmask⟩ := h c hc
  exact ⟨hallowed, w, List.mem_append_left _ hw, hmask⟩

theorem FindPhase.Sound.mono {f : FindPhase n} (h : f.Sound q ws) (ws' : List (Watch n)) : f.Sound q (ws ++ ws') := by
  cases f with
  | scan idx => exact trivial
  | any idx k => exact h
  | copy idx k lowest_mask => exact ⟨h.1, h.2.mono ws'⟩
  | done r =>
    cases r with
    | none => exact trivial
    | some lowest_mask =>
      obtain ⟨hsome, idx, hbelow, hseen⟩ := h
      exact ⟨hsome, idx, hbelow, hseen.mono ws'⟩

theorem find_sound (h : w.find.Sound q ws) : (cpupri_find q w.tab.cp w.find).Sound q (ws ++ [w]) := by
  have hlater := h.mono [w]
  revert h hlater
  cases w.find with
  | scan idx =>
    intro _ _
    rw [cpupri_find]
    split
    · exact trivial
    · split
      · exact trivial
      · split
        · exact trivial
        · rename_i hstop
          show q.task_pri.any (idx < ·)
          cases hpri : q.task_pri with
          | none =>
            rw [hpri] at hstop
            exact absurd rfl hstop
          | some p =>
            rw [hpri] at hstop
            simpa using hstop
  | any idx k =>
    intro _ hlater
    rw [cpupri_find]
    split
    · split
      · exact ⟨hlater, fun c hc => Bool.noConfusion hc⟩
      · exact hlater
    · exact trivial
  | copy idx k lowest_mask =>
    intro _ hlater
    rw [cpupri_find]
    split
    · rename_i hk
      refine ⟨hlater.1, fun c hc => ?_⟩
      by_cases hck : c = ⟨k, hk⟩
      · rw [hck, update_self, Bool.and_eq_true] at hc
        exact ⟨hck ▸ hc.1, w, List.mem_append_right _ List.mem_cons_self, hck ▸ hc.2⟩
      · rw [update_of_ne hck] at hc
        exact hlater.2 c hc
    · split
      · rename_i hfound
        exact ⟨hfound, idx, hlater⟩
      · exact trivial
  | done r => exact fun _ hlater => hlater

theorem sound_step {m : WatchMove n} (h : w.find.Sound q ws) (hstep : watch q w m = some w') :
    w'.find.Sound q (ws ++ [w]) := by
  cases m with
  | set m =>
    obtain ⟨s₁, -, rfl⟩ := Option.map_eq_some_iff.mp hstep
    exact h.mono [w]
  | find =>
    cases hstep
    exact find_sound h

/-- What `cpupri_find` returns is not made up, whatever happens to the table meanwhile: it has found a CPU, and
    every CPU in the mask is one the task may run on and was seen at one level below the task. -/
theorem cpupri_find_sound {ms : List (WatchMove n)} {s : State n} {lowest_mask : Fin n → Bool}
    (hrun : run (watch q) ⟨s, .scan 0⟩ ms = some w) (hdone : w.find = .done (some lowest_mask)) :
    (∃ c, lowest_mask c = true) ∧ ∃ idx, q.task_pri.any (idx < ·) ∧
      ∀ c, lowest_mask c = true → q.cpus_allowed c = true ∧
        ∃ w₁ ∈ trace (watch q) (fun w _ => some w) ⟨s, .scan 0⟩ ms, (w₁.tab.cp.pri_to_cpu idx).mask c = true := by
  have hstart : (⟨s, .scan 0⟩ : Watch n).find.Sound q [] := trivial
  have hsound := trace_invariant (fun w _ => some w) (I := fun (w : Watch n) ws => w.find.Sound q ws)
    (fun w ws m w' hw hstep => sound_step hw hstep) hstart hrun
  rw [hdone] at hsound
  exact hsound

theorem cpupri_find_sound_sample : ∃ w : Watch 2, ∃ lowest_mask,
    run (watch pairQuery) ⟨pairTable, .scan 0⟩ (pairStart :: pairMoves ++ List.replicate 27 .find) = some w ∧
    w.find = .done (some lowest_mask) ∧ (∃ c, lowest_mask c = true) ∧
    ∃ idx, pairQuery.task_pri.any (idx < ·) ∧ ∀ c, lowest_mask c = true → pairQuery.cpus_allowed c = true ∧
      ∃ w₁ ∈ trace (watch pairQuery) (fun w _ => some w) ⟨pairTable, .scan 0⟩
        (pairStart :: pairMoves ++ List.replicate 27 .find), (w₁.tab.cp.pri_to_cpu idx).mask c = true := by
  obtain ⟨w, lowest_mask, hrun, hdone⟩ : ∃ w : Watch 2, ∃ lowest_mask,
      run (watch pairQuery) ⟨pairTable, .scan 0⟩ (pairStart :: pairMoves ++ List.replicate 27 .find) = some w ∧
      w.find = .done (some lowest_mask) := ⟨_, _, rfl, rfl⟩
  obtain ⟨hsome, idx, hbelow, hseen⟩ := cpupri_find_sound hrun hdone
  exact ⟨w, lowest_mask, hrun, hdone, hsome, idx, hbelow, hseen⟩

end Finding

end cs444.sched_cpupri
