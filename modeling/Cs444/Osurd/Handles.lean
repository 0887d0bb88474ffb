import Cs444.Osurd.Media

open interleaving

namespace cs444.osurd

variable {tfm : crypto_cipher} {d d' : Drive} {log : List Effect}

/-- Data is zeroed only by an open that finds no handle, after the timer has expired; no media
    change is flagged while a handle is open, and no pending timer is armed. -/
structure LogKept (log : List Effect) : Prop where
  zeroed : ∀ es, .zeroed :: es <:+ log →
    outstanding es = 0 ∧ expiredSinceRelease es = true ∧ .opened :: .zeroed :: es <:+ log
  flagged : ∀ es, .flagged :: es <:+ log → outstanding es = 0
  armed : ∀ pending, .armed pending ∈ log → pending = false

/-- All that was done is as it should be, and a handle sees neither a media change nor a pending
    timer. -/
structure Kept (d : Drive) : Prop where
  log : LogKept d.log
  media_change : 0 < outstanding d.log → d.media_change = 0
  pending : d.pending = true → outstanding d.log = 0

/-- A release that brings `users` to zero is that of the last handle. -/
def LastIfZero (d : Drive) (a : Operation) : Prop :=
  a = .release → outstanding d.log % 2 ^ 16 = 1 → outstanding d.log = 1

section Log

theorem logKept_nil : LogKept [] where
  zeroed _ h := absurd (List.suffix_nil.mp h) (by simp)
  flagged _ h := absurd (List.suffix_nil.mp h) (by simp)
  armed _ h := absurd h (by simp)

theorem LogKept.cons (h : LogKept log) {e : Effect} (hzeroed : e ≠ .zeroed)
    (hflagged : e = .flagged → outstanding log = 0) (harmed : ∀ pending, e = .armed pending → pending = false) :
    LogKept (e :: log) := by
  refine ⟨fun es hes => ?_, fun es hes => ?_, fun pending hmem => ?_⟩
  · obtain heq | hes := List.suffix_cons_iff.mp hes
    · exact absurd (List.cons.inj heq).1.symm hzeroed
    · obtain ⟨hnone, hexpired, hopened⟩ := h.zeroed es hes
      exact ⟨hnone, hexpired, hopened.trans (List.suffix_cons _ _)⟩
  · obtain heq | hes := List.suffix_cons_iff.mp hes
    · obtain ⟨hhead, rfl⟩ := List.cons.inj heq
      exact hflagged hhead.symm
    · exact h.flagged es hes
  · obtain heq | hmem := List.mem_cons.mp hmem
    · exact harmed pending heq.symm
    · exact h.armed pending hmem

/-- The open that loses the data. -/
theorem LogKept.opened_zeroed (h : LogKept log) (hnone : outstanding log = 0)
    (hexpired : expiredSinceRelease log = true) : LogKept (.opened :: .zeroed :: log) := by
  refine ⟨fun es hes => ?_, fun es hes => ?_, fun pending hmem => h.armed pending (by simpa using hmem)⟩
  · obtain heq | hes := List.suffix_cons_iff.mp hes
    · cases heq
    · obtain heq | hes := List.suffix_cons_iff.mp hes
      · obtain ⟨-, rfl⟩ := List.cons.inj heq
        exact ⟨hnone, hexpired, List.suffix_refl _⟩
      · obtain ⟨hnone', hexpired', hopened⟩ := h.zeroed es hes
        exact ⟨hnone', hexpired', hopened.trans ⟨[.opened, .zeroed], rfl⟩⟩
  · obtain heq | hes := List.suffix_cons_iff.mp hes
    · cases heq
    · obtain heq | hes := List.suffix_cons_iff.mp hes
      · cases heq
      · exact h.flagged es hes

end Log

section Users

theorem ofNat_eq_zero {n : Nat} : BitVec.ofNat 16 n = 0 ↔ n % 2 ^ 16 = 0 := by
  rw [← BitVec.toNat_inj]
  simp

theorem ofNat_succ (n : Nat) : BitVec.ofNat 16 n + 1 = BitVec.ofNat 16 (n + 1) := by
  rw [← BitVec.toNat_inj]
  simp

theorem ofNat_pred {n : Nat} (h : 0 < n) : BitVec.ofNat 16 n - 1 = BitVec.ofNat 16 (n - 1) := by
  obtain ⟨k, rfl⟩ := Nat.exists_eq_succ_of_ne_zero (Nat.ne_of_gt h)
  rw [Nat.succ_eq_add_one, ← ofNat_succ, Nat.add_sub_cancel, BitVec.add_sub_cancel]

/-- `users` counts the open handles as far as a `short` does, and a reported change is of a drive
    that nobody has opened since the timer expired. -/
structure Counted (d : Drive) : Prop where
  users : d.users = BitVec.ofNat 16 (outstanding d.log)
  changed : d.media_change ≠ 0 → outstanding d.log = 0 ∧ expiredSinceRelease d.log = true
  kept : Kept d

theorem counted_setup_device (m : Machine) : Counted (setup_device m) :=
  ⟨rfl, fun h => absurd rfl h, logKept_nil, fun _ => rfl, fun h => absurd h (by simp [setup_device])⟩

theorem Counted.idle (h : Counted d) (hsome : 0 < outstanding d.log) : d.pending = false := by
  by_contra hpending
  exact absurd (h.kept.pending (by simpa using hpending)) (Nat.ne_of_gt hsome)

end Users

section Operations

theorem osurd_open_quiet (h : d.media_change = 0) :
    osurd_open d = { d with pending := false, users := d.users + 1, log := .opened :: d.log } := by
  simp [osurd_open, del_timer_sync, check_disk_change, osurd_media_changed, h, Drive.note]

theorem osurd_open_changed (h : d.media_change ≠ 0) (husers : d.users = 0) :
    osurd_open d = { d with
      machine := memset_data d.machine, users := d.users + 1, media_change := 0, pending := false
      log := .opened :: .zeroed :: d.log } := by
  have hchanged : d.media_change ≠ 0#16 := h
  simp [osurd_open, del_timer_sync, check_disk_change, osurd_media_changed, osurd_revalidate, Drive.note, husers,
    hchanged]

theorem osurd_release_eq (d : Drive) : osurd_release d =
    if d.users - 1 = 0 then
      { d with users := d.users - 1, pending := true, log := .armed d.pending :: .released :: d.log }
    else { d with users := d.users - 1, log := .released :: d.log } := by
  simp only [osurd_release, add_timer, Drive.note]

theorem Counted.osurd_open (h : Counted d) : Counted (osurd_open d) := by
  have husers : d.users + 1 = BitVec.ofNat 16 (outstanding d.log + 1) := by rw [h.users, ofNat_succ]
  by_cases hquiet : d.media_change = 0
  · rw [osurd_open_quiet hquiet]
    refine ⟨husers, fun hne => absurd hquiet hne, h.kept.log.cons (by simp) (by simp) (by simp), fun _ => hquiet,
      fun hpending => ?_⟩
    cases hpending
  · obtain ⟨hnone, hexpired⟩ := h.changed hquiet
    have hzero : d.users = 0 := by
      rw [h.users, hnone]
      rfl
    rw [osurd_open_changed hquiet hzero]
    refine ⟨husers, fun hne => absurd rfl hne, h.kept.log.opened_zeroed hnone hexpired, fun _ => rfl,
      fun hpending => ?_⟩
    cases hpending

theorem Counted.osurd_release (h : Counted d) (hsome : 0 < outstanding d.log)
    (hlast : outstanding d.log % 2 ^ 16 = 1 → outstanding d.log = 1) : Counted (osurd_release d) := by
  have hquiet : d.media_change = 0 := h.kept.media_change hsome
  have husers : d.users - 1 = BitVec.ofNat 16 (outstanding d.log - 1) := by rw [h.users, ofNat_pred hsome]
  have hreleased : LogKept (.released :: d.log) := h.kept.log.cons (by simp) (by simp) (by simp)
  rw [osurd_release_eq]
  split
  · rename_i hzero
    have hone : outstanding d.log = 1 := by
      rw [husers, ofNat_eq_zero] at hzero
      exact hlast (by omega)
    refine ⟨husers, fun hne => absurd hquiet hne, hreleased.cons (by simp) (by simp) fun pending heq => ?_,
      fun _ => hquiet, fun _ => ?_⟩
    · rw [← Effect.armed.inj heq]
      exact h.idle hsome
    · simp only [outstanding, hone]
  · refine ⟨husers, fun hne => absurd hquiet hne, hreleased, fun _ => hquiet, fun hpending => ?_⟩
    simp [h.idle hsome] at hpending

theorem Counted.expire (h : Counted d) (hpending : d.pending = true) :
    Counted (osurd_invalidate { d.note .expired with pending := false }) := by
  have hnone := h.kept.pending hpending
  have hzero : d.users = 0 := by
    rw [h.users, hnone]
    rfl
  have hinvalidate : osurd_invalidate { d.note .expired with pending := false } =
      { d with media_change := 1, pending := false, log := .flagged :: .expired :: d.log } := by
    simp [osurd_invalidate, Drive.note, hzero]
  have hexpired : LogKept (.expired :: d.log) := h.kept.log.cons (by simp) (by simp) (by simp)
  rw [hinvalidate]
  refine ⟨h.users, fun _ => ⟨hnone, rfl⟩, hexpired.cons (by simp) (fun _ => hnone) (by simp), fun hsome => ?_,
    fun _ => hnone⟩
  exact absurd hnone (Nat.ne_of_gt hsome)

theorem Counted.operate {a : Operation} (h : Counted d) (hlast : LastIfZero d a)
    (hnext : operate tfm d a = some d') : Counted d' := by
  cases a with simp only [osurd.operate] at hnext
  | «open» =>
    cases hnext
    exact h.osurd_open
  | release =>
    split at hnext
    · rename_i hsome
      cases hnext
      exact h.osurd_release hsome (hlast rfl)
    · cases hnext
  | expire =>
    split at hnext
    · rename_i hpending
      cases hnext
      exact h.expire hpending
    · cases hnext
  | transfer sector nsect buffer write =>
    cases hnext
    exact ⟨h.users, h.changed, h.kept.log, h.kept.media_change, h.kept.pending⟩

/-- Any other release that brings `users` to zero arms the timer under the handles left. -/
theorem Counted.not_kept {a : Operation} (h : Counted d) (hnot : ¬ LastIfZero d a)
    (hnext : osurd.operate tfm d a = some d') : ¬ Kept d' := by
  obtain ⟨rfl, hlast⟩ := Classical.not_imp.mp hnot
  obtain ⟨hwrapped, hmore⟩ := Classical.not_imp.mp hlast
  have hsome : 0 < outstanding d.log := by omega
  have hzero : d.users - 1 = 0 := by
    rw [h.users, ofNat_pred hsome, ofNat_eq_zero]
    omega
  rw [osurd.operate, if_pos hsome, osurd_release_eq, if_pos hzero] at hnext
  cases hnext
  intro hkept
  have hnone := hkept.pending rfl
  simp only [outstanding] at hnone
  omega

end Operations

/-- A schedule of operations keeps the data of the open handles just when no release but that of
    the last handle brings `users` to zero. -/
theorem kept_iff_last (tfm : crypto_cipher) (m : Machine) (as : List Operation) :
    Visits (operate tfm) Kept (setup_device m) as ↔ Along (operate tfm) LastIfZero (setup_device m) as :=
  visits_iff_along (fun _ h => h.kept) (fun _ _ _ h hlast hnext => h.operate hlast hnext)
    (fun _ _ _ h hnot hnext => h.not_kept hnot hnext) (counted_setup_device m) as

section Wrapped

/-- After opens alone. -/
theorem run_opens (tfm : crypto_cipher) (m : Machine) (n : Nat) :
    run (operate tfm) (setup_device m) (List.replicate n .open) = some { setup_device m with
      users := BitVec.ofNat 16 n, log := List.replicate n .opened } := by
  suffices h : ∀ k, run (operate tfm) { setup_device m with
      users := BitVec.ofNat 16 k, log := List.replicate k .opened } (List.replicate n .open) =
        some { setup_device m with users := BitVec.ofNat 16 (k + n), log := List.replicate (k + n) .opened } by
    have hfirst := h 0
    rw [Nat.zero_add] at hfirst
    exact hfirst
  induction n with
  | zero => exact fun _ => rfl
  | succ n ih =>
    intro k
    rw [List.replicate_succ, run, operate, osurd_open_quiet rfl]
    dsimp only [Option.bind_some]
    rw [ofNat_succ, ← List.replicate_succ, Nat.add_comm n 1, ← Nat.add_assoc]
    exact ih (k + 1)

theorem outstanding_replicate (n : Nat) : outstanding (List.replicate n .opened) = n := by
  induction n with
  | zero => rfl
  | succ n ih => rw [List.replicate_succ, outstanding, ih]

/-- A release that brings `users` to zero, the timer, and an open. -/
theorem run_release_expire_open (hquiet : d.users = 1) (hsome : 0 < outstanding d.log) :
    run (operate tfm) d [.release, .expire, .open] = some { d with
      machine := memset_data d.machine, media_change := 0, pending := false
      log := .opened :: .zeroed :: .flagged :: .expired :: .armed d.pending :: .released :: d.log } := by
  have hrelease : operate tfm d .release = some { d with
      users := 0, pending := true, log := .armed d.pending :: .released :: d.log } := by
    rw [operate, if_pos hsome, osurd_release_eq, hquiet]
    rfl
  rw [run, hrelease, Option.bind_some, run, operate, if_pos rfl, Option.bind_some, run, operate]
  have hchanged : osurd_invalidate { Drive.note { d with
      users := 0, pending := true, log := .armed d.pending :: .released :: d.log } .expired with pending := false } =
      { d with
        users := 0, media_change := 1, pending := false
        log := .flagged :: .expired :: .armed d.pending :: .released :: d.log } := rfl
  rw [hchanged, osurd_open_changed (by simp) rfl, hquiet]
  rfl

/-- Neither the timer nor what it does to the device closes a handle. -/
theorem outstanding_expired (pending : Bool) (es : List Effect) :
    outstanding (.flagged :: .expired :: .armed pending :: .released :: es) = outstanding es - 1 := rfl

/-- One handle more than a `short` can count is opened, one is released, and the timer expires
    before the next open. -/
def wrapAround : List Operation :=
  List.replicate 65537 Operation.open ++ [Operation.release, Operation.expire, Operation.open]

/-- A device of two sectors. -/
def filled : Machine where
  dev := ⟨1024, by decide, fun _ => 1⟩
  mem _ := 0
  completed := []

/-- The data is zeroed under 65536 open handles. -/
theorem zeroed_under_handles :
    ∃ d es, run (operate ⟨id, id⟩) (setup_device filled) wrapAround = some d ∧ d.log = .opened :: .zeroed :: es ∧
      outstanding es = 65536 ∧ d.machine.dev.data 0 = 0 ∧ ¬ Kept d := by
  have hcount : outstanding (List.replicate 65537 .opened) = 65537 := outstanding_replicate 65537
  have hrun := run_append (operate ⟨id, id⟩) (setup_device filled) (List.replicate 65537 .open)
    [.release, .expire, .open]
  rw [run_opens, Option.bind_some, run_release_expire_open (by simp) (by rw [hcount]; exact Nat.succ_pos _)] at hrun
  have hes : outstanding (.flagged :: .expired :: .armed false :: .released :: List.replicate 65537 .opened) = 65536 := by
    rw [outstanding_expired, hcount]
  refine ⟨_, _, hrun, rfl, hes, rfl, fun hkept => ?_⟩
  have hnone := (hkept.log.zeroed _ (List.suffix_cons _ _)).1
  exact absurd (hes.symm.trans hnone) (by simp)

end Wrapped

end cs444.osurd
