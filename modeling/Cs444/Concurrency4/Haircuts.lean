import Cs444.Concurrency4.Barber
import Mathlib.Data.List.FinRange

open interleaving

open Function

namespace cs444.concurrency4

variable {num_chairs N : Nat} {s s' : State N}

/-- `end_of_day` has been set. -/
def Main.closed : Main → Bool
  | .nap_post | .join_barber | .exited => true
  | .join_customer _ | .end_of_day => false

/-- The closing `sem_post(&nap_time)` has been made. -/
def Main.posted : Main → Bool
  | .join_barber | .exited => true
  | .join_customer _ | .end_of_day | .nap_post => false

/-- The customer with this number has been joined. -/
def Main.joined : Main → Nat → Bool
  | .join_customer i, num => decide (num < i)
  | _, _ => true

/-- Woken up, with the haircut still to be signalled. -/
def Barber.awake : Barber → Bool
  | .test | .cutting | .progress_post => true
  | .loop | .nap_wait | .closing | .returned => false

/-- In a haircut. -/
def Barber.started : Barber → Bool
  | .cutting | .progress_post => true
  | .loop | .nap_wait | .test | .closing | .returned => false

/-- On the end-of-day branch, or out of the loop. -/
def Barber.leaving : Barber → Bool
  | .closing | .returned => true
  | .loop | .nap_wait | .test | .cutting | .progress_post => false

/-- Between `sem_wait(&waiting_room)` and `sem_post(&waiting_room)`. -/
def Customer.inRoom : Customer → Bool
  | .chair_wait | .room_post => true
  | .room_wait | .nap_post | .progress_wait | .chair_post | .returned => false

/-- Between `sem_wait(&barber_chair)` and `sem_post(&barber_chair)`. -/
def Customer.inChair : Customer → Bool
  | .room_post | .nap_post | .progress_wait | .chair_post => true
  | .room_wait | .chair_wait | .returned => false

/-- Waits, or is about to wait, for `in_progress`. -/
def Customer.waits : Customer → Bool
  | .progress_wait => true
  | .room_wait | .chair_wait | .room_post | .nap_post | .chair_post | .returned => false

/-- Has waited for `in_progress`. -/
def Customer.served : Customer → Bool
  | .chair_post | .returned => true
  | .room_wait | .chair_wait | .room_post | .nap_post | .progress_wait => false

/-- Seats are either free or taken, and before closing time every customer that waits for the end of
    a haircut has a wake-up call, the barber or an `in_progress` on its way. -/
structure Inv (num_chairs : Nat) (s : State N) : Prop where
  room : s.waiting_room + count (fun num => (s.customer num).inRoom) = num_chairs
  chair : s.barber_chair + count (fun num => (s.customer num).inChair) = 1
  wakes : s.end_of_day = false →
    s.nap_time + s.barber.awake.toNat + s.in_progress = count fun num => (s.customer num).waits
  flag : s.end_of_day = s.main.closed
  stays : s.end_of_day = false → s.barber.leaving = false
  joined : ∀ num : Fin N, s.main.joined num = true → s.customer num = .returned
  quiet : s.end_of_day = true → s.in_progress = 0 ∧ s.barber.started = false
  woken : s.main.posted = true → s.barber = .nap_wait → 0 < s.nap_time

theorem inv_initial (num_chairs N : Nat) : Inv num_chairs (initial num_chairs N) where
  room := by simp [initial, count, Customer.inRoom]
  chair := by simp [initial, count, Customer.inChair]
  wakes _ := by simp [initial, count, Customer.waits, Barber.awake]
  flag := rfl
  stays _ := rfl
  joined num h := absurd h (by simp [initial, Main.joined])
  quiet h := absurd h (by simp [initial])
  woken h := absurd h (by simp [initial, Main.posted])

theorem Main.joined_of_closed {p : Main} (h : p.closed = true) (num : Nat) : p.joined num = true := by
  cases p with
  | join_customer _ | end_of_day => simp [Main.closed] at h
  | nap_post | join_barber | exited => rfl

theorem Main.closed_of_posted {p : Main} (h : p.posted = true) : p.closed = true := by
  cases p with
  | join_customer _ | end_of_day | nap_post => simp [Main.posted] at h
  | join_barber | exited => rfl

/-- The shop closes after the last customer. -/
theorem Inv.returned_of_closed (h : Inv num_chairs s) (hclosed : s.end_of_day = true) (num : Fin N) :
    s.customer num = .returned :=
  h.joined num (Main.joined_of_closed (h.flag ▸ hclosed) num)

theorem Inv.open_of_live (h : Inv num_chairs s) {num : Fin N} (hlive : s.customer num ≠ .returned) :
    s.end_of_day = false := by
  cases hclosed : s.end_of_day with
  | false => rfl
  | true => exact absurd (h.returned_of_closed hclosed num) hlive

theorem Customer.waits_iff {c : Customer} : c.waits = true ↔ c = .progress_wait := by
  cases c <;> simp [Customer.waits]

theorem Barber.awake_of_started {b : Barber} (h : b.started = true) : b.awake = true := by
  cases b <;> simp_all [Barber.started, Barber.awake]

/-- There is one chair, so that at most one customer waits. -/
theorem Inv.waits_le_one (h : Inv num_chairs s) : count (fun num => (s.customer num).waits) ≤ 1 := by
  have hmono : count (fun num => (s.customer num).waits) ≤ count fun num => (s.customer num).inChair := by
    refine count_mono fun num hwaits => ?_
    rw [Customer.waits_iff.mp hwaits]
    rfl
  have hchair := h.chair
  omega

section Moves

/-- A customer moves on, with what it takes from the semaphores and puts there. -/
theorem Inv.customer_move (h : Inv num_chairs s) {num : Fin N} {p : Customer} {w c g t : Nat}
    (hlive : s.customer num ≠ .returned)
    (hroom : w + p.inRoom.toNat = s.waiting_room + (s.customer num).inRoom.toNat)
    (hchair : c + p.inChair.toNat = s.barber_chair + (s.customer num).inChair.toNat)
    (hwakes : t + g + (s.customer num).waits.toNat = s.nap_time + s.in_progress + p.waits.toNat) :
    Inv num_chairs { s with
      waiting_room := w, barber_chair := c, in_progress := g, nap_time := t
      customer := update s.customer num p } := by
  have hopen := h.open_of_live hlive
  have hmain : s.main.closed = false := h.flag ▸ hopen
  have hinRoom := count_update s.customer num p Customer.inRoom
  have hinChair := count_update s.customer num p Customer.inChair
  have hwaits := count_update s.customer num p Customer.waits
  have hpermits := h.room
  have hseat := h.chair
  have hcalls := h.wakes hopen
  refine ⟨?_, ?_, fun _ => ?_, h.flag, h.stays, fun num' hjoined => ?_, fun hclosed => ?_, fun hposted => ?_⟩
  · dsimp only
    omega
  · dsimp only
    omega
  · dsimp only
    omega
  · have hreturned := h.joined num' hjoined
    have hne : num' ≠ num := fun heq => hlive (heq ▸ hreturned)
    dsimp only
    rw [update_of_ne hne]
    exact hreturned
  · simp [hopen] at hclosed
  · exact absurd (Main.closed_of_posted hposted) (by simp [hmain])

theorem Inv.customer_next (h : Inv num_chairs s) {num : Fin N} (hnext : customer_next s num = some s') :
    Inv num_chairs s' := by
  cases hp : s.customer num with simp only [concurrency4.customer_next, hp] at hnext
  | room_wait | chair_wait | progress_wait =>
    split at hnext
    · cases hnext
      refine h.customer_move (by simp [hp]) ?_ ?_ ?_
      all_goals simp only [hp, Customer.inRoom, Customer.inChair, Customer.waits, Bool.toNat_true, Bool.toNat_false]
      all_goals omega
    · cases hnext
  | room_post | nap_post | chair_post =>
    cases hnext
    refine h.customer_move (by simp [hp]) ?_ ?_ ?_
    all_goals simp only [hp, Customer.inRoom, Customer.inChair, Customer.waits, Bool.toNat_true, Bool.toNat_false]
    all_goals omega
  | returned => cases hnext

/-- The barber moves on. Before closing time the calls it takes and the haircuts it signals balance. -/
theorem Inv.barber_move (h : Inv num_chairs s) {p : Barber} {g t : Nat}
    (hwakes : s.end_of_day = false →
      t + p.awake.toNat + g = s.nap_time + s.barber.awake.toNat + s.in_progress ∧ p.leaving = false)
    (hquiet : s.end_of_day = true → g = 0 ∧ p.started = false ∧ p ≠ .nap_wait) :
    Inv num_chairs { s with in_progress := g, nap_time := t, barber := p } := by
  refine ⟨h.room, h.chair, fun hopen => ?_, h.flag, fun hopen => (hwakes hopen).2, h.joined, fun hclosed => ?_,
    fun hposted hnap => ?_⟩
  · exact (hwakes hopen).1.trans (h.wakes hopen)
  · obtain ⟨hg, hstarted, -⟩ := hquiet hclosed
    exact ⟨hg, hstarted⟩
  · have hclosed : s.end_of_day = true := h.flag.trans (Main.closed_of_posted hposted)
    exact absurd hnap (hquiet hclosed).2.2

theorem Inv.barber_next (h : Inv num_chairs s) (hnext : barber_next s = some s') : Inv num_chairs s' := by
  cases hp : s.barber with simp only [concurrency4.barber_next, hp] at hnext
  | loop =>
    cases hnext
    refine h.barber_move (fun hopen => ?_) fun hclosed => ?_
    · simp [hopen, hp, Barber.awake, Barber.leaving]
    · exact ⟨(h.quiet hclosed).1, by simp [hclosed, Barber.started]⟩
  | nap_wait =>
    split at hnext
    · cases hnext
      refine h.barber_move (fun _ => ?_) fun hclosed => ⟨(h.quiet hclosed).1, rfl, by simp⟩
      simp only [hp, Barber.awake, Barber.leaving, Bool.toNat_true, Bool.toNat_false, and_true]
      omega
    · cases hnext
  | test =>
    cases hnext
    refine h.barber_move (fun hopen => ?_) fun hclosed => ?_
    · simp [hopen, hp, Barber.awake, Barber.leaving]
    · exact ⟨(h.quiet hclosed).1, by simp [hclosed, Barber.started]⟩
  | cutting | progress_post =>
    cases hnext
    refine h.barber_move (fun _ => ?_) fun hclosed => ?_
    · simp [hp, Barber.awake, Barber.leaving, Nat.add_comm, Nat.add_left_comm]
    · exact absurd (h.quiet hclosed).2 (by simp [hp, Barber.started])
  | closing =>
    cases hnext
    refine h.barber_move (fun hopen => ?_) fun hclosed => ⟨(h.quiet hclosed).1, rfl, by simp⟩
    exact absurd (h.stays hopen) (by simp [hp, Barber.leaving])
  | returned => cases hnext

/-- Closing time: nobody waits for a haircut, so that no call and no signal is left. -/
theorem Inv.close (h : Inv num_chairs s) (hp : s.main = .end_of_day) :
    Inv num_chairs { s with end_of_day := true, main := .nap_post } := by
  have hopen : s.end_of_day = false := by rw [h.flag, hp]; rfl
  have hreturned : ∀ num, s.customer num = .returned := fun num => h.joined num (by rw [hp]; rfl)
  have hnone : count (fun num => (s.customer num).waits) = 0 := by
    simp [count, hreturned, Customer.waits]
  have hcalls := h.wakes hopen
  have hawake : s.barber.awake = false := by
    cases hb : s.barber.awake with
    | false => rfl
    | true => rw [hb, Bool.toNat_true] at hcalls; omega
  refine ⟨h.room, h.chair, fun hfalse => ?_, rfl, fun hfalse => ?_, fun num _ => hreturned num, fun _ => ⟨?_, ?_⟩,
    fun hposted => ?_⟩
  · cases hfalse
  · cases hfalse
  · dsimp only
    omega
  · dsimp only
    cases hb : s.barber <;> simp_all [Barber.awake, Barber.started]
  · simp [Main.posted] at hposted

theorem Inv.main_next (h : Inv num_chairs s) (hnext : main_next s = some s') : Inv num_chairs s' := by
  have hflag := h.flag
  have hjoined := h.joined
  cases hp : s.main with simp only [concurrency4.main_next, hp] at hnext
  | join_customer i =>
    rw [hp] at hflag hjoined
    split at hnext
    · rename_i hi
      split at hnext
      · rename_i hreturned
        cases hnext
        refine ⟨h.room, h.chair, h.wakes, hflag, h.stays, fun num hnum => ?_, h.quiet, fun hposted => ?_⟩
        · by_cases heq : num.val = i
          · obtain rfl : num = ⟨i, hi⟩ := Fin.ext heq
            exact hreturned
          · have hlt : num.val < i + 1 := by simpa [Main.joined] using hnum
            exact hjoined num (by simp only [Main.joined, decide_eq_true_eq]; omega)
        · simp [Main.posted] at hposted
      · cases hnext
    · rename_i hi
      cases hnext
      refine ⟨h.room, h.chair, h.wakes, hflag, h.stays, fun num _ => ?_, h.quiet, fun hposted => ?_⟩
      · exact hjoined num (by simp only [Main.joined, decide_eq_true_eq]; omega)
      · simp [Main.posted] at hposted
  | end_of_day =>
    cases hnext
    exact h.close hp
  | nap_post =>
    rw [hp] at hflag hjoined
    cases hnext
    refine ⟨h.room, h.chair, fun hopen => ?_, hflag, h.stays, hjoined, h.quiet, fun _ _ => Nat.succ_pos _⟩
    simp [hflag, Main.closed] at hopen
  | join_barber =>
    rw [hp] at hflag hjoined
    split at hnext
    · rename_i hreturned
      cases hnext
      refine ⟨h.room, h.chair, h.wakes, hflag, h.stays, hjoined, h.quiet, fun _ hnap => ?_⟩
      simp [hreturned] at hnap
    · cases hnext
  | exited => cases hnext

theorem Inv.next {a : Move N} (h : Inv num_chairs s) (hnext : next s a = some s') : Inv num_chairs s' := by
  cases a with
  | main => exact h.main_next hnext
  | barber => exact h.barber_next hnext
  | customer num => exact h.customer_next hnext

end Moves

section History

theorem seated_congr (h : ∀ num, s'.customer num = .progress_wait ↔ s.customer num = .progress_wait) :
    s'.seated = s.seated := by
  unfold State.seated
  exact List.filter_congr fun num _ => by simp [h num]

theorem mem_seated {num : Fin N} : num ∈ s.seated ↔ s.customer num = .progress_wait := by
  simp [State.seated]

theorem Inv.seated_eq (h : Inv num_chairs s) {num : Fin N} (hnum : s.customer num = .progress_wait) :
    s.seated = [num] := by
  have hnodup : s.seated.Nodup := (List.nodup_finRange N).filter _
  refine List.perm_singleton.mp ((List.perm_ext_iff_of_nodup hnodup (List.nodup_singleton num)).mpr fun num' => ?_)
  rw [mem_seated, List.mem_singleton]
  constructor
  · intro hnum'
    exact count_le_one (P := fun num => (s.customer num).waits) h.waits_le_one (by simp [hnum', Customer.waits])
      (by simp [hnum, Customer.waits])
  · rintro rfl
    exact hnum

/-- Whoever the barber has been woken up for sits in the chair. -/
theorem Inv.seated_of_awake (h : Inv num_chairs s) (hopen : s.end_of_day = false) (hawake : s.barber.awake = true) :
    ∃ num, s.seated = [num] ∧ s.nap_time = 0 ∧ s.in_progress = 0 := by
  have hcalls := h.wakes hopen
  have hone := h.waits_le_one
  rw [hawake, Bool.toNat_true] at hcalls
  obtain ⟨num, hwaits⟩ := count_pos.mp (show 0 < count (fun num => (s.customer num).waits) by omega)
  have hnum := Customer.waits_iff.mp hwaits
  exact ⟨num, h.seated_eq hnum, by omega, by omega⟩

/-- The customer whose haircut has begun, until it has waited for its end. -/
def State.pending (s : State N) : List (Fin N) :=
  if s.barber.started = true ∨ 0 < s.in_progress then s.seated else []

/-- The haircuts are those of the customers that have waited for the end of one, in the same order,
    and of the one that still does. -/
structure History (s : State N) (es : List (Event N)) : Prop where
  paired : haircuts es = (finished es ++ s.pending).map fun num => [num]
  counted : ∀ num, (finished es).count num = (s.customer num).served.toNat

/-- A move that records nothing, and touches neither the chair nor the haircut. -/
theorem History.frame {es : List (Event N)} (h : History s es) (hpending : s'.pending = s.pending)
    (hserved : ∀ num, (s'.customer num).served = (s.customer num).served) : History s' (es ++ []) := by
  rw [List.append_nil]
  refine ⟨?_, fun num => ?_⟩
  · rw [hpending]
    exact h.paired
  · rw [hserved num]
    exact h.counted num

theorem main_next_frame (hnext : main_next s = some s') :
    s'.barber = s.barber ∧ s'.in_progress = s.in_progress ∧ s'.customer = s.customer := by
  cases hp : s.main with simp only [main_next, hp] at hnext
  | join_customer i =>
    split at hnext
    · split at hnext
      · cases hnext
        exact ⟨rfl, rfl, rfl⟩
      · cases hnext
    · cases hnext
      exact ⟨rfl, rfl, rfl⟩
  | end_of_day | nap_post =>
    cases hnext
    exact ⟨rfl, rfl, rfl⟩
  | join_barber =>
    split at hnext
    · cases hnext
      exact ⟨rfl, rfl, rfl⟩
    · cases hnext
  | exited => cases hnext

theorem History.main_next {es : List (Event N)} (h : History s es) (hnext : main_next s = some s') :
    History s' (es ++ (event s .main).toList) := by
  obtain ⟨hbarber, hprogress, hcustomer⟩ := main_next_frame hnext
  refine h.frame ?_ fun num => by rw [hcustomer]
  have hseated : s'.seated = s.seated := seated_congr fun num => by rw [hcustomer]
  rw [State.pending, State.pending, hbarber, hprogress, hseated]

/-- A haircut begins: nobody's is under way, and one customer is seated. -/
theorem History.cut {es : List (Event N)} (h : History s es) (hinv : Inv num_chairs s) (hp : s.barber = .test)
    (hopen : s.end_of_day = false) : History { s with barber := .cutting } (es ++ [.cut s.seated]) := by
  obtain ⟨num, hseated, -, hprogress⟩ := hinv.seated_of_awake hopen (by rw [hp]; rfl)
  have hbefore : s.pending = [] := by simp [State.pending, hp, Barber.started, hprogress]
  have hafter : State.pending { s with barber := .cutting } = [num] := by
    simp only [State.pending, Barber.started, true_or, if_true]
    exact hseated
  have hhaircuts := h.paired
  rw [hbefore, List.append_nil] at hhaircuts
  refine ⟨?_, fun num' => ?_⟩
  · rw [hafter, hseated]
    simp only [haircuts, finished] at hhaircuts ⊢
    simp [hhaircuts]
  · simpa [finished] using h.counted num'

theorem History.barber_next {es : List (Event N)} (h : History s es) (hinv : Inv num_chairs s)
    (hnext : barber_next s = some s') : History s' (es ++ (event s .barber).toList) := by
  cases hp : s.barber with simp only [concurrency4.barber_next, hp] at hnext
  | test =>
    cases hnext
    cases hopen : s.end_of_day with
    | false => simpa [event, hp, hopen] using h.cut hinv hp hopen
    | true =>
      have hnone : (event s .barber).toList = [] := by simp [event, hopen]
      rw [hnone]
      refine h.frame ?_ fun _ => rfl
      simp [State.pending, hp, Barber.started, State.seated]
  | progress_post =>
    cases hnext
    have hnone : (event s .barber).toList = [] := by simp [event, hp]
    rw [hnone]
    refine h.frame ?_ fun _ => rfl
    simp [State.pending, hp, Barber.started, State.seated]
  | nap_wait =>
    split at hnext
    · cases hnext
      have hnone : (event s .barber).toList = [] := by simp [event, hp]
      rw [hnone]
      refine h.frame ?_ fun _ => rfl
      simp [State.pending, hp, Barber.started, State.seated]
    · cases hnext
  | loop | cutting | closing =>
    cases hnext
    have hnone : (event s .barber).toList = [] := by simp [event, hp]
    rw [hnone]
    refine h.frame ?_ fun _ => rfl
    cases hday : s.end_of_day <;> simp [State.pending, hp, Barber.started, State.seated]
  | returned => cases hnext

/-- A customer that is not at `in_progress` moves on. One that gets there finds nothing under way. -/
theorem History.customer_move {es : List (Event N)} (h : History s es) {num : Fin N} {p : Customer} {w c t : Nat}
    (hp : s.customer num ≠ .progress_wait) (hserved : p.served = (s.customer num).served)
    (hpending : p = .progress_wait → s.barber.started = false ∧ s.in_progress = 0) :
    History { s with
      waiting_room := w, barber_chair := c, nap_time := t
      customer := update s.customer num p } (es ++ (event s (.customer num)).toList) := by
  have hnone : (event s (.customer num)).toList = [] := by simp [event, hp]
  rw [hnone]
  refine h.frame ?_ fun num' => ?_
  · by_cases hwait : p = .progress_wait
    · obtain ⟨hstarted, hprogress⟩ := hpending hwait
      simp [State.pending, hstarted, hprogress]
    · unfold State.pending
      dsimp only
      rw [seated_congr (s := s)]
      intro num'
      by_cases heq : num' = num
      · simp [heq, hwait, hp]
      · simp [update_of_ne heq]
  · by_cases heq : num' = num
    · simp [heq, hserved]
    · simp [update_of_ne heq]

/-- The customer of the haircut under way takes the `in_progress`. -/
theorem History.finish {es : List (Event N)} (h : History s es) (hinv : Inv num_chairs s) {num : Fin N}
    (hp : s.customer num = .progress_wait) (hpos : 0 < s.in_progress) :
    History { s with
      in_progress := s.in_progress - 1
      customer := update s.customer num .chair_post } (es ++ [.finished num]) := by
  have hlive : s.customer num ≠ .returned := by simp [hp]
  have hopen := hinv.open_of_live hlive
  have hcalls := hinv.wakes hopen
  have hone := hinv.waits_le_one
  have hbefore : s.pending = [num] := by
    rw [State.pending, if_pos (Or.inr hpos)]
    exact hinv.seated_eq hp
  have hstarted : s.barber.started = false := by
    cases hb : s.barber <;> simp [Barber.started] <;> rw [hb] at hcalls <;> simp [Barber.awake] at hcalls <;> omega
  have hlast : s.in_progress = 1 := by omega
  have hhaircuts := h.paired
  rw [hbefore] at hhaircuts
  refine ⟨?_, fun num' => ?_⟩
  · simp only [haircuts, finished] at hhaircuts ⊢
    simp [hhaircuts, State.pending, hstarted, hlast]
  · have hcount := h.counted num'
    simp only [finished] at hcount ⊢
    by_cases heq : num' = num
    · subst heq
      simp_all [Customer.served]
    · have hne : num ≠ num' := fun h => heq h.symm
      simp_all

theorem History.customer_next {es : List (Event N)} (h : History s es) (hinv : Inv num_chairs s) {num : Fin N}
    (hnext : customer_next s num = some s') : History s' (es ++ (event s (.customer num)).toList) := by
  cases hp : s.customer num with simp only [concurrency4.customer_next, hp] at hnext
  | room_wait | chair_wait =>
    split at hnext
    · cases hnext
      exact h.customer_move (by simp [hp]) (by simp [hp, Customer.served]) (by simp)
    · cases hnext
  | room_post | chair_post =>
    cases hnext
    exact h.customer_move (by simp [hp]) (by simp [hp, Customer.served]) (by simp)
  | nap_post =>
    cases hnext
    refine h.customer_move (by simp [hp]) (by simp [hp, Customer.served]) fun _ => ?_
    -- The chair is this customer's, and it is not waiting yet.
    have hlive : s.customer num ≠ .returned := by simp [hp]
    have hopen := hinv.open_of_live hlive
    have hcalls := hinv.wakes hopen
    have hnone : count (fun num => (s.customer num).waits) = 0 := by
      by_contra hsome
      obtain ⟨num', hwaits⟩ := count_pos.mp (Nat.pos_of_ne_zero hsome)
      have hchair := hinv.chair
      have hwait := Customer.waits_iff.mp hwaits
      have heq := count_le_one (P := fun num => (s.customer num).inChair) (by omega)
        (show (s.customer num').inChair = true by rw [hwait]; rfl)
        (show (s.customer num).inChair = true by rw [hp]; rfl)
      rw [heq, hp] at hwait
      cases hwait
    refine ⟨?_, by omega⟩
    cases hb : s.barber <;> simp [Barber.started] <;> rw [hb] at hcalls <;> simp [Barber.awake] at hcalls <;> omega
  | progress_wait =>
    split at hnext
    · rename_i hpos
      cases hnext
      simpa [event, hp] using h.finish hinv hp hpos
    · cases hnext
  | returned => cases hnext

theorem history_initial (num_chairs N : Nat) : History (initial num_chairs N) [] where
  paired := by simp [haircuts, finished, State.pending, initial, Barber.started]
  counted _ := rfl

theorem inv_and_history {as : List (Move N)} (h : run next (initial num_chairs N) as = some s) :
    Inv num_chairs s ∧ History s (trace next event (initial num_chairs N) as) := by
  refine trace_invariant event (I := fun s es => Inv num_chairs s ∧ History s es) ?_
    ⟨inv_initial num_chairs N, history_initial num_chairs N⟩ h
  rintro s es a s' ⟨hinv, hhistory⟩ hnext
  refine ⟨hinv.next hnext, ?_⟩
  cases a with
  | main => exact hhistory.main_next hnext
  | barber => exact hhistory.barber_next hinv hnext
  | customer num => exact hhistory.customer_next hinv hnext

end History

section Orderly

/-- A thread that has not finished can move. -/
def State.Live (s : State N) : Prop :=
  ∃ a, (next s a).isSome = true

/-- What the shop is for: seats are not shared, every haircut is the one of the customer in the
    chair, everybody leaves with one, and the shop closes when they have left. -/
structure Orderly (num_chairs : Nat) (s : State N) (es : List (Event N)) : Prop where
  chair : ∀ num num', (s.customer num).inChair = true → (s.customer num').inChair = true → num = num'
  room : count (fun num => (s.customer num).inRoom) ≤ num_chairs
  cutting : s.barber.started = true → ∃ num, s.seated = [num]
  paired : haircuts es = (finished es ++ s.pending).map fun num => [num]
  once : ∀ num, s.customer num = .returned → (haircuts es).count [num] = 1 ∧ (finished es).count num = 1
  closing : s.barber.leaving = true → ∀ num, s.customer num = .returned
  live : s.main ≠ .exited → s.Live

/-- With every customer gone, `main` only ever waits for the barber. -/
theorem main_live (hreturned : ∀ num, s.customer num = .returned)
    (hbarber : s.main = .join_barber → s.barber = .returned) (hexited : s.main ≠ .exited) : s.Live := by
  refine ⟨.main, ?_⟩
  cases hp : s.main with
  | join_customer i => by_cases hi : i < N <;> simp [concurrency4.next, concurrency4.main_next, hp, hi, hreturned]
  | end_of_day | nap_post => simp [concurrency4.next, concurrency4.main_next, hp]
  | join_barber => simp [concurrency4.next, concurrency4.main_next, hp, hbarber hp]
  | exited => exact absurd hp hexited

/-- What a customer that cannot move waits for. -/
theorem customer_blocked {num : Fin N} (h : (concurrency4.customer_next s num).isSome ≠ true) :
    s.customer num = .room_wait ∧ s.waiting_room = 0 ∨ s.customer num = .chair_wait ∧ s.barber_chair = 0 ∨
      s.customer num = .progress_wait ∧ s.in_progress = 0 ∨ s.customer num = .returned := by
  cases hp : s.customer num with
  | room_wait | chair_wait | progress_wait => simpa [concurrency4.customer_next, hp] using h
  | room_post | nap_post | chair_post => simp [concurrency4.customer_next, hp] at h
  | returned => simp

/-- With the barber asleep and no call for it, some customer that is still there can move. -/
theorem Inv.customer_live (h : Inv num_chairs s) (hchairs : 1 ≤ num_chairs) (hnap : s.barber = .nap_wait)
    (hcall : s.nap_time = 0) {num : Fin N} (hnum : s.customer num ≠ .returned) : s.Live := by
  by_contra hlive
  have hblocked : ∀ num', (concurrency4.customer_next s num').isSome ≠ true := fun num' hmove =>
    hlive ⟨.customer num', hmove⟩
  have hcalls := h.wakes (h.open_of_live hnum)
  rw [hnap, hcall] at hcalls
  have hprogress : ∀ num', s.customer num' ≠ .progress_wait := by
    intro num' hp
    have hpos : 0 < count fun num => (s.customer num).waits := count_pos.mpr ⟨num', by rw [hp]; rfl⟩
    have hsignal : 0 < s.in_progress := by simp only [Barber.awake, Bool.toNat_false] at hcalls; omega
    exact hblocked num' (by simp [concurrency4.customer_next, hp, hsignal])
  have hchair : 0 < s.barber_chair := by
    by_contra hzero
    have hseat := h.chair
    obtain ⟨num', hin⟩ := count_pos.mp (show 0 < count (fun num => (s.customer num).inChair) by omega)
    obtain ⟨hp, -⟩ | ⟨hp, -⟩ | ⟨hp, -⟩ | hp := customer_blocked (hblocked num')
    · simp [hp, Customer.inChair] at hin
    · simp [hp, Customer.inChair] at hin
    · exact hprogress num' hp
    · simp [hp, Customer.inChair] at hin
  have hroom : 0 < s.waiting_room := by
    by_contra hzero
    have hpermits := h.room
    obtain ⟨num', hin⟩ := count_pos.mp (show 0 < count (fun num => (s.customer num).inRoom) by omega)
    obtain ⟨hp, -⟩ | ⟨-, hfull⟩ | ⟨hp, -⟩ | hp := customer_blocked (hblocked num')
    · simp [hp, Customer.inRoom] at hin
    · omega
    · simp [hp, Customer.inRoom] at hin
    · simp [hp, Customer.inRoom] at hin
  obtain ⟨-, hfull⟩ | ⟨-, hfull⟩ | ⟨hp, -⟩ | hp := customer_blocked (hblocked num)
  · omega
  · omega
  · exact hprogress num hp
  · exact hnum hp

theorem Inv.live (h : Inv num_chairs s) (hchairs : 1 ≤ num_chairs) (hexited : s.main ≠ .exited) : s.Live := by
  cases hp : s.barber with
  | loop | test | cutting | progress_post | closing => exact ⟨.barber, by simp [concurrency4.next, concurrency4.barber_next, hp]⟩
  | nap_wait =>
    by_cases hcall : 0 < s.nap_time
    · exact ⟨.barber, by simp [concurrency4.next, concurrency4.barber_next, hp, hcall]⟩
    · by_cases hreturned : ∀ num, s.customer num = .returned
      · refine main_live hreturned (fun hmain => ?_) hexited
        exact absurd (h.woken (by rw [hmain]; rfl) hp) hcall
      · obtain ⟨num, hnum⟩ := not_forall.mp hreturned
        exact h.customer_live hchairs hp (by omega) hnum
  | returned =>
    have hclosed : s.end_of_day = true := by
      by_contra hopen
      exact absurd (h.stays (by simpa using hopen)) (by simp [hp, Barber.leaving])
    exact main_live (h.returned_of_closed hclosed) (fun _ => hp) hexited

theorem count_map_singleton (nums : List (Fin N)) (num : Fin N) :
    (nums.map fun num => [num]).count [num] = nums.count num :=
  List.count_map_of_injective nums _ (fun _ _ h => List.singleton_injective h) num

/-- For any number of chairs and of customers, along every schedule. -/
theorem shop_orderly {as : List (Move N)} (hchairs : 1 ≤ num_chairs)
    (h : run next (initial num_chairs N) as = some s) :
    Orderly num_chairs s (trace next event (initial num_chairs N) as) := by
  obtain ⟨hinv, hhistory⟩ := inv_and_history h
  have hchair := hinv.chair
  have hroom := hinv.room
  refine ⟨fun num num' => ?_, by omega, fun hstarted => ?_, hhistory.paired, fun num hreturned => ?_,
    fun hleaving => ?_, hinv.live hchairs⟩
  · exact count_le_one (P := fun num => (s.customer num).inChair) (by omega)
  · have hopen : s.end_of_day = false := by
      by_contra hclosed
      exact absurd (hinv.quiet (by simpa using hclosed)).2 (by simp [hstarted])
    obtain ⟨num, hseated, -⟩ := hinv.seated_of_awake hopen (Barber.awake_of_started hstarted)
    exact ⟨num, hseated⟩
  · have hfinished := hhistory.counted num
    rw [hreturned] at hfinished
    have hpending : s.pending.count num = 0 := by
      refine List.count_eq_zero.mpr fun hmem => ?_
      rw [State.pending] at hmem
      split at hmem
      · exact absurd (mem_seated.mp hmem) (by simp [hreturned])
      · cases hmem
    refine ⟨?_, hfinished⟩
    rw [hhistory.paired, count_map_singleton, List.count_append, hfinished, hpending]
    rfl
  · have hclosed : s.end_of_day = true := by
      by_contra hopen
      exact absurd (hinv.stays (by simpa using hopen)) (by simp [hleaving])
    exact hinv.returned_of_closed hclosed

/-- Two customers get their haircuts, and the shop closes while the barber sleeps. -/
def twoHaircuts : List (Move 2) :=
  let first := Move.customer ⟨1, Nat.one_lt_two⟩
  let second := Move.customer ⟨0, Nat.two_pos⟩
  List.replicate 4 first ++ List.replicate 5 Move.barber ++ List.replicate 2 first ++
    List.replicate 4 second ++ List.replicate 5 Move.barber ++ List.replicate 2 second ++
    List.replicate 1 Move.barber ++ List.replicate 5 Move.main ++ List.replicate 4 Move.barber

theorem shop_orderly_twoHaircuts :
    ∃ s, run next (initial 1 2) twoHaircuts = some s ∧ s.barber = .returned ∧
      Orderly 1 s (trace next event (initial 1 2) twoHaircuts) := by
  have hlast : (run next (initial 1 2) twoHaircuts).map (fun s => s.barber) = some .returned := by decide +kernel
  obtain ⟨s, hrun, hbarber⟩ := Option.map_eq_some_iff.mp hlast
  exact ⟨s, hrun, hbarber, shop_orderly (by decide) hrun⟩

end Orderly

end cs444.concurrency4
