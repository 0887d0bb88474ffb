import Cs444.Prob2.Elves

open interleaving

open Function

namespace cs444.prob2

variable {E R : Nat} {s s' : State E R}

section SantaMoves

/-- What a step of Santa leaves alone, when he is not taking an elf. -/
structure SantaMove (s s' : State E R) : Prop where
  elf : s'.elf = s.elf
  slots : s'.elves_waiting.slots = s.elves_waiting.slots
  cardinality : s'.elves_waiting.cardinality = s.elves_waiting.cardinality
  counting : s'.elf_counting_sem = s.elf_counting_sem

theorem SantaMove.counts (h : SantaMove s s') :
    s'.occupied = s.occupied ∧ s'.queueing = s.queueing ∧ s'.inMutex = s.inMutex ∧ s'.inCounter = s.inCounter ∧
      s'.finishing = s.finishing ∧ s'.signalling = s.signalling ∧ s'.owing = s.owing := by
  have htally : ∀ P, s'.tally P = s.tally P := by
    intro P
    rw [State.tally, State.tally, h.elf, h.slots]
  exact ⟨htally _, htally _, htally _, htally _, htally _, htally _, htally _⟩

theorem take_loop_spec (i : Nat) :
    (take_loop i : Santa E).inMutex = 1 ∧ (take_loop i : Santa E).inCounter = 0 ∧
      (take_loop i : Santa E).holdsBusy = 0 ∧ (take_loop i : Santa E).idle = false ∧
      (take_loop i : Santa E).pending = none ∧ (take_loop i : Santa E).togo = 3 - i := by
  rw [take_loop]
  split
  · simp
  · rename_i hlast
    have hle : 3 ≤ i := Nat.not_lt.mp hlast
    simp [hle]

theorem take_loop_need {i k : Nat} (h : (take_loop i : Santa E).need = some k) : k = 3 - i := by
  rw [take_loop] at h
  split at h
  · exact (Option.some.inj h).symm
  · cases h

theorem take_loop_took {i : Nat} (hi : i ≤ 3) : (take_loop i : Santa E).Took i := by
  rw [take_loop]
  split
  · rfl
  · rename_i hlast
    exact Nat.le_antisymm hi (Nat.not_lt.mp hlast)

theorem santa_next_frame (hnext : santa_next s = some s') : SantaMove s s' := by
  rw [santa_next] at hnext
  cases hp : s.santa with simp only [hp] at hnext
  | busy_wait | busy_signal | sleep_wait | prepare_wait | prepare_signal | lock_busy | lock_sleep | help_wait
  | help_counter_wait | help_counter_signal | help_mutex_wait | take_wait _ | take_signal _ _ | line_signal _ _
  | help_mutex_signal =>
    obtain ⟨value, -, rfl⟩ := Option.map_eq_some_iff.mp hnext
    exact ⟨rfl, rfl, rfl, rfl⟩
  | test_reindeer | test_elves =>
    split at hnext <;> cases hnext <;> exact ⟨rfl, rfl, rfl, rfl⟩
  | take_search _ => cases hnext
  | assign_reindeer | help_assign =>
    cases hnext
    exact ⟨rfl, rfl, rfl, rfl⟩

theorem Balance.santa_move (h : Balance s) (hmove : SantaMove s s')
    (hn : s'.num_elves_being_helped = s.num_elves_being_helped)
    (hmutex : s'.elf_mutex + s'.santa.inMutex = s.elf_mutex + s.santa.inMutex)
    (hlock : s'.elf_counter_lock + s'.santa.inCounter = s.elf_counter_lock + s.santa.inCounter)
    (hbusy : s'.santa_busy_mutex + s'.santa.holdsBusy = s.santa_busy_mutex + s.santa.holdsBusy)
    (htogo : s'.santa.togo = s.santa.togo)
    (hidle : s'.santa.idle = true → s.santa.idle = true ∨ s.santa.holdsBusy = 1)
    (hready : ∀ k, s'.santa.need = some k → s.occupied = k) : Balance s' := by
  have hcounts := hmove.counts
  have hcard := hmove.cardinality
  have hcounting := hmove.counting
  have hhelping := helping_cases s.num_elves_being_helped
  obtain ⟨hcard₀, hmutex₀, hlock₀, hbusy₀, hcounting₀, hhelped₀, hle₀, hfin₀, hidle₀, -⟩ := h
  refine ⟨?_, ?_, ?_, ?_, ?_, ?_, ?_, ?_, fun hsanta => ?_, fun k hk => ?_⟩
  · omega
  · omega
  · omega
  · rw [hn]
    omega
  · rw [hn]
    omega
  · omega
  · omega
  · omega
  · obtain hsanta | hsanta := hidle hsanta
    · have hnone := hidle₀ hsanta
      omega
    · omega
  · rw [hcounts.1]
    exact hready k hk

theorem Local.santa_move (h : Local s) (hmove : SantaMove s s') (hline : s'.elf_line_set = s.elf_line_set)
    (hpending : s'.santa.pending = s.santa.pending) : Local s' := by
  intro id
  rw [hmove.elf, hmove.slots, hline, hpending]
  exact h id

theorem Grouped.santa_move {g : Group E} (h : Grouped s g) (hmove : SantaMove s s')
    (htook : s'.santa.Took g.taken.length) (hin : s'.santa.inMutex = 1 → s.santa.inMutex = 1 ∨ g.taken = []) :
    Grouped s' g := by
  refine ⟨fun id => ?_, h.taken_nodup, h.decremented_nodup, h.decremented_sub, htook, fun hin' id hid => ?_⟩
  · rw [hmove.elf, hmove.slots]
    exact h.owing id
  · rw [hmove.slots]
    obtain hin | hnil := hin hin'
    · exact h.out hin id hid
    · rw [hnil] at hid
      exact absurd hid List.not_mem_nil

theorem Inv.santa_move {g : Group E} (h : Inv s g) (hmove : SantaMove s s')
    (hline : s'.elf_line_set = s.elf_line_set) (hpending : s'.santa.pending = s.santa.pending)
    (hn : s'.num_elves_being_helped = s.num_elves_being_helped)
    (hsems : s'.elf_mutex + s'.santa.inMutex = s.elf_mutex + s.santa.inMutex ∧
      s'.elf_counter_lock + s'.santa.inCounter = s.elf_counter_lock + s.santa.inCounter ∧
      s'.santa_busy_mutex + s'.santa.holdsBusy = s.santa_busy_mutex + s.santa.holdsBusy)
    (htogo : s'.santa.togo = s.santa.togo)
    (hidle : s'.santa.idle = true → s.santa.idle = true ∨ s.santa.holdsBusy = 1)
    (hneed : s'.santa.need = none ∨ s'.santa.need = s.santa.need)
    (htook : s.santa.Took g.taken.length → s'.santa.Took g.taken.length)
    (hin : s'.santa.inMutex = 1 → s.santa.inMutex = 1 ∨ g.taken = []) : Inv s' g := by
  obtain ⟨hmutex, hlock, hbusy⟩ := hsems
  refine ⟨?_, h.elves.santa_move hmove hline hpending, h.grouped.santa_move hmove (htook h.grouped.took) hin⟩
  refine h.balance.santa_move hmove hn hmutex hlock hbusy htogo hidle fun k hk => ?_
  obtain hnone | hsame := hneed
  · rw [hnone] at hk
    cases hk
  · rw [hsame] at hk
    exact h.balance.ready k hk

theorem reindeer_next_frame {id : Fin R} (hnext : reindeer_next s id = some s') :
    SantaMove s s' ∧ s'.santa = s.santa ∧ s'.elf_line_set = s.elf_line_set ∧
      s'.num_elves_being_helped = s.num_elves_being_helped ∧ s'.elf_mutex = s.elf_mutex ∧
      s'.elf_counter_lock = s.elf_counter_lock ∧ s'.santa_busy_mutex = s.santa_busy_mutex := by
  rw [reindeer_next] at hnext
  cases hp : s.reindeer id with simp only [hp] at hnext
  | counter_wait | counter_signal | wake | counting_wait | hitch_wait | hitch_signal =>
    obtain ⟨value, -, rfl⟩ := Option.map_eq_some_iff.mp hnext
    exact ⟨⟨rfl, rfl, rfl, rfl⟩, rfl, rfl, rfl, rfl, rfl, rfl⟩
  | test =>
    split at hnext <;> cases hnext <;>
      exact ⟨⟨rfl, rfl, rfl, rfl⟩, rfl, rfl, rfl, rfl, rfl, rfl⟩
  | increment | decrement =>
    cases hnext
    exact ⟨⟨rfl, rfl, rfl, rfl⟩, rfl, rfl, rfl, rfl, rfl, rfl⟩
  | exit | returned => cases hnext

theorem Inv.reindeer_next {g : Group E} (h : Inv s g) {id : Fin R} (hnext : reindeer_next s id = some s') :
    Inv s' g := by
  obtain ⟨hmove, hsanta, hline, hn, hmutex, hlock, hbusy⟩ := reindeer_next_frame hnext
  apply h.santa_move hmove hline (by rw [hsanta]) hn ⟨by rw [hsanta, hmutex], by rw [hsanta, hlock],
    by rw [hsanta, hbusy]⟩ (by rw [hsanta]) <;> rw [hsanta]
  · exact .inl
  · exact .inr rfl
  · exact fun htook => htook
  · exact .inl

theorem Balance.help_assign (h : Balance s) (hmove : SantaMove s s') (hsanta : s.santa = .help_assign)
    (hsanta' : s'.santa = .help_counter_signal) (hn : s'.num_elves_being_helped = 3)
    (hsems : s'.elf_mutex = s.elf_mutex ∧ s'.elf_counter_lock = s.elf_counter_lock ∧
      s'.santa_busy_mutex = s.santa_busy_mutex) : Balance s' := by
  have hcounts := hmove.counts
  have hcard := hmove.cardinality
  have hcounting := hmove.counting
  have hhelping := helping_cases s.num_elves_being_helped
  have hhelping' : helping s'.num_elves_being_helped = 1 := by rw [hn]; rfl
  obtain ⟨hcard₀, hmutex₀, hlock₀, hbusy₀, hcounting₀, hhelped₀, -, -, -, hready₀⟩ := h
  rw [hsanta] at hmutex₀ hlock₀ hbusy₀ hcounting₀ hhelped₀ hready₀
  have hthree := hready₀ 3 rfl
  obtain ⟨hmutex, hlock, hbusy⟩ := hsems
  simp only [Santa.inMutex, Santa.inCounter, Santa.holdsBusy, Santa.togo] at hmutex₀ hlock₀ hbusy₀ hcounting₀ hhelped₀
  constructor <;> try rw [hsanta'] <;>
    simp only [Santa.inMutex, Santa.inCounter, Santa.holdsBusy, Santa.togo, Santa.idle, Santa.need]
  case ready =>
    rintro k ⟨⟩
    omega
  case idle => exact fun hidle => absurd hidle (by simp)
  all_goals omega

theorem Inv.help_assign {g : Group E} (h : Inv s g) (hsanta : s.santa = .help_assign)
    (hnext : santa_next s = some s') : Inv s' g := by
  have hmove := santa_next_frame hnext
  simp only [santa_next, hsanta] at hnext
  cases hnext
  refine ⟨?_, ?_, ?_⟩
  · exact h.balance.help_assign hmove hsanta rfl rfl ⟨rfl, rfl, rfl⟩
  · exact h.elves.santa_move hmove rfl (by rw [hsanta]; rfl)
  · have htook := h.grouped.took
    rw [hsanta] at htook
    exact h.grouped.santa_move hmove htook (by simp)

/-- Santa signals the elf he has taken. -/
theorem Local.line_signal (h : Local s) {i : Fin NUM_ELVES_PER_GROUP} {elf : Fin E} (hmove : SantaMove s s')
    (hsanta : s.santa = .line_signal i elf) (hpending : s'.santa.pending = none)
    (hline : s'.elf_line_set = update s.elf_line_set elf (s.elf_line_set elf + 1)) : Local s' := by
  intro id
  have hid := h id
  rw [hmove.elf, hmove.slots, hline, hpending]
  rw [hsanta] at hid
  by_cases heq : id = elf
  · subst heq
    rw [update_self]
    simp only [Santa.pending, decide_true] at hid
    simp only [reduceCtorEq, decide_false]
    cases hp : s.elf id <;> rw [hp] at hid <;> simp_all [Elf.Fits]
  · rw [update_of_ne heq]
    simpa [Ne.symm heq] using hid

theorem Inv.line_signal {g : Group E} (h : Inv s g) {i : Fin NUM_ELVES_PER_GROUP} {elf : Fin E}
    (hsanta : s.santa = .line_signal i elf) (hnext : santa_next s = some s') : Inv s' g := by
  have hmove := santa_next_frame hnext
  simp only [santa_next, hsanta] at hnext
  obtain ⟨value, hvalue, rfl⟩ := Option.map_eq_some_iff.mp hnext
  obtain ⟨rfl, -⟩ := sem_signal_eq_some.mp hvalue
  obtain ⟨hmutex, hcounter, hbusy, hidle, hpending, htogo⟩ := take_loop_spec (E := E) (i + 1)
  refine ⟨?_, ?_, ?_⟩
  · apply h.balance.santa_move hmove rfl <;> dsimp only <;> try rw [hsanta]
    · rw [hmutex]
      rfl
    · rw [hcounter]
      rfl
    · rw [hbusy]
      rfl
    · rw [htogo]
      simp only [Santa.togo]
      omega
    · rw [hidle]
      simp
    · intro k hk
      apply h.balance.ready
      rw [take_loop_need hk, hsanta]
      simp only [Santa.need, Option.some.injEq]
      omega
  · exact h.elves.line_signal hmove hsanta hpending rfl
  · have htook := h.grouped.took
    rw [hsanta] at htook
    apply h.grouped.santa_move hmove
    · rw [htook]
      exact take_loop_took i.isLt
    · simp [hsanta]

/-- The elf that Santa takes has left the critical section in which it queued. -/
theorem Inv.line_wait_of_slot {g : Group E} (h : Inv s g) {i : Fin NUM_ELVES_PER_GROUP}
    (hsanta : s.santa = .take_search i) {item : Fin E} (hslot : s.elves_waiting.slots item = true) :
    s.elf item = .line_wait := by
  have hmutex := h.balance.elf_mutex
  rw [hsanta] at hmutex
  have hout : (s.elf item).inMutex = false := by
    by_contra hin
    have hpos : 0 < s.inMutex := tally_pos item (by simpa using hin)
    simp only [Santa.inMutex] at hmutex
    omega
  have hfits := h.elves item
  rw [hslot] at hfits
  cases hp : s.elf item <;> simp_all [Elf.Fits]

theorem Balance.take (h : Balance s) {i : Fin NUM_ELVES_PER_GROUP} {item : Fin E} (hsanta : s.santa = .take_search i)
    (hp : s.elf item = .line_wait) (hslot : s.elves_waiting.slots item = true)
    (helf : s'.elf = s.elf) (hsanta' : s'.santa = .take_signal i item)
    (hslots : s'.elves_waiting.slots = update s.elves_waiting.slots item false)
    (hcard : s'.elves_waiting.cardinality = s.elves_waiting.cardinality - 1)
    (hn : s'.num_elves_being_helped = s.num_elves_being_helped)
    (hsems : s'.elf_mutex = s.elf_mutex ∧ s'.elf_counter_lock = s.elf_counter_lock ∧
      s'.santa_busy_mutex = s.santa_busy_mutex ∧ s'.elf_counting_sem = s.elf_counting_sem) : Balance s' := by
  have hp' : s'.elf item = .line_wait := by rw [helf, hp]
  have hslot' : s'.elves_waiting.slots item = false := by rw [hslots, update_self]
  have hcounts := counts_change (fun j _ => congrFun helf j)
    (fun j hj => by rw [hslots, update_of_ne hj]) hp hp' hslot hslot'
  simp only [Elf.inMutex, Elf.inCounter, Elf.signalling, Elf.queueing, Elf.finishing, Elf.owing, Bool.not_true,
    Bool.not_false, Bool.toNat_true, Bool.toNat_false] at hcounts
  have hhelping : helping s'.num_elves_being_helped = helping s.num_elves_being_helped := by rw [hn]
  have hi : i.val < 3 := i.isLt
  obtain ⟨hcard₀, hmutex₀, hlock₀, hbusy₀, hcounting₀, hhelped₀, hle₀, hfin₀, -, hready₀⟩ := h
  obtain ⟨hmutex, hlock, hbusy, hcounting⟩ := hsems
  rw [hsanta] at hmutex₀ hlock₀ hbusy₀ hcounting₀ hhelped₀ hready₀
  have hready := hready₀ _ rfl
  simp only [Santa.inMutex, Santa.inCounter, Santa.holdsBusy, Santa.togo] at hmutex₀ hlock₀ hbusy₀ hcounting₀ hhelped₀
  constructor <;> try rw [hsanta'] <;>
    simp only [Santa.inMutex, Santa.inCounter, Santa.holdsBusy, Santa.togo, Santa.idle, Santa.need]
  case ready =>
    rintro k ⟨⟩
    omega
  case idle => exact fun hidle => absurd hidle (by simp)
  all_goals omega

theorem Local.take (h : Local s) {i : Fin NUM_ELVES_PER_GROUP} {item : Fin E} (hsanta : s.santa = .take_search i)
    (hp : s.elf item = .line_wait) (hslot : s.elves_waiting.slots item = true)
    (helf : s'.elf = s.elf) (hsanta' : s'.santa = .take_signal i item) (hline : s'.elf_line_set = s.elf_line_set)
    (hslots : s'.elves_waiting.slots = update s.elves_waiting.slots item false) : Local s' := by
  intro id
  have hid := h id
  rw [hsanta] at hid
  rw [helf, hslots, hline, hsanta']
  by_cases heq : id = item
  · subst heq
    rw [hp, hslot] at hid
    rw [hp, update_self]
    obtain ⟨hzero, -⟩ := hid
    simp [Elf.Fits, hzero]
  · rw [update_of_ne heq]
    simpa [Ne.symm heq] using hid

theorem Grouped.take {g : Group E} (h : Grouped s g) {i : Fin NUM_ELVES_PER_GROUP} {item : Fin E}
    (hsanta : s.santa = .take_search i) (hp : s.elf item = .line_wait) (hslot : s.elves_waiting.slots item = true)
    (helf : s'.elf = s.elf) (hsanta' : s'.santa = .take_signal i item)
    (hslots : s'.elves_waiting.slots = update s.elves_waiting.slots item false) :
    Grouped s' (g.record (.take item)) := by
  obtain ⟨howes, htaken, hdecremented, hsub, htook, hout⟩ := h
  rw [hsanta] at htook hout
  have hnew : item ∉ g.taken := fun hmem => by simp [hout rfl item hmem] at hslot
  refine ⟨fun id => ?_, ?_, hdecremented, fun id hid => ?_, ?_, fun _ id hid => ?_⟩
  · rw [helf, hslots]
    by_cases hid : id = item
    · subst hid
      have hnot : id ∉ g.decremented := fun hmem => hnew (hsub id hmem)
      simp [Group.record, hp, hnot]
    · rw [update_of_ne hid, howes id]
      simp [Group.record, hid]
  · simpa [Group.record] using (List.nodup_concat g.taken item).mpr ⟨hnew, htaken⟩
  · exact List.mem_append_left _ (hsub id hid)
  · rw [hsanta']
    simpa [Group.record] using htook
  · rw [hslots]
    by_cases hitem : id = item
    · rw [hitem, update_self]
    · rw [update_of_ne hitem]
      exact hout rfl id (by simpa [Group.record, hitem] using hid)

theorem Inv.draw_next {g : Group E} (h : Inv s g) {item : Fin E} (hnext : draw_next s item = some s') :
    Inv s' ((event s (.draw item)).elim g g.record) := by
  cases hsanta : s.santa with simp only [prob2.draw_next, hsanta, set_take, reduceCtorEq] at hnext
  | take_search i =>
    simp only [event, hsanta]
    by_cases hslot : s.elves_waiting.slots item = true
    · have hp := h.line_wait_of_slot hsanta hslot
      rw [if_pos hslot]
      rw [if_pos hslot] at hnext
      cases hnext
      exact ⟨h.balance.take hsanta hp hslot rfl rfl rfl rfl rfl ⟨rfl, rfl, rfl, rfl⟩,
        h.elves.take hsanta hp hslot rfl rfl rfl rfl, h.grouped.take hsanta hp hslot rfl rfl rfl⟩
    · rw [if_neg hslot]
      rw [if_neg hslot] at hnext
      cases hnext
      exact h

theorem Inv.test_elves {g : Group E} (h : Inv s g) (hsanta : s.santa = .test_elves)
    (hthree : 3 ≤ set_cardinality s.elves_waiting) (hmove : SantaMove s s') (hsanta' : s'.santa = .help_wait)
    (hline : s'.elf_line_set = s.elf_line_set) (hn : s'.num_elves_being_helped = s.num_elves_being_helped)
    (hsems : s'.elf_mutex = s.elf_mutex ∧ s'.elf_counter_lock = s.elf_counter_lock ∧
      s'.santa_busy_mutex = s.santa_busy_mutex) : Inv s' ⟨[], []⟩ := by
  obtain ⟨hmutex, hlock, hbusy⟩ := hsems
  have hidle := h.balance.idle (by rw [hsanta]; rfl)
  have hcounting := h.balance.counting
  have hhelped := h.balance.helped
  have hcard := h.balance.cardinality
  rw [hsanta] at hcounting hhelped
  simp only [Santa.togo] at hcounting hhelped
  rw [set_cardinality] at hthree
  refine ⟨?_, ?_, ?_⟩
  · apply h.balance.santa_move hmove hn <;> rw [hsanta'] <;> try rw [hsanta]
    · rw [hmutex]
      rfl
    · rw [hlock]
      rfl
    · rw [hbusy]
      rfl
    · rfl
    · exact .inl
    · rintro k ⟨⟩
      omega
  · exact h.elves.santa_move hmove hline (by rw [hsanta, hsanta']; rfl)
  · -- Nobody of the group before still owes its decrement.
    have hnone : ∀ id, (s'.elf id).owing (s'.elves_waiting.slots id) = false := by
      intro id
      by_contra howing
      have hpos : 0 < s'.owing := tally_pos id (by simpa using howing)
      have hcounts := hmove.counts
      omega
    refine ⟨fun id => ?_, List.nodup_nil, List.nodup_nil, by simp, ?_, by simp⟩
    · rw [hnone id]
      simp
    · rw [hsanta']
      rfl

theorem Inv.santa_next {g : Group E} (h : Inv s g) (hnext : santa_next s = some s') :
    Inv s' ((event s .santa).elim g g.record) := by
  have hmove := santa_next_frame hnext
  have htook := h.grouped.took
  cases hsanta : s.santa with simp only [event, hsanta, Option.elim_none, Option.elim_some]
  | help_assign => exact h.help_assign hsanta hnext
  | line_signal i elf => exact h.line_signal hsanta hnext
  | take_search i => simp [prob2.santa_next, hsanta] at hnext
  | test_elves =>
    simp only [prob2.santa_next, hsanta] at hnext
    by_cases hthree : 3 ≤ set_cardinality s.elves_waiting
    · rw [if_pos hthree] at hnext ⊢
      cases hnext
      exact h.test_elves hsanta hthree hmove rfl rfl rfl ⟨rfl, rfl, rfl⟩
    · rw [if_neg hthree] at hnext ⊢
      cases hnext
      apply h.santa_move hmove rfl _ rfl <;> rw [hsanta]
      all_goals simp
  | lock_busy =>
    -- Santa already holds the only permit of `santa_busy_mutex`.
    have hbusy := h.balance.busy
    simp only [prob2.santa_next, hsanta] at hnext
    obtain ⟨value, hvalue, -⟩ := Option.map_eq_some_iff.mp hnext
    obtain ⟨hvalue, -⟩ := sem_wait_eq_some.mp hvalue
    rw [hsanta] at hbusy
    simp only [Santa.holdsBusy] at hbusy
    omega
  | lock_sleep =>
    have hbusy := h.balance.busy
    rw [hsanta] at hbusy
    simp only [Santa.holdsBusy] at hbusy
    omega
  | busy_wait | prepare_wait | help_wait | help_counter_wait =>
    simp only [prob2.santa_next, hsanta] at hnext
    obtain ⟨value, hvalue, rfl⟩ := Option.map_eq_some_iff.mp hnext
    obtain ⟨hvalue, -⟩ := sem_wait_eq_some.mp hvalue
    apply h.santa_move hmove rfl _ rfl <;> rw [hsanta]
    all_goals simp [hvalue]
  | sleep_wait | prepare_signal | take_wait _ | take_signal _ _ =>
    simp only [prob2.santa_next, hsanta] at hnext
    obtain ⟨value, -, rfl⟩ := Option.map_eq_some_iff.mp hnext
    apply h.santa_move hmove rfl _ rfl <;> rw [hsanta]
    all_goals simp
  | help_mutex_wait =>
    simp only [prob2.santa_next, hsanta] at hnext
    obtain ⟨value, hvalue, rfl⟩ := Option.map_eq_some_iff.mp hnext
    obtain ⟨hvalue, -⟩ := sem_wait_eq_some.mp hvalue
    rw [hsanta] at htook
    apply h.santa_move hmove rfl _ rfl <;> rw [hsanta]
    case hin => exact fun _ => .inr (List.eq_nil_of_length_eq_zero htook)
    all_goals simp [take_loop, hvalue]
  | test_reindeer =>
    simp only [prob2.santa_next, hsanta] at hnext
    split at hnext <;> cases hnext <;> apply h.santa_move hmove rfl _ rfl <;> rw [hsanta]
    all_goals simp
  | help_mutex_signal =>
    simp only [prob2.santa_next, hsanta] at hnext
    obtain ⟨value, hvalue, rfl⟩ := Option.map_eq_some_iff.mp hnext
    apply h.santa_move hmove rfl _ rfl <;> rw [hsanta]
    case htook => exact .inr
    all_goals simp [sem_signal_eq_some.mp hvalue]
  | assign_reindeer =>
    simp only [prob2.santa_next, hsanta] at hnext
    cases hnext
    apply h.santa_move hmove rfl _ rfl <;> rw [hsanta]
    all_goals simp
  | busy_signal | help_counter_signal =>
    simp only [prob2.santa_next, hsanta] at hnext
    obtain ⟨value, hvalue, rfl⟩ := Option.map_eq_some_iff.mp hnext
    apply h.santa_move hmove rfl _ rfl <;> rw [hsanta]
    all_goals simp [sem_signal_eq_some.mp hvalue]

theorem Inv.step_ok {es : List (Event E)} (h : Inv s (group es)) {a : Move E R} (hnext : next s a = some s') :
    Inv s' (group (es ++ (event s a).toList)) := by
  rw [group_append]
  cases a with
  | santa => exact h.santa_next hnext
  | draw item => exact h.draw_next hnext
  | elf id => exact h.elf_next hnext
  | reindeer id => exact h.reindeer_next hnext

theorem Inv.of_run {as : List (Move E R)} (h : run next (initial E R) as = some s) :
    Inv s (group (trace next event (initial E R) as)) := by
  have hstart : Inv (initial E R) (group []) := inv_initial
  exact trace_invariant event (I := fun s es => Inv s (group es)) (fun _ _ _ _ hs hnext => hs.step_ok hnext) hstart h

end SantaMoves

section Safety

/-- What may be said of the groups in a state, when `g` is the last group. -/
structure Safe (s : State E R) (g : Group E) : Prop where
  cardinality :
    set_cardinality s.elves_waiting = (Finset.univ.filter fun id => s.elves_waiting.slots id = true).card
  cardinality_le : set_cardinality s.elves_waiting ≤ NUM_ELVES_PER_GROUP
  /-- The search of `set_take` can succeed. -/
  search : ∀ i, s.santa = .take_search i → ∃ item, s.elves_waiting.slots item = true
  /-- An elf that is taken waits on its own semaphore, or is about to, and is not taken twice. -/
  take : ∀ a elf, event s a = some (.take elf) → s.elf elf = .line_wait ∧ elf ∉ g.taken
  distinct : g.taken.Nodup
  three : s.santa = .help_mutex_signal → g.taken.length = NUM_ELVES_PER_GROUP
  helped : 0 ≤ s.num_elves_being_helped ∧ s.num_elves_being_helped ≤ 3
  /-- When Santa calls `help_elves` or `prepare_sleigh`, there was no group before, or each of its
      three elves has decremented the counter. -/
  done : ∀ a, event s a = some .help_elves ∨ event s a = some .prepare_sleigh →
    (g.taken = [] ∨ g.taken.length = NUM_ELVES_PER_GROUP) ∧ g.decremented.Perm g.taken

theorem event_take {a : Move E R} {elf : Fin E} (h : event s a = some (.take elf)) :
    (∃ i, s.santa = .take_search i) ∧ s.elves_waiting.slots elf = true := by
  cases a with simp only [event, reduceCtorEq] at h
  | santa =>
    split at h
    · split at h <;> cases h
    · cases h
    · cases h
  | draw item =>
    split at h
    · rename_i i hsanta
      split at h
      · obtain rfl : item = elf := by simpa using h
        exact ⟨⟨i, hsanta⟩, by assumption⟩
      · cases h
    · cases h
  | elf id => split at h <;> cases h

theorem event_begins {a : Move E R} (h : event s a = some .help_elves ∨ event s a = some .prepare_sleigh) :
    s.santa = .test_elves ∨ s.santa = .assign_reindeer := by
  cases a with simp only [event] at h
  | santa =>
    split at h
    · left; assumption
    · right; assumption
    · exact absurd h (by simp)
  | draw item =>
    split at h
    · split at h <;> exact absurd h (by simp)
    · exact absurd h (by simp)
  | elf id => split at h <;> exact absurd h (by simp)
  | reindeer id => exact absurd h (by simp)

theorem Santa.togo_le (santa : Santa E) : santa.togo ≤ 3 := by
  cases santa <;> simp only [Santa.togo] <;> omega

theorem Inv.done {g : Group E} (h : Inv s g) (hsanta : s.santa = .test_elves ∨ s.santa = .assign_reindeer) :
    (g.taken = [] ∨ g.taken.length = 3) ∧ g.decremented.Perm g.taken := by
  have hidle := h.balance.idle (by obtain hsanta | hsanta := hsanta <;> rw [hsanta] <;> rfl)
  have hhelped := h.balance.helped
  have htook := h.grouped.took
  refine ⟨?_, ?_⟩
  · obtain hsanta | hsanta := hsanta <;> rw [hsanta] at htook <;> simpa using htook
  · apply (List.perm_ext_iff_of_nodup h.grouped.decremented_nodup h.grouped.taken_nodup).mpr
    intro id
    refine ⟨h.grouped.decremented_sub id, fun htaken => ?_⟩
    by_contra hnot
    have hpos : 0 < s.owing := tally_pos id ((h.grouped.owing id).mpr ⟨htaken, hnot⟩)
    omega

/-- In every run, for any number of elves and reindeer, the set of waiting elves is what its
    cardinality says, Santa always finds the three elves he looks for, and he turns to nothing
    else before they have been helped. -/
theorem groups_safe {as : List (Move E R)} (h : run next (initial E R) as = some s) :
    Safe s (group (trace next event (initial E R) as)) := by
  have hinv := Inv.of_run h
  obtain ⟨hcard, -, -, -, hcounting, hhelped, hle, -, -, hready⟩ := hinv.balance
  have hhelping := helping_cases s.num_elves_being_helped
  refine ⟨hcard, ?_, fun i hsanta => ?_, fun a elf hevent => ?_, hinv.grouped.taken_nodup, fun hsanta => ?_,
    ⟨by omega, hle⟩, fun a hevent => hinv.done (event_begins hevent)⟩
  · have htogo := s.santa.togo_le
    have hle : s.elves_waiting.cardinality ≤ 3 := by omega
    exact hle
  · have hneed := hready (3 - i) (by rw [hsanta]; rfl)
    have hi : i.val < 3 := i.isLt
    exact count_pos.mp (show 0 < s.occupied by omega)
  · obtain ⟨⟨i, hsanta⟩, hslot⟩ := event_take hevent
    refine ⟨hinv.line_wait_of_slot hsanta hslot, fun hmem => ?_⟩
    have hout := hinv.grouped.out (by rw [hsanta]; rfl) elf hmem
    simp [hslot] at hout
  · have htook := hinv.grouped.took
    rw [hsanta] at htook
    exact htook

/-- Three elves are helped and queue once more, and Santa is about to turn to them again. -/
def twoGroups : List (Move 3 1) :=
  List.replicate 7 (Move.elf 0) ++ List.replicate 7 (Move.elf 1) ++ List.replicate 8 (Move.elf 2) ++
    List.replicate 11 Move.santa ++ [Move.draw 1] ++
    List.replicate 3 Move.santa ++ [Move.draw 1, Move.draw 0] ++
    List.replicate 3 Move.santa ++ [Move.draw 2] ++ List.replicate 3 Move.santa ++
    List.replicate 4 (Move.elf 0) ++ List.replicate 4 (Move.elf 1) ++ List.replicate 6 (Move.elf 2) ++
    List.replicate 7 (Move.elf 2) ++ List.replicate 7 (Move.elf 1) ++ List.replicate 8 (Move.elf 0) ++
    List.replicate 4 Move.santa

theorem groups_safe_twoGroups :
    ∃ s, run next (initial 3 1) twoGroups = some s ∧ s.santa = .test_elves ∧
      group (trace next event (initial 3 1) twoGroups) = ⟨[1, 0, 2], [0, 1, 2]⟩ ∧
      Safe s (group (trace next event (initial 3 1) twoGroups)) := by
  have hlast : (run next (initial 3 1) twoGroups).map State.santa = some .test_elves := by decide +kernel
  obtain ⟨s, hrun, hsanta⟩ := Option.map_eq_some_iff.mp hlast
  exact ⟨s, hrun, hsanta, by decide +kernel, groups_safe hrun⟩

end Safety

end cs444.prob2
