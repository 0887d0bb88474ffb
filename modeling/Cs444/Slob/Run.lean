import Cs444.Slob.AllocOps

open interval

namespace cs444.slob

variable {g : Geometry} {s s' : State}

/-- The heap at boot satisfies the invariant. -/
theorem Initial.inv (hs : Initial s) : Inv g s := by
  have hslab : ∀ pfn, (s.heap.page pfn).slab ≠ true := by simp [hs.slab]
  refine ⟨{ pages := ?_, blocks := ?_, apart := ?_, listed := ?_, onList := ?_, nodup := ?_,
            oneList := ?_, listClass := ?_, pageClass := ?_, unheld := ?_ }, ?_⟩
  · exact fun pfn h => absurd h (hslab pfn)
  · simp [hs.live]
  · simp [hs.live]
  · simp [hs.list]
  · exact fun pfn h => absurd h (hslab pfn)
  · simp [hs.list]
  · simp [hs.list]
  · simp [hs.list]
  · simp [hs.live]
  · exact fun pfn _ => hs.slobFree pfn
  · exact fun pfn h => absurd h (hslab pfn)

/-- A listed page has a positive number. -/
theorem Inv.pos_of_held (hi : Inv g s) {pfn : Nat} (hslab : (s.heap.page pfn).slab = true) : 0 < pfn := by
  obtain ⟨b, hb, rfl⟩ := hi.occupied pfn hslab
  exact (hi.core.blocks b hb).pos

/-- What a carve leaves of the flags `PG_slab`. -/
theorem CarvedFrom.slab_eq {h h' : Heap} {pfn : Nat} {l l' : List Interval}
    (hcarve : CarvedFrom h h' pfn l l') (q : Nat) : (h'.page q).slab = (h.page q).slab := by
  by_cases hq : q = pfn
  · rw [hq, hcarve.slab]
  · rw [hcarve.other q hq]

/-- The page of a carved block. -/
theorem Carved.page_eq {h h₁ : Heap} {live : List Block} {pfn size align b : Nat} {l l' : List Interval}
    (hcarved : Carved g h h₁ live pfn size align b l l') (hsize : 0 < size) : g.virt_to_page b = pfn := by
  have hunits := g.SLOB_UNITS_pos hsize
  obtain ⟨-, hsub, -⟩ := listAlloc_eq_some hcarved.before.gapped hunits hcarved.alloc
  exact hcarved.before.covers_page (hsub b ⟨le_refl _, by dsimp only; omega⟩)

/-- What a valid call of `slob_alloc` asks for, and what becomes of it. -/
theorem Inv.alloc_outcome (hi : Inv g s) {size align : Nat} {zero : Bool} {page : Option Nat}
    (hv : (Call.slob_alloc size align zero page).Valid g s) :
    Request g size align ∧
      AllocOutcome g s.heap s.live size align zero page (g.slob_alloc s.heap size align zero page) := by
  obtain ⟨hpos, hle, hisAlign, halign, hpage⟩ := hv
  have hreq : Request g size align := ⟨hpos, hle, hisAlign⟩
  exact ⟨hreq, hi.core.slob_alloc hreq halign zero fun pfn hpfn => (hpage pfn hpfn).2⟩

/-- `slob_alloc` keeps the invariant. -/
theorem Inv.slob_alloc (hi : Inv g s) {size align : Nat} (zero : Bool) {page : Option Nat}
    (hv : (Call.slob_alloc size align zero page).Valid g s) :
    ∃ s', step g s (.slob_alloc size align zero page) = .ok s' ∧ Inv g s' := by
  obtain ⟨hreq, hout⟩ := hi.alloc_outcome hv
  obtain ⟨hpos, -, -, -, hpage⟩ := hv
  generalize hr : g.slob_alloc s.heap size align zero page = r at hout
  cases hout with
  | refused hnone =>
    refine ⟨s, ?_, hi⟩
    rw [step, hr]
    rfl
  | listed hlisted hcarved =>
    rename_i pfn b l l' h₁
    have hheld := (hi.core.listed _ pfn hlisted).1
    have hcore := hcarved.core hi.core hlisted (hi.pos_of_held hheld) hreq
    refine ⟨⟨_, ⟨b, size, align⟩ :: s.live⟩, by rw [step, hr]; rfl, ?_, ?_⟩
    · exact ((hcore.of_counters _ _).rotate _ _).slob_alloc_zero zero
    · intro q hq
      simp only [Geometry.slob_alloc_zero_page, Heap.rotate_page, hcarved.rest.slab_eq] at hq
      obtain ⟨a, ha, hpa⟩ := hi.occupied q hq
      exact ⟨a, List.mem_cons_of_mem _ ha, hpa⟩
  | fresh hnone hcarved =>
    rename_i pfn b l' h₁
    obtain ⟨hpfn, hunheld⟩ := hpage pfn rfl
    obtain ⟨hcore', -⟩ := hi.core.slob_alloc_setup hunheld size
    have hlisted : pfn ∈ (g.slob_alloc_setup s.heap size pfn).list (sizeClass size) :=
      mem_slob_alloc_setup_list.mpr (.inr ⟨rfl, rfl⟩)
    have hcore := hcarved.core hcore' hlisted hpfn hreq
    refine ⟨⟨_, ⟨b, size, align⟩ :: s.live⟩, by rw [step, hr]; rfl, ?_, ?_⟩
    · exact (hcore.of_counters _ _).slob_alloc_zero zero
    · intro q hq
      simp only [Geometry.slob_alloc_zero_page, hcarved.rest.slab_eq] at hq
      by_cases hqp : q = pfn
      · exact ⟨_, List.mem_cons_self, (hcarved.page_eq hpos).trans hqp.symm⟩
      · rw [slob_alloc_setup_page hqp] at hq
        obtain ⟨a, ha, hpa⟩ := hi.occupied q hq
        exact ⟨a, List.mem_cons_of_mem _ ha, hpa⟩

/-- What `slob_free` can do with a live block. `released`: it was the last one of its
    page, which is given back. `returned`: its units are merged into the free list. -/
inductive FreeOutcome (g : Geometry) (h : Heap) (live : List Block) (b : Block) :
    Except Fault Heap → Prop where
  | released {h' : Heap}
    (hlast : ∀ a ∈ live, g.virt_to_page a.addr = g.virt_to_page b.addr → a = b)
    (hrel : Released g h h' (g.virt_to_page b.addr) b.size) : FreeOutcome g h live b (.ok h')
  | returned {h' : Heap} {l : List Interval} (hp : PageOk g h (g.virt_to_page b.addr) l)
    (hcomp : Complements g live (g.virt_to_page b.addr) l)
    (hp' : PageOk g h' (g.virt_to_page b.addr) (merge (b.extent g) l))
    (hret : ReturnedTo h h' (g.virt_to_page b.addr) l (b.extent g) b.size)
    (hmore : ∃ a ∈ live, a ≠ b ∧ g.virt_to_page a.addr = g.virt_to_page b.addr) :
    FreeOutcome g h live b (.ok h')

/-- A page that a block and the free units do not fill has another live block. -/
theorem Core.other_on_page {h : Heap} {live : List Block} {b : Block} {l : List Interval}
    (hc : Core g h live) (hb : b ∈ live) (hp : PageOk g h (g.virt_to_page b.addr) l)
    (hcomp : Complements g live (g.virt_to_page b.addr) l)
    (hmore : total l + g.SLOB_UNITS b.size ≠ g.pageUnits) :
    ∃ a ∈ live, a ≠ b ∧ g.virt_to_page a.addr = g.virt_to_page b.addr := by
  have hr := hc.returnable hb hcomp
  have hgap := hp.gapped.merge (x := b.extent g) hr.lo (g.SLOB_UNITS_pos hr.size_pos) hr.hi hr.disjoint
  by_contra hnone
  have hall : ∀ u, g.virt_to_page b.addr * g.pageUnits ≤ u →
      u < g.virt_to_page b.addr * g.pageUnits + g.pageUnits → covers (merge (b.extent g) l) u := by
    intro u hlo hhi
    have hu := Geometry.virt_to_page_eq_iff.mpr ⟨hlo, hhi⟩
    rw [covers_merge, hcomp u hu]
    by_contra hnot
    rw [not_or, not_not] at hnot
    obtain ⟨x, hx, hcov⟩ := hnot.2
    obtain ⟨a, ha, rfl⟩ := List.mem_map.mp hx
    refine hnone ⟨a, ha, ?_, ((hc.blocks a ha).page_of_covers hcov).symm.trans hu⟩
    rintro rfl
    exact hnot.1 hcov
  have htotal := hgap.total_of_covers (Nat.le_add_right _ _) hall
  rw [total_merge] at htotal
  simp only [Block.extent] at htotal
  omega

/-- `slob_free` of a live block returns. -/
theorem Core.slob_free {h : Heap} {live : List Block} {b : Block} (hc : Core g h live) (hb : b ∈ live) :
    FreeOutcome g h live b (g.slob_free h b.addr b.size) := by
  obtain ⟨l, hp, hcomp⟩ := hc.pages _ (hc.blocks b hb).held
  have hr := hc.returnable hb hcomp
  by_cases hfull : total l + g.SLOB_UNITS b.size = g.pageUnits
  · obtain ⟨h', hcall, hrel⟩ := slob_free_last hp hr hfull
    rw [hcall]
    exact .released (fun a ha hpage => hc.last_on_page ha hb hp hcomp hfull hpage) hrel
  · obtain ⟨h', hcall, hp', hret⟩ := slob_free_other hp hr hfull
    rw [hcall]
    exact .returned hp hcomp hp' hret (hc.other_on_page hb hp hcomp hfull)

/-- `slob_free` keeps the invariant. -/
theorem Inv.slob_free (hi : Inv g s) {b : Block} (hb : b ∈ s.live) :
    ∃ s', step g s (.slob_free b.addr b.size) = .ok s' ∧ Inv g s' := by
  have hout := hi.core.slob_free hb
  generalize hr : g.slob_free s.heap b.addr b.size = r at hout
  cases hout with
  | released hlast hrel =>
    refine ⟨⟨_, s.live.filter fun a => a.addr ≠ b.addr⟩, by rw [step, hr]; rfl, ?_, ?_⟩
    · exact hi.core.release hb hlast hrel
    · intro q hq
      have hqp : q ≠ g.virt_to_page b.addr := by
        rintro rfl
        rw [hrel.slab] at hq
        exact Bool.noConfusion hq
      rw [hrel.other q hqp] at hq
      obtain ⟨a, ha, hpa⟩ := hi.occupied q hq
      refine ⟨a, List.mem_filter.mpr ⟨ha, ?_⟩, hpa⟩
      rw [decide_eq_true_eq]
      intro haddr
      exact hqp (by rw [← hpa, haddr])
  | returned hp hcomp hp' hret hmore =>
    refine ⟨⟨_, s.live.filter fun a => a.addr ≠ b.addr⟩, by rw [step, hr]; rfl, ?_, ?_⟩
    · exact hi.core.give_back hb hp hcomp hp' hret
    · intro q hq
      by_cases hqp : q = g.virt_to_page b.addr
      · obtain ⟨a, ha, hne, hpa⟩ := hmore
        refine ⟨a, List.mem_filter.mpr ⟨ha, ?_⟩, hpa.trans hqp.symm⟩
        rw [decide_eq_true_eq]
        exact fun haddr => hne (hi.core.eq_of_addr ha hb haddr)
      · rw [hret.other q hqp] at hq
        obtain ⟨a, ha, hpa⟩ := hi.occupied q hq
        refine ⟨a, List.mem_filter.mpr ⟨ha, ?_⟩, hpa⟩
        rw [decide_eq_true_eq]
        intro haddr
        exact hqp (by rw [← hpa, haddr])

/-- A write by the owner of a cell keeps the invariant. -/
theorem Inv.store (hi : Inv g s) {u : Nat} {value : Int} (hv : (Call.store u value).Valid g s) :
    Inv g { s with heap.mem := Function.update s.heap.mem u value } := by
  refine ⟨hi.core.of_mem fun v hheld hlive => ?_, hi.occupied⟩
  have hvu : v ≠ u := by
    rintro rfl
    obtain hl | hslab := hv
    · exact hlive hl
    · rw [hslab] at hheld
      exact Bool.noConfusion hheld
  exact Function.update_of_ne hvu _ _

/-- Every valid call returns and keeps the invariant. -/
theorem Inv.step_ok (hi : Inv g s) {c : Call} (hv : c.Valid g s) : ∃ s', step g s c = .ok s' ∧ Inv g s' := by
  cases c with
  | slob_alloc size align zero page => exact hi.slob_alloc zero hv
  | slob_free block size =>
    obtain ⟨b, hb, rfl, rfl⟩ := hv
    exact hi.slob_free hb
  | store u value => exact ⟨_, rfl, hi.store hv⟩

/-- Every valid sequence of calls returns and keeps the invariant. -/
theorem Inv.run_ok (hi : Inv g s) {cs : List Call} (hv : ValidRun g s cs) :
    ∃ s', run g s cs = .ok s' ∧ Inv g s' := by
  induction cs generalizing s with
  | nil => exact ⟨s, rfl, hi⟩
  | cons c cs ih =>
    obtain ⟨s₁, hstep, hi₁⟩ := hi.step_ok hv.1
    obtain ⟨s', hrun, hi'⟩ := ih hi₁ (hv.2 s₁ hstep)
    refine ⟨s', ?_, hi'⟩
    rw [run, hstep]
    exact hrun

section Boot

/-- Pages of 4096 bytes. -/
def page4096 : Geometry := ⟨12, by decide, by decide⟩

/-- A heap at boot over zeroed memory. -/
def boot : State where
  heap :=
    { mem := fun _ => 0
      page := fun _ => { units := 0, free := 0, slab := false, slobFree := false }
      list := fun _ => []
      mem_used := 0
      mem_claimed := 0 }
  live := []

theorem boot_initial : Initial boot :=
  ⟨rfl, fun _ => rfl, fun _ => rfl, fun _ => rfl, rfl, rfl⟩

/-- Two allocations, the first from a new page, and a free that leaves the page split
    into two free blocks. -/
def sampleCalls : List Call :=
  [.slob_alloc 8 0 false (some 1), .slob_alloc 24 16 true none, .slob_free 2048 8]

theorem sampleCalls_live :
    (run page4096 boot (sampleCalls.take 2)).map State.live = .ok [⟨2056, 24, 16⟩, ⟨2048, 8, 0⟩] := rfl

theorem sampleCalls_valid : ValidRun page4096 boot sampleCalls := by
  refine ⟨⟨by decide, by decide, .inl rfl, by decide, fun pfn hpfn => ?_⟩, fun s₁ hs₁ =>
    ⟨⟨by decide, by decide, .inr ⟨4, rfl⟩, by decide, by simp⟩, fun s₂ hs₂ => ⟨?_, fun _ _ => trivial⟩⟩⟩
  · obtain rfl : 1 = pfn := by simpa using hpfn
    exact ⟨by decide, rfl⟩
  · have hrun : run page4096 boot (sampleCalls.take 2) = .ok s₂ := by
      simp only [sampleCalls, List.take, run, hs₁, hs₂, bind, Except.bind]
    have hlive := sampleCalls_live
    rw [hrun] at hlive
    have hlive : s₂.live = [⟨2056, 24, 16⟩, ⟨2048, 8, 0⟩] := by simpa [Except.map] using hlive
    exact ⟨⟨2048, 8, 0⟩, by simp [hlive], rfl, rfl⟩

end Boot

end cs444.slob
