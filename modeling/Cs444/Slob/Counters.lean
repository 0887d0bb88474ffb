import Cs444.Slob.Run

open interval

namespace cs444.slob

variable {g : Geometry} {s s' : State} {c : Call} {cs : List Call}

/-- The bytes the live blocks were requested with. -/
def liveBytes (live : List Block) : Nat :=
  (live.map Block.size).sum

@[simp] theorem liveBytes_nil : liveBytes [] = 0 := rfl

@[simp] theorem liveBytes_cons (b : Block) (live : List Block) :
    liveBytes (b :: live) = b.size + liveBytes live := by
  simp [liveBytes]

/-- The page the page allocator answers with, if the call asks for one. -/
def Call.page : Call → Option Nat
  | .slob_alloc _ _ _ page => page
  | _ => none

/-- The bytes a call serves from a page it takes from the page allocator: the size of
    an allocation whose offered page is held after the call. -/
def Call.newPageBytes (s' : State) : Call → Nat
  | .slob_alloc size _ _ (some pfn) => if (s'.heap.page pfn).slab then size else 0
  | _ => 0

/-- The bytes served from new pages over a sequence of calls. -/
def newPageBytes (g : Geometry) : State → List Call → Nat
  | _, [] => 0
  | s, c :: cs =>
    match step g s c with
    | .error _ => 0
    | .ok s' => c.newPageBytes s' + newPageBytes g s' cs

/-- What the counters are for: `mem_used` counts the bytes of the live blocks, and the
    figure for free bytes lies between zero and the figure for claimed bytes. -/
structure Tracked (s : State) : Prop where
  used : s.heap.mem_used = liveBytes s.live
  free_nonneg : 0 ≤ sys_get_slob_amt_free s.heap
  free_le : sys_get_slob_amt_free s.heap ≤ sys_get_slob_amt_claimed s.heap

theorem toInt_add (x y : Int) : toInt (toInt x + y) = toInt (x + y) :=
  Int.bmod_add_bmod

theorem toInt_sub (x y : Int) : toInt (toInt x - y) = toInt (x - y) :=
  Int.bmod_sub_bmod

theorem Core.perm_filter {h : Heap} {live : List Block} {b : Block} (hc : Core g h live) (hb : b ∈ live) :
    live.Perm (b :: live.filter fun a => a.addr ≠ b.addr) := by
  have hnodup : live.Nodup := by
    apply hc.apart.imp_of_mem
    rintro a d ha - hap rfl
    have := g.SLOB_UNITS_pos (hc.blocks a ha).size_pos
    rw [Block.Apart] at hap
    omega
  have herase : live.filter (fun a => a.addr ≠ b.addr) = live.erase b := by
    rw [hnodup.erase_eq_filter]
    apply List.filter_congr
    intro a ha
    have hiff : a.addr = b.addr ↔ a = b := ⟨hc.eq_of_addr ha hb, congrArg Block.addr⟩
    simp [hiff, bne, beq_eq_decide]
  rw [herase]
  exact List.perm_cons_erase hb

theorem Core.liveBytes_filter {h : Heap} {live : List Block} {b : Block} (hc : Core g h live)
    (hb : b ∈ live) : liveBytes live = b.size + liveBytes (live.filter fun a => a.addr ≠ b.addr) := by
  rw [← liveBytes_cons]
  exact ((hc.perm_filter hb).map Block.size).sum_nat

theorem newPageBytes_eq_zero {size align : Nat} {zero : Bool} {page : Option Nat}
    (hpage : ∀ pfn, page = some pfn → (s'.heap.page pfn).slab = false) :
    Call.newPageBytes s' (.slob_alloc size align zero page) = 0 := by
  cases page with
  | none => rfl
  | some pfn => simp [Call.newPageBytes, hpage pfn rfl]

/-- One call moves `mem_used` by the change of the live bytes, except that bytes served
    from a new page are not added. -/
theorem Inv.mem_used_step (hi : Inv g s) (hv : c.Valid g s) (hstep : step g s c = .ok s') {d : Nat}
    (hused : s.heap.mem_used = toInt (liveBytes s.live - d)) :
    s'.heap.mem_used = toInt (liveBytes s'.live - (d + c.newPageBytes s' : Nat)) := by
  cases c with
  | slob_alloc size align zero page =>
    obtain ⟨-, hout⟩ := hi.alloc_outcome hv
    obtain ⟨-, -, -, -, hpage⟩ := hv
    generalize hr : g.slob_alloc s.heap size align zero page = r at hout
    rw [step, hr] at hstep
    cases hout with
    | refused hnone =>
      obtain rfl : s = s' := by simpa [bind, Except.bind, pure, Except.pure] using hstep
      simpa [Call.newPageBytes] using hused
    | listed hlisted hcarved =>
      cases hstep
      rw [newPageBytes_eq_zero fun pfn hpfn => by
        simp only [Geometry.slob_alloc_zero_page, Heap.rotate_page, hcarved.rest.slab_eq]
        exact (hpage pfn hpfn).2]
      simp only [Geometry.slob_alloc_zero_mem_used, Heap.rotate_mem_used, hcarved.rest.used, hused,
        toInt_add, liveBytes_cons]
      congr 1
      omega
    | fresh hnone hcarved =>
      rename_i pfn b l' h₁
      cases hstep
      have hslab : (h₁.page pfn).slab = true := by
        rw [hcarved.rest.slab_eq]
        exact slob_alloc_setup_slab
      simp only [Geometry.slob_alloc_zero_mem_used, hcarved.rest.used, liveBytes_cons, Call.newPageBytes,
        Geometry.slob_alloc_zero_page, hslab, if_true]
      rw [slob_alloc_setup_mem_used, hused]
      congr 1
      omega
  | slob_free block size =>
    obtain ⟨b, hb, rfl, rfl⟩ := hv
    have hout := hi.core.slob_free hb
    have hbytes := hi.core.liveBytes_filter hb
    generalize hr : g.slob_free s.heap b.addr b.size = r at hout
    rw [step, hr] at hstep
    cases hout with
    | released hlast hrel =>
      cases hstep
      rw [hrel.used, hused, toInt_sub, hbytes]
      congr 1
      simp only [Call.newPageBytes]
      omega
    | returned hp hcomp hp' hret hmore =>
      cases hstep
      rw [hret.used, hused, toInt_sub, hbytes]
      congr 1
      simp only [Call.newPageBytes]
      omega
  | store u value =>
    cases hstep
    simpa [Call.newPageBytes] using hused

/-- Over a sequence of calls `mem_used` falls behind the live bytes by exactly the bytes
    served from new pages, up to the 32 bits of the counter. -/
theorem Inv.mem_used_run (hi : Inv g s) (hv : ValidRun g s cs) (hrun : run g s cs = .ok s') {d : Nat}
    (hused : s.heap.mem_used = toInt (liveBytes s.live - d)) :
    s'.heap.mem_used = toInt (liveBytes s'.live - (d + newPageBytes g s cs : Nat)) := by
  induction cs generalizing s d with
  | nil =>
    cases hrun
    exact hused
  | cons c cs ih =>
    obtain ⟨s₁, hstep, hi₁⟩ := hi.step_ok hv.1
    rw [run, hstep] at hrun
    rw [newPageBytes, hstep, ← Nat.add_assoc]
    exact ih hi₁ (hv.2 s₁ hstep) hrun (hi.mem_used_step hv.1 hstep hused)

theorem Call.newPageBytes_le (hv : c.Valid g s) (s' : State) : c.newPageBytes s' ≤ g.PAGE_SIZE := by
  cases c with
  | slob_alloc size align zero page =>
    cases page with
    | none => exact Nat.zero_le _
    | some pfn =>
      rw [Call.newPageBytes]
      split
      · exact hv.2.1
      · exact Nat.zero_le _
  | slob_free block size => exact Nat.zero_le _
  | store u value => exact Nat.zero_le _

theorem eq_zero_of_toInt {x n : Nat} (hn : n < 2 ^ 32) (h : (x : Int) = toInt (x - n)) : n = 0 := by
  have hdvd := Int.dvd_bmod_sub_self (x := (x : Int) - n) (m := 2 ^ 32)
  rw [toInt] at h
  rw [← h, sub_sub_cancel] at hdvd
  exact Nat.eq_zero_of_dvd_of_lt (Int.natCast_dvd_natCast.mp hdvd) hn

/-- If the counters are right after every call, no call was served from a new page. -/
theorem Inv.newPageBytes_eq_zero_of_tracked (hi : Inv g s) (hv : ValidRun g s cs)
    (hused : s.heap.mem_used = toInt (liveBytes s.live))
    (htracked : ∀ pre, pre <+: cs → ∀ s', run g s pre = .ok s' → Tracked s') :
    newPageBytes g s cs = 0 := by
  induction cs generalizing s with
  | nil => rfl
  | cons c cs ih =>
    obtain ⟨s₁, hstep, hi₁⟩ := hi.step_ok hv.1
    have hused₁ := hi.mem_used_step (d := 0) hv.1 hstep (by simpa using hused)
    have hfirst : Tracked s₁ := htracked [c] (by simp) s₁ (by simp [run, hstep, bind, Except.bind])
    have hzero : c.newPageBytes s₁ = 0 := by
      have hle := Call.newPageBytes_le hv.1 s₁
      have hpage := g.PAGE_SIZE_le
      apply eq_zero_of_toInt (x := liveBytes s₁.live) (by omega)
      have hused := hfirst.used
      rw [hused₁, Nat.zero_add] at hused
      exact hused.symm
    rw [hzero] at hused₁
    rw [newPageBytes, hstep]
    simp only [hzero, Nat.zero_add]
    apply ih hi₁ (hv.2 s₁ hstep) (by simpa using hused₁)
    intro pre hpre s' hrun
    apply htracked (c :: pre) (by simpa using hpre)
    rw [run, hstep]
    exact hrun

/-- Without a page from the page allocator, a heap that holds no page stays that way.
    With one, the block is served from it. -/
theorem Initial.step (hs : Initial s) (hv : c.Valid g s) (hstep : slob.step g s c = .ok s') :
    (c.page = none → Initial s') ∧ (c.page ≠ none → c.newPageBytes s' ≠ 0) := by
  cases c with
  | slob_alloc size align zero page =>
    obtain ⟨-, hout⟩ := hs.inv.alloc_outcome hv
    have hpos : 0 < size := hv.1
    generalize hr : g.slob_alloc s.heap size align zero page = r at hout
    rw [slob.step, hr] at hstep
    cases hout with
    | refused hnone =>
      cases hstep
      exact ⟨fun _ => hs, fun hne => absurd rfl hne⟩
    | listed hlisted hcarved => simp [hs.list] at hlisted
    | fresh hnone hcarved =>
      cases hstep
      refine ⟨fun hnone => by simp [Call.page] at hnone, fun _ => ?_⟩
      simp only [Call.newPageBytes, Geometry.slob_alloc_zero_page, hcarved.rest.slab_eq,
        slob_alloc_setup_slab, if_true]
      omega
  | slob_free block size =>
    obtain ⟨b, hb, -⟩ := hv
    simp [hs.live] at hb
  | store u value =>
    cases hstep
    exact ⟨fun _ => ⟨hs.live, hs.list, hs.slab, hs.slobFree, hs.used, hs.claimed⟩, fun hne => absurd rfl hne⟩

theorem Initial.page_eq_none_of_newPageBytes (hs : Initial s) (hv : ValidRun g s cs)
    (hzero : newPageBytes g s cs = 0) : ∀ c ∈ cs, c.page = none := by
  induction cs generalizing s with
  | nil => simp
  | cons c cs ih =>
    obtain ⟨s₁, hstep, -⟩ := hs.inv.step_ok hv.1
    rw [newPageBytes, hstep, Nat.add_eq_zero_iff] at hzero
    obtain ⟨hkeep, htake⟩ := hs.step hv.1 hstep
    have hnone : c.page = none := by
      by_contra hne
      exact htake hne hzero.1
    intro c' hc'
    obtain rfl | hc' := List.mem_cons.mp hc'
    · exact hnone
    · exact ih (hkeep hnone) (hv.2 s₁ hstep) hzero.2 c' hc'

theorem Initial.run (hs : Initial s) (hv : ValidRun g s cs) (hnone : ∀ c ∈ cs, c.page = none)
    {pre : List Call} (hpre : pre <+: cs) (hrun : slob.run g s pre = .ok s') : Initial s' := by
  induction cs generalizing s pre with
  | nil =>
    obtain rfl := List.prefix_nil.mp hpre
    cases hrun
    exact hs
  | cons c cs ih =>
    cases pre with
    | nil =>
      cases hrun
      exact hs
    | cons c' pre =>
      obtain ⟨rfl, htail⟩ := List.cons_prefix_cons.mp hpre
      obtain ⟨s₁, hstep, -⟩ := hs.inv.step_ok hv.1
      rw [slob.run, hstep] at hrun
      apply ih ((hs.step hv.1 hstep).1 (hnone _ List.mem_cons_self)) (hv.2 s₁ hstep) _ htail hrun
      exact fun d hd => hnone d (List.mem_cons_of_mem _ hd)

theorem Initial.tracked (hs : Initial s) : Tracked s := by
  refine ⟨?_, ?_, ?_⟩ <;>
    simp [sys_get_slob_amt_free, sys_get_slob_amt_claimed, hs.used, hs.claimed, hs.live, toInt]

/-- The counters are right after every call of a sequence exactly if the page allocator
    gives no page to any call of it. `slob_alloc` adds the size of a block it carves
    from a listed page, but not that of a block it carves from a new one, while
    `slob_free` subtracts both. -/
theorem tracked_iff_no_page (hs : Initial s) (hv : ValidRun g s cs) :
    (∀ pre, pre <+: cs → ∀ s', run g s pre = .ok s' → Tracked s') ↔ ∀ c ∈ cs, c.page = none := by
  constructor
  · intro htracked
    apply hs.page_eq_none_of_newPageBytes hv
    apply hs.inv.newPageBytes_eq_zero_of_tracked hv _ htracked
    simp [hs.used, hs.live, toInt]
  · intro hnone pre hpre s' hrun
    exact (hs.run hv hnone hpre hrun).tracked

theorem tracked_iff_no_page_sample : Initial boot ∧ ValidRun page4096 boot sampleCalls ∧
    ((∀ pre, pre <+: sampleCalls → ∀ s', run page4096 boot pre = .ok s' → Tracked s') ↔
      ∀ c ∈ sampleCalls, c.page = none) :=
  ⟨boot_initial, sampleCalls_valid, tracked_iff_no_page boot_initial sampleCalls_valid⟩

/-- One block served from a new page and freed again: `mem_used` is 0 while the block
    is live and -8 when it is gone, and then more bytes are reported free than claimed. -/
theorem new_page_untracked : Initial boot ∧
    ValidRun page4096 boot [.slob_alloc 8 0 false (some 1), .slob_free 2048 8] ∧
    (run page4096 boot [.slob_alloc 8 0 false (some 1)]).map
      (fun s => (s.heap.mem_used, liveBytes s.live)) = .ok (0, 8) ∧
    (run page4096 boot [.slob_alloc 8 0 false (some 1), .slob_free 2048 8]).map
      (fun s => (s.heap.mem_used, liveBytes s.live, sys_get_slob_amt_free s.heap,
        sys_get_slob_amt_claimed s.heap)) = .ok (-8, 0, 8, 0) := by
  refine ⟨boot_initial, ⟨sampleCalls_valid.1, fun s₁ hs₁ => ⟨?_, fun _ _ => trivial⟩⟩, rfl, rfl⟩
  have hlive : (step page4096 boot (.slob_alloc 8 0 false (some 1))).map State.live =
      .ok [⟨2048, 8, 0⟩] := rfl
  rw [hs₁] at hlive
  have hlive : s₁.live = [⟨2048, 8, 0⟩] := by simpa [Except.map] using hlive
  exact ⟨⟨2048, 8, 0⟩, by simp [hlive], rfl, rfl⟩

end cs444.slob
