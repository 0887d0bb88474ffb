import Cs444.Slob.Calls

namespace cs444.slob.frontend

variable {P : Platform} {w w₀ : World} {o : Object} {n : Nat} {calls : List Call}

/-- A `kmalloc` object stays until its `kfree`. -/
theorem Inv.kmalloc_stays {call : Call} {w' : World} (hi : Inv P w) (ho : o ∈ w.live) (huse : o.use = .kmalloc n)
    (hv : call.Valid P w) (hnot : call ≠ .kfree o.ptr) (hstep : step P w call = .ok w') : o ∈ w'.live := by
  obtain hstays | hkfree | hdestroy | ⟨c, -, hfree⟩ | ⟨head, -, hhead⟩ := mem_step ho hstep
  · exact hstays
  · exact absurd hkfree hnot
  · subst hdestroy
    obtain ⟨d, hcache⟩ := hi.cache_of_destroy ho hv
    exact absurd (huse.symm.trans hcache) (by simp)
  · exact absurd (by rw [Object.free, huse]) hfree
  · rw [Object.head, huse] at hhead
    cases hhead

/-- `ksize` tells of at least `n` bytes from `p` on that are in `x`, and in what was taken for no other
    allocation. -/
def Usable (P : Platform) (w : World) (n p : Nat) (x : Extent) : Prop :=
  ∃ size, P.ksize w.kernel p = .ok size ∧ n ≤ size ∧ ∀ a, p ≤ a → a < p + size →
    x.Covers P (a / P.SLOB_UNIT) ∧ ∀ o ∈ w.live, o.ptr ≠ p → ¬ o.extent.Covers P (a / P.SLOB_UNIT)

theorem Inv.usable (hi : Inv P w) (ho : o ∈ w.live) (huse : o.use = .kmalloc n) : Usable P w n o.ptr o.extent := by
  obtain ⟨hksize, hle⟩ := hi.ksize ho huse
  refine ⟨_, hksize, hle, fun a hlo hhi => ?_⟩
  have hcovers := (hi.objects o ho).usable_covers hlo hhi
  exact ⟨hcovers, (hi.alone ho _ hcovers).2⟩

/-- In every heap that is reached, `__kmalloc_node` returns. If it gives a pointer, it has taken units that
    were not in use, and as long as the pointer is not given to `kfree`, whatever else is called and written,
    `ksize` tells of bytes that are the caller's alone, and `kfree` would give back the units that were taken
    and no others. -/
theorem kmalloc_exact (hs : Initial w₀) (hv : checked.ValidRun (step P) (Call.Valid P) w₀ calls) :
    ∃ w, checked.run (step P) w₀ calls = .ok w ∧
      ∀ n gfp page, 0 < n → (Call.__kmalloc_node n gfp page).Valid P w →
        ∃ r k, P.__kmalloc_node w.kernel n gfp page = .ok (r, k) ∧
          ∀ p, r = some p → ∃ x, Obtained P w.kernel k x ∧
            step P w (.__kmalloc_node n gfp page) = .ok ⟨k, ⟨p, x, .kmalloc n⟩ :: w.live⟩ ∧
            ∀ calls', checked.ValidRun (step P) (Call.Valid P) ⟨k, ⟨p, x, .kmalloc n⟩ :: w.live⟩ calls' →
              .kfree p ∉ calls' →
              ∃ w', checked.run (step P) ⟨k, ⟨p, x, .kmalloc n⟩ :: w.live⟩ calls' = .ok w' ∧ Usable P w' n p x ∧
                ∃ k', P.kfree w'.kernel p = .ok k' ∧ Returned P w'.kernel k' x := by
  obtain ⟨w, hrun, hi⟩ := hs.inv.run_ok hv
  refine ⟨w, hrun, fun n gfp page hpos hvalid => ?_⟩
  obtain ⟨r, hcall, hnone⟩ | ⟨⟨p, x, use⟩, k, hcall, hmade⟩ := hi.__kmalloc_node hvalid
  · refine ⟨r, w.kernel, hcall, fun p hp => ?_⟩
    rw [hnone hpos] at hp
    cases hp
  · obtain rfl : use = .kmalloc n := hmade.use_eq
    refine ⟨some p, k, hcall, fun q hq => ?_⟩
    cases hq
    refine ⟨x, hmade.obtained hi, ?_, fun calls' hv' hnot => ?_⟩
    · simp only [step, hcall, bind, Except.bind, pure, Except.pure, World.enter_acquired hmade.log]
    · obtain ⟨w', hrun', hi', ho'⟩ := hmade.inv.run_mem (· = .kfree p)
        (fun _ _ hi ho hv hne _ hstep => hi.kmalloc_stays ho rfl hv hne hstep) List.mem_cons_self hv'
        (fun call hcall hkfree => hnot (hkfree ▸ hcall))
      obtain ⟨k', hkfree, hgave⟩ := hi'.kfree ho' rfl
      exact ⟨w', hrun', hi'.usable ho' rfl, k', hkfree, hgave.returned hi'.backed (List.mem_map_of_mem ho')⟩

theorem kmalloc_exact_boot :
    ∃ k x, x86.__kmalloc_node bootWorld.kernel 7 ⟨false, false⟩ (some 1) = .ok (some 4100, k) ∧
      Obtained x86 bootWorld.kernel k x ∧ Usable x86 ⟨k, [⟨4100, x, .kmalloc 7⟩]⟩ 7 4100 x ∧
      ∃ k', x86.kfree k 4100 = .ok k' ∧ Returned x86 k k' x := by
  have hptr : (x86.__kmalloc_node bootWorld.kernel 7 ⟨false, false⟩ (some 1)).map Prod.fst = .ok (some 4100) := by
    decide +kernel
  have hvalid : (Call.__kmalloc_node 7 ⟨false, false⟩ (some 1)).Valid x86 bootWorld := by
    refine ⟨by decide, by decide, fun pfn hpfn => ?_⟩
    cases hpfn
    exact ⟨by decide, fun _ _ _ => ⟨rfl, rfl⟩⟩
  have hstart : checked.ValidRun (step x86) (Call.Valid x86) bootWorld [] := trivial
  obtain ⟨w, hrun, h⟩ := kmalloc_exact bootWorld_initial hstart
  cases hrun
  obtain ⟨r, k, hcall, hp⟩ := h 7 ⟨false, false⟩ (some 1) (by decide) hvalid
  rw [hcall] at hptr
  cases hptr
  obtain ⟨x, hobtained, -, hlater⟩ := hp 4100 rfl
  obtain ⟨w', hrun', husable, hkfree⟩ := hlater [] trivial (by simp)
  cases hrun'
  exact ⟨k, x, hcall, hobtained, husable, hkfree⟩

end cs444.slob.frontend
