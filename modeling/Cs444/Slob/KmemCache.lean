import Cs444.Slob.Calls

namespace cs444.slob.frontend

variable {P : Platform} {w w₀ : World} {o : Object} {c : Nat} {d : Asked} {calls : List Call}

/-- An object that was given to `call_rcu` stays until its callback. -/
theorem Inv.freed_stays {call : Call} {w' : World} (hi : Inv P w) (ho : o ∈ w.live) (huse : o.use = .freed d)
    (hv : call.Valid P w) (hnot : call ≠ .kmem_rcu_free (o.ptr + d.size)) (hstep : step P w call = .ok w') :
    o ∈ w'.live := by
  obtain hstays | hkfree | hdestroy | ⟨c, -, hfree⟩ | ⟨head, hcall, hhead⟩ := mem_step ho hstep
  · exact hstays
  · subst hkfree
    obtain hnull | ⟨o', ho', hptr, n, hkmalloc⟩ := hv
    · exact absurd hnull (Nat.not_le_of_lt (hi.not_null ho))
    · rw [hi.eq_of_ptr ho' ho hptr] at hkmalloc
      exact absurd (huse.symm.trans hkmalloc) (by simp)
  · subst hdestroy
    obtain ⟨d', hcache⟩ := hi.cache_of_destroy ho hv
    exact absurd (huse.symm.trans hcache) (by simp)
  · exact absurd (by rw [Object.free, huse]) hfree
  · rw [Object.head, huse] at hhead
    cases hhead
    exact absurd hcall hnot

/-- An object is queued for RCU: nothing is given back, and only bytes of the object behind those that the
    creator of the cache has asked for are written. -/
structure Queued (P : Platform) (k k' : Kernel) (o : Object) (d : Asked) : Prop where
  log : k'.log = k.log
  rcu : k'.rcu = (o.ptr + d.size) :: k.rcu
  inUse : ∀ u, k'.InUse P u ↔ k.InUse P u
  room : d.size + P.sizeof_slob_rcu = P.cache_size d
  inside : ∀ a, o.ptr ≤ a → a < o.ptr + P.cache_size d → o.extent.Covers P (a / P.SLOB_UNIT)
  footer : ∀ a, bytes.byte P.SLOB_UNIT k'.heap.mem a ≠ bytes.byte P.SLOB_UNIT k.heap.mem a →
    o.ptr + d.size ≤ a ∧ a < o.ptr + P.cache_size d

theorem Inv.queued (hi : Inv P w) (ho : o ∈ w.live) (huse : o.use = .object c d) (hrcu : d.rcu = true) :
    Queued P w.kernel { w.kernel.write P (o.ptr + d.size + 2 * P.long) 4 (P.cache_size d) with
      rcu := (o.ptr + d.size) :: w.kernel.rcu } o d := by
  obtain ⟨hd, hplaced, -⟩ := hi.object_eq ho huse
  have hlong := P.long_eq
  have hsize := Asked.cache_size_of_rcu (P := P) hrcu
  have hinside := fun a => hplaced.covers hd.cache_size_lt (a := a)
  rw [Platform.sizeof_slob_rcu] at hsize
  refine ⟨rfl, rfl, fun u => ?_, hsize.symm, hinside, fun a ha => ?_⟩
  · obtain ⟨hback, -⟩ := hi.backed.write (a := o.ptr + d.size + 2 * P.long) (n := 4) (List.mem_map_of_mem ho)
      (fun a hlo hhi => hinside a (by omega) (by omega)) (P.cache_size d)
    exact hback.inUse_iff.trans hi.backed.inUse_iff.symm
  · by_contra hout
    exact ha (bytes.byte_store_of_not_mem P.SLOB_UNIT_pos (by omega))

theorem Inv.step_free_rcu (hi : Inv P w) (ho : o ∈ w.live) (huse : o.use = .object c d) (hrcu : d.rcu = true) :
    ∃ w', step P w (.kmem_cache_free c o.ptr) = .ok w' ∧ { o with use := .freed d } ∈ w'.live := by
  have hcall := hi.kmem_cache_free_rcu ho huse hrcu
  have hfree : o.free = some { o with use := .freed d } := by simp [Object.free, huse, hrcu]
  refine ⟨_, by simp only [step, hcall, bind, Except.bind, pure, Except.pure]; rfl, ?_⟩
  exact List.mem_filterMap.mpr ⟨o, ho, by rw [if_pos rfl, hfree]⟩

/-- In every state that is reached: what was taken from a back end is held or was given back once, to the
    same back end. An object is taken from the back end that its size says. `kmem_cache_free` gives it back,
    or queues it for RCU and writes behind what was asked for. From then on until its callback, whatever else
    is called and written, its units are in use and no other allocation has one of them, the callback finds
    the start and the size of the object, and it would give back the units of the object and no others. -/
theorem kmem_cache_exact (hs : Initial w₀) (hv : checked.ValidRun (step P) (Call.Valid P) w₀ calls) :
    ∃ w, checked.run (step P) w₀ calls = .ok w ∧ ledger.Balanced w.kernel.log (w.live.map Object.extent) ∧
      (∀ c d gfp page, (Call.kmem_cache_alloc_node c d gfp page).Valid P w →
        ∃ r k, P.kmem_cache_alloc_node w.kernel c gfp page = .ok (r, k) ∧
          ∀ b, r = some b → ∃ x, Placed P b (P.cache_size d) x ∧ Obtained P w.kernel k x ∧
            step P w (.kmem_cache_alloc_node c d gfp page) = .ok ⟨k, ⟨b, x, .object c d⟩ :: w.live⟩) ∧
      (∀ o ∈ w.live, ∀ c d, o.use = .object c d → ∃ k', P.kmem_cache_free w.kernel c o.ptr = .ok k' ∧
        (d.rcu = false → Returned P w.kernel k' o.extent) ∧
        (d.rcu = true → Queued P w.kernel k' o d ∧
          ∃ w', step P w (.kmem_cache_free c o.ptr) = .ok w' ∧ { o with use := .freed d } ∈ w'.live)) ∧
      ∀ o ∈ w.live, ∀ d, o.use = .freed d → ∀ calls', checked.ValidRun (step P) (Call.Valid P) w calls' →
        .kmem_rcu_free (o.ptr + d.size) ∉ calls' →
        ∃ w', checked.run (step P) w calls' = .ok w' ∧ o ∈ w'.live ∧ Alone P w' o ∧
          P.slob_rcu_block w'.kernel (o.ptr + d.size) = o.ptr ∧
          P.slob_rcu_size w'.kernel (o.ptr + d.size) = P.cache_size d ∧
          ∃ k', P.kmem_rcu_free w'.kernel (o.ptr + d.size) = .ok k' ∧ Returned P w'.kernel k' o.extent := by
  obtain ⟨w, hrun, hi⟩ := hs.inv.run_ok hv
  refine ⟨w, hrun, hi.backed.log, ?_, ?_, ?_⟩
  · intro c d gfp page hvalid
    obtain hcall | ⟨⟨b, x, use⟩, k, hcall, hmade⟩ := hi.kmem_cache_alloc_node hvalid
    · exact ⟨none, w.kernel, hcall, fun b hb => absurd hb (by simp)⟩
    · obtain rfl : use = .object c d := hmade.use_eq
      refine ⟨some b, k, hcall, fun b' hb' => ?_⟩
      cases hb'
      refine ⟨x, (hmade.inv.object_eq List.mem_cons_self rfl).2.1, hmade.obtained hi, ?_⟩
      simp only [step, hcall, bind, Except.bind, pure, Except.pure, World.enter_acquired hmade.log]
  · intro o ho c d huse
    cases hrcu : d.rcu with
    | false =>
      obtain ⟨k', hcall, hgave⟩ := hi.kmem_cache_free ho huse hrcu
      exact ⟨k', hcall, fun _ => hgave.returned hi.backed (List.mem_map_of_mem ho), fun h => absurd h (by simp)⟩
    | true =>
      refine ⟨_, hi.kmem_cache_free_rcu ho huse hrcu, fun h => absurd h (by simp), fun _ => ?_⟩
      exact ⟨hi.queued ho huse hrcu, hi.step_free_rcu ho huse hrcu⟩
  · intro o ho d huse calls' hv' hnot
    obtain ⟨w', hrun', hi', ho'⟩ := hi.run_mem (· = .kmem_rcu_free (o.ptr + d.size))
      (fun _ _ hi ho hv hne _ hstep => hi.freed_stays ho huse hv hne hstep) ho hv'
      (fun call hcall hcallback => hnot (hcallback ▸ hcall))
    obtain ⟨-, -, hsize, hblock⟩ := hi'.slob_rcu_eq ho' huse
    obtain ⟨k', hcall, hgave⟩ := hi'.kmem_rcu_free ho' huse w'.kernel.rcu
    exact ⟨w', hrun', ho', hi'.alone ho', hblock, hsize, k', hcall,
      hgave.returned hi'.backed (List.mem_map_of_mem ho')⟩

section Sample

/-- A cache of objects of five bytes that are freed by RCU. -/
def fiveBytes : Asked := ⟨5, 0, SLAB_DESTROY_BY_RCU⟩

/-- An object of the cache is given to `call_rcu`. -/
def rcuCalls : List Call :=
  [.kmem_cache_create fiveBytes (some 1), .kmem_cache_alloc_node 4096 fiveBytes ⟨false, false⟩ none,
    .kmem_cache_free 4096 4116]

theorem rcuCalls_live_one : (checked.run (step x86) bootWorld (rcuCalls.take 1)).map World.live =
    .ok [⟨4096, .block 2048 20, .cache fiveBytes⟩] := by
  decide +kernel

theorem rcuCalls_live_two : (checked.run (step x86) bootWorld (rcuCalls.take 2)).map World.live =
    .ok [⟨4116, .block 2058 17, .object 4096 fiveBytes⟩, ⟨4096, .block 2048 20, .cache fiveBytes⟩] := by
  decide +kernel

theorem rcuCalls_live : (checked.run (step x86) bootWorld rcuCalls).map World.live =
    .ok [⟨4116, .block 2058 17, .freed fiveBytes⟩, ⟨4096, .block 2048 20, .cache fiveBytes⟩] := by
  decide +kernel

theorem rcuCalls_valid : checked.ValidRun (step x86) (Call.Valid x86) bootWorld rcuCalls := by
  refine ⟨⟨⟨by decide, by decide, .inl rfl, by decide, by decide⟩, fun pfn hpfn => ?_, by simp⟩, fun w₁ hw₁ =>
    ⟨⟨?_, fun pfn hpfn => absurd hpfn (by simp)⟩, fun w₂ hw₂ => ⟨?_, fun _ _ => trivial⟩⟩⟩
  · cases hpfn
    exact ⟨by decide, fun _ _ _ => ⟨rfl, rfl⟩⟩
  · have hlive := rcuCalls_live_one
    simp only [rcuCalls, List.take, checked.run, hw₁, bind, Except.bind] at hlive
    have hlive : w₁.live = _ := Except.ok.inj hlive
    exact ⟨_, by rw [hlive]; exact List.mem_cons_self, rfl, rfl⟩
  · have hlive := rcuCalls_live_two
    simp only [rcuCalls, List.take, checked.run, hw₁, hw₂, bind, Except.bind] at hlive
    have hlive : w₂.live = _ := Except.ok.inj hlive
    exact ⟨_, by rw [hlive]; exact List.mem_cons_self, rfl, _, rfl⟩

theorem kmem_cache_exact_rcu :
    ∃ w, checked.run (step x86) bootWorld rcuCalls = .ok w ∧
      ledger.Balanced w.kernel.log [.block 2058 17, .block 2048 20] ∧
      x86.slob_rcu_block w.kernel 4121 = 4116 ∧ x86.slob_rcu_size w.kernel 4121 = 17 ∧
      ∃ k', x86.kmem_rcu_free w.kernel 4121 = .ok k' ∧ Returned x86 w.kernel k' (.block 2058 17) := by
  obtain ⟨w, hrun, hbalanced, -, -, hfreed⟩ := kmem_cache_exact bootWorld_initial rcuCalls_valid
  have hlive := rcuCalls_live
  rw [hrun] at hlive
  have hlive : w.live = _ := Except.ok.inj hlive
  rw [hlive] at hbalanced hfreed
  obtain ⟨w', hrun', -, -, hblock, hsize, hcallback⟩ := hfreed _ List.mem_cons_self _ rfl [] trivial (by simp)
  cases hrun'
  exact ⟨w, hrun, hbalanced, hblock, hsize, hcallback⟩

end Sample

end cs444.slob.frontend
