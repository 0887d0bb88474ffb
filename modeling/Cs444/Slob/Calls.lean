import Cs444.Slob.Objects

set_option linter.style.nameCheck false

open interval

open Function

namespace cs444.slob.frontend

variable {P : Platform} {k k' : Kernel} {o : Object} {w : World} {d : Asked} {n c size : Nat} {gfp : gfp_t}
  {page : Option Nat}

section Enter

variable {x : Extent} {ptr : Nat} {use : Use}

theorem World.enter_acquired (hlog : k.log = .acquired x :: w.kernel.log) :
    w.enter k (some ptr) use = ⟨k, ⟨ptr, x, use⟩ :: w.live⟩ := by
  simp [World.enter, hlog]

theorem World.enter_same (hlog : k.log = w.kernel.log) (r : Option Nat) : w.enter k r use = ⟨k, w.live⟩ := by
  cases r <;> simp [World.enter, hlog]

end Enter

section Kmalloc

/-- The object that a call has made. -/
structure Made (P : Platform) (w : World) (k' : Kernel) (use : Use) (o : Object) : Prop where
  use_eq : o.use = use
  log : k'.log = .acquired o.extent :: w.kernel.log
  inv : Inv P ⟨k', o :: w.live⟩

/-- `__kmalloc_node` makes an object of the size, or changes nothing. -/
theorem Inv.__kmalloc_node (hi : Inv P w) (hv : (Call.__kmalloc_node n gfp page).Valid P w) :
    (∃ r, P.__kmalloc_node w.kernel n gfp page = .ok (r, w.kernel) ∧ (0 < n → r = none)) ∨
      ∃ o k', P.__kmalloc_node w.kernel n gfp page = .ok (some o.ptr, k') ∧ Made P w k' (.kmalloc n) o := by
  obtain ⟨halign, hlt, hpage⟩ := hv
  by_cases hsmall : n < P.PAGE_SIZE - P.align
  · rw [if_pos hsmall] at hpage
    obtain rfl | hpos := Nat.eq_zero_or_pos n
    · refine .inl ⟨some ZERO_SIZE_PTR, ?_, fun h => absurd h (Nat.lt_irrefl 0)⟩
      rw [Platform.__kmalloc_node, if_pos hsmall, if_pos rfl]
    have hsize : 0 < n + P.align ∧ n + P.align ≤ P.PAGE_SIZE := by omega
    obtain ⟨-, hcall⟩ | ⟨b, k₁, hcall, htook⟩ := hi.backed.slob_alloc hsize ⟨P.isAlign_align, P.align_le⟩ gfp.zero hpage
    · refine .inl ⟨none, ?_, fun _ => rfl⟩
      simp only [Platform.__kmalloc_node, hsmall, hpos.ne', ↓reduceIte, hcall, bind, Except.bind, pure, Except.pure]
    · have hunits := P.le_SLOB_UNITS_mul (n + P.align)
      have hheader := htook.write (a := b * P.SLOB_UNIT) (n := 4)
        (fun a hlo hhi => block_covers hlo (by omega)) n
      have hread : (k₁.write P (b * P.SLOB_UNIT) 4 n).read P (b * P.SLOB_UNIT) 4 = n := by
        refine bytes.load_store P.SLOB_UNIT_pos ?_
        have hsize := P.PAGE_SIZE_le
        omega
      refine .inr ⟨⟨b * P.SLOB_UNIT + P.align, .block b (n + P.align), .kmalloc n⟩, _, ?_, rfl, hheader.log, ?_⟩
      · simp only [Platform.__kmalloc_node, hsmall, hpos.ne', ↓reduceIte, hcall, bind, Except.bind, pure, Except.pure]
      · exact hi.enter hheader (.small halign hpos hsmall hread) rfl (by simp)
  · rw [if_neg hsmall] at hpage
    cases page with
    | none =>
      refine .inl ⟨none, ?_, fun _ => rfl⟩
      simp only [Platform.__kmalloc_node, hsmall, ↓reduceIte, Kernel.slob_new_pages]
    | some pfn =>
      let gfp' := if P.get_order n ≠ 0 then { gfp with comp := true } else gfp
      obtain ⟨hback, hkeep, hrcu, hlog⟩ := hi.backed.slob_new_pages gfp' hpage
      let k₁ := (w.kernel.slob_new_pages gfp' (P.get_order n) (some pfn)).2
      let k₂ := { k₁ with page_private := update k₁.page_private pfn n }
      have htook : Took P w.kernel k₂ (w.live.map Object.extent) (.pages pfn (P.get_order n)) := by
        refine ⟨⟨hback.heap, hback.pages, hback.used, hback.apart, hback.log⟩,
          ⟨hkeep.mem, fun q order hq => ?_, hkeep.compound_order⟩, hrcu, hlog⟩
        have hne : q ≠ pfn := by
          rintro rfl
          have hused := ((hi.backed.pages q order hq).2 q (Nat.le_refl _)
            (Nat.lt_add_of_pos_right (Nat.two_pow_pos _))).1
          have hfree := ((hpage q rfl).2 q (Nat.le_refl _) (Nat.lt_add_of_pos_right (Nat.two_pow_pos _))).1
          exact Bool.noConfusion (hfree.symm.trans hused)
        exact (update_of_ne hne _ _).trans (hkeep.page_private q order hq)
      have horder : k₂.compound_order pfn = P.get_order n := by
        by_cases hzero : P.get_order n = 0 <;> simp [k₂, k₁, gfp', Kernel.slob_new_pages, hzero]
      refine .inr ⟨⟨pfn * P.PAGE_SIZE, .pages pfn (P.get_order n), .kmalloc n⟩, k₂, ?_, rfl, hlog, ?_⟩
      · simp only [Platform.__kmalloc_node, hsmall, ↓reduceIte, Kernel.slob_new_pages, k₂, k₁, gfp']
      · exact hi.enter htook (.large hlt hsmall (update_self _ _ _) horder) rfl (by simp)

/-- No pointer is `NULL` or `ZERO_SIZE_PTR`. -/
theorem Inv.not_null (hi : Inv P w) (ho : o ∈ w.live) : ZERO_SIZE_PTR < o.ptr := by
  have hpage : 0 < P.slob_page o.ptr := hi.backed.page_pos (List.mem_map_of_mem ho) (hi.objects o ho).ptr_covers
  rw [P.slob_page_eq] at hpage
  exact P.lt_PAGE_SIZE.trans_le (Nat.div_pos_iff.mp hpage).2

/-- The flag of its page tells where a pointer is from. -/
theorem Inv.slab_of_block {b : Nat} (hi : Inv P w) (ho : o ∈ w.live) (hx : o.extent = .block b size) :
    (w.kernel.heap.page (P.slob_page o.ptr)).slab = true := by
  have hmem := List.mem_map_of_mem (f := Object.extent) ho
  have hu := (hi.objects o ho).ptr_covers
  rw [hx] at hmem hu
  exact hi.backed.slab_of_covers hmem hu

theorem Inv.slab_of_pages {pfn order : Nat} (hi : Inv P w) (ho : o ∈ w.live) (hx : o.extent = .pages pfn order) :
    (w.kernel.heap.page (P.slob_page o.ptr)).slab = false := by
  have hmem := List.mem_map_of_mem (f := Object.extent) ho
  have hu := (hi.objects o ho).ptr_covers
  rw [hx] at hmem hu
  exact ((hi.backed.pages pfn order hmem).2 _ hu.1 hu.2).2

/-- `kfree` gives back what was taken. -/
theorem Inv.kfree (hi : Inv P w) (ho : o ∈ w.live) (huse : o.use = .kmalloc n) :
    ∃ k', P.kfree w.kernel o.ptr = .ok k' ∧ GaveBack P w.kernel k' (w.live.map Object.extent) o.extent := by
  have hnull : ¬ o.ptr ≤ ZERO_SIZE_PTR := Nat.not_le_of_lt (hi.not_null ho)
  have hmem := List.mem_map_of_mem (f := Object.extent) ho
  have hok := hi.objects o ho
  cases hok with
  | @small b n halign hpos hsmall hsize =>
    obtain ⟨k', hcall, hgave⟩ := hi.backed.slob_free hmem
    refine ⟨k', ?_, hgave⟩
    have hslab := hi.slab_of_block ho rfl
    simp only [Platform.kfree, if_neg hnull, hslab, if_true, Nat.add_sub_cancel, hsize,
      Nat.mul_div_cancel _ P.SLOB_UNIT_pos]
    exact hcall
  | @large pfn n hlt hlarge hprivate horder =>
    refine ⟨_, ?_, hi.backed.free_pages hmem⟩
    have hslab := hi.slab_of_pages ho rfl
    dsimp only at hslab hnull ⊢
    rw [P.slob_page_mul] at hslab
    simp only [Platform.kfree, if_neg hnull, P.slob_page_mul, hslab, Bool.false_eq_true, if_false, Kernel.put_page,
      horder]
  | cache | object | freed => cases huse

/-- `ksize` gives the bytes that may be used, which are no fewer than were asked for. -/
theorem Inv.ksize (hi : Inv P w) (ho : o ∈ w.live) (huse : o.use = .kmalloc n) :
    P.ksize w.kernel o.ptr = .ok (o.usable P) ∧ n ≤ o.usable P := by
  have hnull := hi.not_null ho
  have hok := hi.objects o ho
  rw [ZERO_SIZE_PTR] at hnull
  cases hok with
  | @small b n' halign hpos hsmall hsize =>
    obtain rfl := Use.kmalloc.inj huse
    have hslab := hi.slab_of_block ho rfl
    refine ⟨?_, P.le_SLOB_UNITS_mul n'⟩
    simp only [Platform.ksize, ZERO_SIZE_PTR, if_neg (Nat.ne_of_gt hnull), if_neg (Nat.ne_of_gt (Nat.zero_lt_of_lt hnull)),
      hslab, if_true, Nat.add_sub_cancel, hsize]
    rfl
  | @large pfn n' hlt hlarge hprivate horder =>
    obtain rfl := Use.kmalloc.inj huse
    have hslab := hi.slab_of_pages ho rfl
    refine ⟨?_, Nat.le_refl _⟩
    dsimp only at hnull hslab ⊢
    rw [P.slob_page_mul] at hslab
    simp only [Platform.ksize, ZERO_SIZE_PTR, if_neg (Nat.ne_of_gt hnull), if_neg (Nat.ne_of_gt (Nat.zero_lt_of_lt hnull)),
      P.slob_page_mul, hslab, Bool.false_eq_true, if_false, hprivate]
    rfl
  | cache | object | freed => cases huse

end Kmalloc

section KmemCache

/-- The three fields that `kmem_cache_create` writes are read back. -/
theorem kmem_cache_write (hd : d.Valid P) (k : Kernel) (c : Nat) :
    Kernel.kmem_cache P (((k.write P c 4 (P.cache_size d)).write P (c + 4) 4 (P.cache_align d)).write P (c + 8) P.long
      d.flags) c = ⟨P.cache_size d, P.cache_align d, d.flags⟩ := by
  have hunit := P.SLOB_UNIT_pos
  have hsize : P.cache_size d < 256 ^ 4 := hd.cache_size_lt.trans (by decide)
  have halign : P.cache_align d < 256 ^ 4 := (hd.cache_align.2.trans P.PAGE_SIZE_le).trans_lt (by decide)
  simp only [Kernel.kmem_cache, Kernel.read, Kernel.write, kmem_cache.mk.injEq]
  refine ⟨?_, ?_, bytes.load_store hunit hd.flags_lt⟩
  · rw [bytes.load_store_of_disjoint hunit (.inl (by omega)), bytes.load_store_of_disjoint hunit (.inl (by omega)),
      bytes.load_store hunit hsize]
  · rw [bytes.load_store_of_disjoint hunit (.inl (by omega)), bytes.load_store hunit halign]

/-- `kmem_cache_create` makes a cache, or has no page for it. -/
theorem Inv.kmem_cache_create (hi : Inv P w) (hv : (Call.kmem_cache_create d page).Valid P w) :
    P.kmem_cache_create w.kernel d page = .ok (none, w.kernel) ∨
      ∃ o k', P.kmem_cache_create w.kernel d page = .ok (some o.ptr, k') ∧ Made P w k' (.cache d) o := by
  obtain ⟨hd, hpage, hpanic⟩ := hv
  have hlong := P.long_eq
  have hsize : 0 < P.sizeof_kmem_cache ∧ P.sizeof_kmem_cache ≤ P.PAGE_SIZE := by
    have hshift : 2 ^ 5 ≤ P.PAGE_SIZE := Nat.pow_le_pow_right (by decide) P.hpos
    rw [Platform.sizeof_kmem_cache]
    omega
  obtain ⟨hnone, hcall⟩ | ⟨b, k₁, hcall, htook⟩ := hi.backed.slob_alloc hsize ⟨P.kmalloc_isAlign, P.kmalloc_le⟩ false
    hpage
  · have hquiet : ¬ d.flags &&& SLAB_PANIC ≠ 0 := fun h => hpanic h hnone
    refine .inl ?_
    simp only [Platform.kmem_cache_create, hcall, bind, Except.bind, if_neg hquiet, pure, Except.pure]
  · have hunits := P.le_SLOB_UNITS_mul P.sizeof_kmem_cache
    have hin : ∀ a, b * P.SLOB_UNIT ≤ a → a < b * P.SLOB_UNIT + P.sizeof_kmem_cache →
        (Extent.block b P.sizeof_kmem_cache).Covers P (a / P.SLOB_UNIT) :=
      fun a hlo hhi => block_covers hlo (by omega)
    rw [Platform.sizeof_kmem_cache] at hin
    have hwritten := ((htook.write (a := b * P.SLOB_UNIT) (n := 4) (fun a hlo hhi => hin a hlo (by omega))
      (P.cache_size d)).write (a := b * P.SLOB_UNIT + 4) (n := 4) (fun a hlo hhi => hin a (by omega) (by omega))
      (P.cache_align d)).write (a := b * P.SLOB_UNIT + 8) (n := P.long)
      (fun a hlo hhi => hin a (by omega) (by omega)) d.flags
    refine .inr ⟨⟨b * P.SLOB_UNIT, .block b P.sizeof_kmem_cache, .cache d⟩, _, ?_, rfl, hwritten.log, ?_⟩
    · simp only [Platform.kmem_cache_create, hcall, bind, Except.bind, pure, Except.pure]
    · exact hi.enter hwritten (.cache hd (kmem_cache_write hd k₁ _)) rfl (by simp)

/-- What is in the memory of a cache. -/
theorem Inv.kmem_cache_eq (hi : Inv P w) (ho : o ∈ w.live) (huse : o.use = .cache d) :
    d.Valid P ∧ w.kernel.kmem_cache P o.ptr = ⟨P.cache_size d, P.cache_align d, d.flags⟩ := by
  have hok := hi.objects o ho
  cases hok with
  | cache hd hcache =>
    obtain rfl := Use.cache.inj huse
    exact ⟨hd, hcache⟩
  | small | large | object | freed => cases huse

theorem Inv.kmem_cache_destroy (hi : Inv P w) (ho : o ∈ w.live) (huse : o.use = .cache d) :
    ∃ k', P.kmem_cache_destroy w.kernel o.ptr = .ok k' ∧
      GaveBack P w.kernel k' (w.live.map Object.extent) o.extent := by
  have hmem := List.mem_map_of_mem (f := Object.extent) ho
  have hok := hi.objects o ho
  cases hok with
  | cache hd hcache =>
    obtain ⟨k', hcall, hgave⟩ := hi.backed.slob_free hmem
    refine ⟨k', ?_, hgave⟩
    rw [Platform.kmem_cache_destroy, Nat.mul_div_cancel _ P.SLOB_UNIT_pos]
    exact hcall
  | small | large | object | freed => cases huse

/-- `kmem_cache_alloc_node` makes an object of the cache, or changes nothing. -/
theorem Inv.kmem_cache_alloc_node (hi : Inv P w) (hv : (Call.kmem_cache_alloc_node c d gfp page).Valid P w) :
    P.kmem_cache_alloc_node w.kernel c gfp page = .ok (none, w.kernel) ∨
      ∃ o k', P.kmem_cache_alloc_node w.kernel c gfp page = .ok (some o.ptr, k') ∧ Made P w k' (.object c d) o := by
  obtain ⟨⟨oc, hoc, rfl, huse⟩, hpage⟩ := hv
  obtain ⟨hd, hcache⟩ := hi.kmem_cache_eq hoc huse
  have hmember : ∀ c' d', Use.object oc.ptr d = .object c' d' → ∃ o' ∈ w.live, o'.ptr = c' ∧ o'.use = .cache d' := by
    intro c' d' hsame
    obtain ⟨rfl, rfl⟩ := Use.object.inj hsame
    exact ⟨oc, hoc, rfl, huse⟩
  by_cases hsmall : P.cache_size d < P.PAGE_SIZE
  · rw [if_pos hsmall] at hpage
    obtain ⟨-, hcall⟩ | ⟨b, k₁, hcall, htook⟩ := hi.backed.slob_alloc ⟨hd.cache_size_pos, hsmall.le⟩ hd.cache_align
      gfp.zero hpage
    · refine .inl ?_
      simp only [Platform.kmem_cache_alloc_node, hcache, hsmall, ↓reduceIte, hcall, bind, Except.bind, pure, Except.pure,
        Option.map_none]
    · refine .inr ⟨⟨b * P.SLOB_UNIT, .block b (P.cache_size d), .object oc.ptr d⟩, k₁, ?_, rfl, htook.log, ?_⟩
      · simp only [Platform.kmem_cache_alloc_node, hcache, hsmall, ↓reduceIte, hcall, bind, Except.bind, pure,
          Except.pure, Option.map_some]
      · exact hi.enter htook (.object hd (.block rfl hsmall)) rfl hmember
  · rw [if_neg hsmall] at hpage
    cases page with
    | none =>
      refine .inl ?_
      simp only [Platform.kmem_cache_alloc_node, hcache, hsmall, ↓reduceIte, Kernel.slob_new_pages, Option.map_none]
    | some pfn =>
      have htook := hi.backed.slob_new_pages gfp hpage
      refine .inr ⟨⟨pfn * P.PAGE_SIZE, .pages pfn (P.get_order (P.cache_size d)), .object oc.ptr d⟩, _, ?_, rfl,
        htook.log, ?_⟩
      · simp only [Platform.kmem_cache_alloc_node, hcache, hsmall, ↓reduceIte, Kernel.slob_new_pages, Option.map_some]
      · exact hi.enter htook (.object hd (.pages rfl hsmall)) rfl hmember

/-- `__kmem_cache_free` turns to the back end that the object is from. -/
theorem Backed.__kmem_cache_free {xs : List Extent} {x : Extent} {ptr : Nat} (h : Backed P k xs) (hx : x ∈ xs)
    (hplaced : Placed P ptr size x) : ∃ k', P.__kmem_cache_free k ptr size = .ok k' ∧ GaveBack P k k' xs x := by
  cases hplaced with
  | block hptr hsmall =>
    obtain ⟨k', hcall, hgave⟩ := h.slob_free hx
    refine ⟨k', ?_, hgave⟩
    rw [Platform.__kmem_cache_free, if_pos hsmall, hptr, Nat.mul_div_cancel _ P.SLOB_UNIT_pos]
    exact hcall
  | pages hptr hlarge =>
    refine ⟨_, ?_, h.free_pages hx⟩
    rw [Platform.__kmem_cache_free, if_neg hlarge, hptr, P.slob_page_mul]

/-- An object of a cache, and what is in the memory of the cache. -/
theorem Inv.object_eq (hi : Inv P w) (ho : o ∈ w.live) (huse : o.use = .object c d) :
    d.Valid P ∧ Placed P o.ptr (P.cache_size d) o.extent ∧
      w.kernel.kmem_cache P c = ⟨P.cache_size d, P.cache_align d, d.flags⟩ := by
  obtain ⟨oc, hoc, rfl, hcache⟩ := hi.members o ho c d huse
  obtain ⟨hd, hread⟩ := hi.kmem_cache_eq hoc hcache
  have hok := hi.objects o ho
  cases hok with
  | object _ hplaced =>
    obtain ⟨-, rfl⟩ := Use.object.inj huse
    exact ⟨hd, hplaced, hread⟩
  | small | large | cache | freed => cases huse

/-- Without RCU an object is given back at once. -/
theorem Inv.kmem_cache_free (hi : Inv P w) (ho : o ∈ w.live) (huse : o.use = .object c d) (hrcu : d.rcu = false) :
    ∃ k', P.kmem_cache_free w.kernel c o.ptr = .ok k' ∧
      GaveBack P w.kernel k' (w.live.map Object.extent) o.extent := by
  obtain ⟨hd, hplaced, hcache⟩ := hi.object_eq ho huse
  obtain ⟨k', hcall, hgave⟩ := hi.backed.__kmem_cache_free (List.mem_map_of_mem ho) hplaced
  refine ⟨k', ?_, hgave⟩
  have hflag := of_decide_eq_false hrcu
  simp only [Platform.kmem_cache_free, hcache, if_neg hflag]
  exact hcall

/-- With RCU the footer is written behind what the creator has asked for, and the head is queued. -/
theorem Inv.kmem_cache_free_rcu (hi : Inv P w) (ho : o ∈ w.live) (huse : o.use = .object c d) (hrcu : d.rcu = true) :
    P.kmem_cache_free w.kernel c o.ptr = .ok { w.kernel.write P (o.ptr + d.size + 2 * P.long) 4 (P.cache_size d) with
      rcu := (o.ptr + d.size) :: w.kernel.rcu } := by
  obtain ⟨hd, hplaced, hcache⟩ := hi.object_eq ho huse
  have hflag := of_decide_eq_true hrcu
  have hsize := Asked.cache_size_of_rcu (P := P) hrcu
  have hfooter : P.cache_size d - P.sizeof_slob_rcu = d.size := by omega
  simp only [Platform.kmem_cache_free, hcache, if_pos hflag, hfooter]
  rfl

/-- The object that a queued head belongs to. -/
theorem Inv.exists_freed (hi : Inv P w) {head : Nat} (hhead : head ∈ w.kernel.rcu) :
    ∃ o ∈ w.live, ∃ d, o.use = .freed d ∧ o.ptr + d.size = head := by
  obtain ⟨o, ho, hsome⟩ := List.mem_filterMap.mp (hi.rcu.mem_iff.mp hhead)
  refine ⟨o, ho, ?_⟩
  rw [Object.head] at hsome
  split at hsome
  · rename_i d huse
    exact ⟨d, huse, Option.some.inj hsome⟩
  · cases hsome

/-- The footer of an object that was given to `call_rcu` tells its start and its size. -/
theorem Inv.slob_rcu_eq (hi : Inv P w) (ho : o ∈ w.live) (huse : o.use = .freed d) :
    d.rcu = true ∧ Placed P o.ptr (P.cache_size d) o.extent ∧
      P.slob_rcu_size w.kernel (o.ptr + d.size) = P.cache_size d ∧
      P.slob_rcu_block w.kernel (o.ptr + d.size) = o.ptr := by
  have hok := hi.objects o ho
  cases hok with
  | freed hd hrcu hplaced hsize =>
    obtain rfl := Use.freed.inj huse
    have hcache := Asked.cache_size_of_rcu (P := P) hrcu
    refine ⟨hrcu, hplaced, hsize, ?_⟩
    rw [Platform.slob_rcu_block, Platform.slob_rcu_size, hsize, hcache]
    omega
  | small | large | cache | object => cases huse

/-- `kmem_rcu_free` gives the object back. -/
theorem Inv.kmem_rcu_free (hi : Inv P w) (ho : o ∈ w.live) (huse : o.use = .freed d) (rcu : List Nat) :
    ∃ k', P.kmem_rcu_free { w.kernel with rcu } (o.ptr + d.size) = .ok k' ∧
      GaveBack P { w.kernel with rcu } k' (w.live.map Object.extent) o.extent := by
  obtain ⟨hrcu, hplaced, hsize, hblock⟩ := hi.slob_rcu_eq ho huse
  have hback : Backed P { w.kernel with rcu } (w.live.map Object.extent) :=
    ⟨hi.backed.heap, hi.backed.pages, hi.backed.used, hi.backed.apart, hi.backed.log⟩
  obtain ⟨k', hcall, hgave⟩ := hback.__kmem_cache_free (List.mem_map_of_mem ho) hplaced
  refine ⟨k', ?_, hgave⟩
  rw [← hcall, Platform.kmem_rcu_free]
  exact congrArg₂ _ hblock hsize

end KmemCache

section Steps

/-- The object that `kmem_cache_free` is called for, among the others. -/
theorem filterMap_free {l₁ l₂ : List Object} (hother : ∀ o' ∈ l₁ ++ l₂, o'.ptr ≠ o.ptr) :
    ((l₁ ++ o :: l₂).filterMap fun o' => if o'.ptr = o.ptr then o'.free else some o') = l₁ ++ o.free.toList ++ l₂ := by
  have hsame : ∀ l : List Object, (∀ o' ∈ l, o'.ptr ≠ o.ptr) →
      (l.filterMap fun o' => if o'.ptr = o.ptr then o'.free else some o') = l := by
    intro l hl
    refine (List.filterMap_congr fun o' ho' => if_neg (hl o' ho')).trans ?_
    exact List.filterMap_some
  rw [List.filterMap_append, hsame l₁ fun o' ho' => hother o' (List.mem_append_left _ ho'), List.filterMap_cons,
    if_pos rfl, hsame l₂ fun o' ho' => hother o' (List.mem_append_right _ ho')]
  cases o.free <;> simp

/-- The object is queued for RCU. -/
theorem Inv.queue {l₁ l₂ : List Object} (hi : Inv P ⟨k, l₁ ++ o :: l₂⟩) (huse : o.use = .object c d)
    (hrcu : d.rcu = true) :
    Inv P ⟨{ k.write P (o.ptr + d.size + 2 * P.long) 4 (P.cache_size d) with rcu := (o.ptr + d.size) :: k.rcu },
      l₁ ++ { o with use := .freed d } :: l₂⟩ := by
  have ho : o ∈ l₁ ++ o :: l₂ := List.mem_append_right _ List.mem_cons_self
  obtain ⟨hd, hplaced, -⟩ := hi.object_eq ho huse
  have hlong := P.long_eq
  have hcache := Asked.cache_size_of_rcu (P := P) hrcu
  rw [Platform.sizeof_slob_rcu] at hcache
  obtain ⟨hback, hkeep⟩ := hi.backed.write (a := o.ptr + d.size + 2 * P.long) (n := 4) (List.mem_map_of_mem ho)
    (fun a hlo hhi => hplaced.covers hd.cache_size_lt (by omega) (by omega)) (P.cache_size d)
  dsimp only at hback hkeep
  rw [hi.extents_erase] at hkeep
  have hextents : (l₁ ++ { o with use := .freed d } :: l₂).map Object.extent = (l₁ ++ o :: l₂).map Object.extent := by
    simp only [List.map_append, List.map_cons]
  refine ⟨?_, fun o' ho' => ?_, fun o' ho' c' d' huse' => ?_, ?_⟩
  · dsimp only
    rw [hextents]
    exact ⟨hback.heap, hback.pages, hback.used, hback.apart, hback.log⟩
  · obtain rfl | hin := List.mem_cons.mp (List.perm_middle.mem_iff.mp ho')
    · exact .freed hd hrcu hplaced (bytes.load_store P.SLOB_UNIT_pos (hd.cache_size_lt.trans (by decide)))
    · have hok := hi.objects o' (List.perm_middle.mem_iff.mpr (List.mem_cons_of_mem _ hin))
      exact hok.of_keeps (List.mem_map_of_mem hin) ⟨hkeep.mem, hkeep.page_private, hkeep.compound_order⟩
  · obtain rfl | hin := List.mem_cons.mp (List.perm_middle.mem_iff.mp ho')
    · cases huse'
    · obtain ⟨oc, hoc, hptr, hcache'⟩ :=
        hi.members o' (List.perm_middle.mem_iff.mpr (List.mem_cons_of_mem _ hin)) c' d' huse'
      obtain rfl | hin' := List.mem_cons.mp (List.perm_middle.mem_iff.mp hoc)
      · exact absurd (huse.symm.trans hcache') (by simp)
      · exact ⟨oc, List.perm_middle.mem_iff.mpr (List.mem_cons_of_mem _ hin'), hptr, hcache'⟩
  · have hheads := hi.rcu
    have hnone : o.head = none := by rw [Object.head, huse]
    rw [List.filterMap_append, List.filterMap_cons_none hnone] at hheads
    have hsome : Object.head { o with use := .freed d } = some (o.ptr + d.size) := rfl
    rw [List.filterMap_append, List.filterMap_cons_some hsome]
    exact (List.Perm.cons _ hheads).trans List.perm_middle.symm

/-- A queued object is given back. -/
theorem Inv.rcu_done (hi : Inv P w) (ho : o ∈ w.live) (huse : o.use = .freed d)
    (hgave : GaveBack P { w.kernel with rcu := w.kernel.rcu.erase (o.ptr + d.size) } k' (w.live.map Object.extent)
      o.extent) : Inv P ⟨k', w.live.filter fun o' => o'.head ≠ some (o.ptr + d.size)⟩ := by
  obtain ⟨l₁, l₂, hlive, hother⟩ := hi.split ho
  have hhead : o.head = some (o.ptr + d.size) := by rw [Object.head, huse]
  have hheads : ∀ o' ∈ l₁ ++ l₂, o'.head ≠ some (o.ptr + d.size) := by
    intro o' ho' hsame
    have hmem : o' ∈ w.live := by
      rw [hlive]
      exact List.perm_middle.mem_iff.mpr (List.mem_cons_of_mem _ ho')
    exact hother o' ho' (by rw [hi.eq_of_head hmem ho hsame hhead])
  obtain ⟨kernel, live⟩ := w
  dsimp only at hlive hgave
  subst hlive
  obtain ⟨hback, hkeep, hrcu, -⟩ := hgave
  rw [hi.extents_erase] at hback hkeep
  have hrest : (l₁ ++ o :: l₂).filter (fun o' => o'.head ≠ some (o.ptr + d.size)) = l₁ ++ l₂ := by
    rw [List.filter_append, List.filter_cons_of_neg (by simp [hhead]), ← List.filter_append]
    exact List.filter_eq_self.mpr fun o' ho' => by simpa using hheads o' ho'
  rw [hrest]
  refine hi.leave hback ⟨hkeep.mem, hkeep.page_private, hkeep.compound_order⟩ ?_ fun d' huse' => ?_
  · have hqueued := hi.rcu
    rw [List.filterMap_append, List.filterMap_cons_some hhead] at hqueued
    rw [hrcu, List.filterMap_append]
    have herase := (hqueued.trans List.perm_middle).erase (o.ptr + d.size)
    rwa [List.erase_cons_head] at herase
  · exact absurd (huse.symm.trans huse') (by simp)

/-- A call that makes an object or changes nothing keeps the invariant. -/
theorem Inv.enter_ok {use : Use} {x : Except Fault (Option Nat × Kernel)} (hi : Inv P w)
    (h : (∃ r, x = .ok (r, w.kernel)) ∨ ∃ o k', x = .ok (some o.ptr, k') ∧ Made P w k' use o) :
    ∃ w', (x >>= fun p => pure (w.enter p.2 p.1 use)) = .ok w' ∧ Inv P w' := by
  obtain ⟨r, hcall⟩ | ⟨o, k', hcall, huse, hlog, hinv⟩ := h
  · exact ⟨w, by simp only [hcall, bind, Except.bind, pure, Except.pure, World.enter_same], hi⟩
  · refine ⟨⟨k', o :: w.live⟩, ?_, hinv⟩
    simp only [hcall, bind, Except.bind, pure, Except.pure, World.enter_acquired hlog, ← huse]

/-- Every valid call returns and keeps the invariant. -/
theorem Inv.step_ok (hi : Inv P w) {call : Call} (hv : call.Valid P w) : ∃ w', step P w call = .ok w' ∧ Inv P w' := by
  cases call with
  | __kmalloc_node n gfp page =>
    refine hi.enter_ok ((hi.__kmalloc_node hv).imp_left ?_)
    rintro ⟨r, hcall, -⟩
    exact ⟨r, hcall⟩
  | kfree block =>
    obtain hnull | ⟨o, ho, rfl, n, huse⟩ := hv
    · have hall : w.live.filter (fun o => o.ptr ≠ block) = w.live := by
        refine List.filter_eq_self.mpr fun o ho => decide_eq_true ?_
        exact Nat.ne_of_gt (hnull.trans_lt (hi.not_null ho))
      refine ⟨w, ?_, hi⟩
      simp only [step, Platform.kfree, if_pos hnull, bind, Except.bind, pure, Except.pure, hall]
    · obtain ⟨k', hcall, hgave⟩ := hi.kfree ho huse
      refine ⟨_, ?_, hi.gave_back ho hgave (by rw [Object.head, huse]) (by simp [huse])⟩
      simp only [step, hcall, bind, Except.bind, pure, Except.pure]
  | kmem_cache_create d page =>
    exact hi.enter_ok ((hi.kmem_cache_create hv).imp_left fun hcall => ⟨none, hcall⟩)
  | kmem_cache_destroy c =>
    obtain ⟨o, ho, rfl, d, huse, hempty, -⟩ := hv
    obtain ⟨k', hcall, hgave⟩ := hi.kmem_cache_destroy ho huse
    refine ⟨_, ?_, hi.gave_back ho hgave (by rw [Object.head, huse]) fun d' huse' => ?_⟩
    · simp only [step, hcall, bind, Except.bind, pure, Except.pure]
    · obtain rfl := Use.cache.inj (huse.symm.trans huse')
      exact hempty
  | kmem_cache_alloc_node c d gfp page =>
    exact hi.enter_ok ((hi.kmem_cache_alloc_node hv).imp_left fun hcall => ⟨none, hcall⟩)
  | kmem_cache_free c b =>
    obtain ⟨o, ho, rfl, d, huse⟩ := hv
    obtain ⟨l₁, l₂, hlive, hother⟩ := hi.split ho
    cases hrcu : d.rcu with
    | false =>
      obtain ⟨k', hcall, hgave⟩ := hi.kmem_cache_free ho huse hrcu
      have hfree : o.free = none := by simp [Object.free, huse, hrcu]
      refine ⟨_, ?_, hi.gave_back ho hgave (by rw [Object.head, huse]) (by simp [huse])⟩
      rw [hlive, Inv.filter_ptr hother]
      simp [step, hcall, bind, Except.bind, pure, Except.pure, hlive, filterMap_free hother, hfree]
    | true =>
      have hcall := hi.kmem_cache_free_rcu ho huse hrcu
      have hfree : o.free = some { o with use := .freed d } := by simp [Object.free, huse, hrcu]
      obtain ⟨kernel, live⟩ := w
      dsimp only at hlive hcall
      subst hlive
      refine ⟨_, ?_, hi.queue huse hrcu⟩
      simp [step, hcall, bind, Except.bind, pure, Except.pure, filterMap_free hother, hfree]
  | kmem_rcu_free head =>
    obtain ⟨o, ho, d, huse, rfl⟩ := hi.exists_freed hv
    obtain ⟨k', hcall, hgave⟩ := hi.kmem_rcu_free ho huse (w.kernel.rcu.erase (o.ptr + d.size))
    exact ⟨_, by simp only [step, hcall, bind, Except.bind, pure, Except.pure], hi.rcu_done ho huse hgave⟩
  | store a v => exact ⟨_, rfl, hi.store hv⟩

/-- Every valid sequence of calls returns and keeps the invariant. -/
theorem Inv.run_ok (hi : Inv P w) {calls : List Call} (hv : checked.ValidRun (step P) (Call.Valid P) w calls) :
    ∃ w', checked.run (step P) w calls = .ok w' ∧ Inv P w' :=
  checked.run_ok (fun _ _ hi hv => hi.step_ok hv) hi hv

theorem World.mem_of_enter {use : Use} {x : Except Fault (Option Nat × Kernel)} {w' : World} (ho : o ∈ w.live)
    (h : (x >>= fun p => pure (w.enter p.2 p.1 use)) = .ok w') : o ∈ w'.live := by
  obtain ⟨⟨r, k⟩, -, hw⟩ := checked.bind_eq_ok.mp h
  cases hw
  unfold World.enter
  dsimp only
  split
  · exact List.mem_cons_of_mem _ ho
  · exact ho

/-- An allocation stays until it is given back, or to `call_rcu`. -/
theorem mem_step {call : Call} {w' : World} (ho : o ∈ w.live) (hstep : step P w call = .ok w') :
    o ∈ w'.live ∨ call = .kfree o.ptr ∨ call = .kmem_cache_destroy o.ptr ∨
      (∃ c, call = .kmem_cache_free c o.ptr ∧ o.free ≠ some o) ∨ ∃ head, call = .kmem_rcu_free head ∧ o.head = some head := by
  cases call with
  | __kmalloc_node n gfp page => exact .inl (World.mem_of_enter ho hstep)
  | kmem_cache_create d page => exact .inl (World.mem_of_enter ho hstep)
  | kmem_cache_alloc_node c d gfp page => exact .inl (World.mem_of_enter ho hstep)
  | kfree block =>
    obtain ⟨k, -, hw⟩ := checked.bind_eq_ok.mp hstep
    cases hw
    by_cases hptr : o.ptr = block
    · exact .inr (.inl (by rw [hptr]))
    · exact .inl (List.mem_filter.mpr ⟨ho, decide_eq_true hptr⟩)
  | kmem_cache_destroy c =>
    obtain ⟨k, -, hw⟩ := checked.bind_eq_ok.mp hstep
    cases hw
    by_cases hptr : o.ptr = c
    · exact .inr (.inr (.inl (by rw [hptr])))
    · exact .inl (List.mem_filter.mpr ⟨ho, decide_eq_true hptr⟩)
  | kmem_cache_free c b =>
    obtain ⟨k, -, hw⟩ := checked.bind_eq_ok.mp hstep
    cases hw
    by_cases hptr : o.ptr = b
    · by_cases hfree : o.free = some o
      · exact .inl (List.mem_filterMap.mpr ⟨o, ho, by rw [if_pos hptr, hfree]⟩)
      · exact .inr (.inr (.inr (.inl ⟨c, by rw [hptr], hfree⟩)))
    · exact .inl (List.mem_filterMap.mpr ⟨o, ho, if_neg hptr⟩)
  | kmem_rcu_free head =>
    obtain ⟨k, -, hw⟩ := checked.bind_eq_ok.mp hstep
    cases hw
    by_cases hhead : o.head = some head
    · exact .inr (.inr (.inr (.inr ⟨head, rfl, hhead⟩)))
    · exact .inl (List.mem_filter.mpr ⟨ho, decide_eq_true hhead⟩)
  | store a v =>
    cases hstep
    exact .inl ho

/-- What is given to `kmem_cache_destroy` is a cache. -/
theorem Inv.cache_of_destroy (hi : Inv P w) (ho : o ∈ w.live) (hv : (Call.kmem_cache_destroy o.ptr).Valid P w) :
    ∃ d, o.use = .cache d := by
  obtain ⟨oc, hoc, hptr, d, hcache, -⟩ := hv
  rw [hi.eq_of_ptr hoc ho hptr] at hcache
  exact ⟨d, hcache⟩

/-- A kind of allocation that no call but those of `gone` gives back stays in a run without these. -/
theorem Inv.run_mem (hi : Inv P w) {calls : List Call} (gone : Call → Prop)
    (hgone : ∀ w call, Inv P w → o ∈ w.live → call.Valid P w → ¬ gone call → ∀ w', step P w call = .ok w' → o ∈ w'.live)
    (ho : o ∈ w.live) (hv : checked.ValidRun (step P) (Call.Valid P) w calls) (hcalls : ∀ call ∈ calls, ¬ gone call) :
    ∃ w', checked.run (step P) w calls = .ok w' ∧ Inv P w' ∧ o ∈ w'.live := by
  refine checked.run_ok (I := fun w => Inv P w ∧ o ∈ w.live) ?_ ⟨hi, ho⟩ (hv.and_forall hcalls)
  rintro w call ⟨hi, ho⟩ ⟨hv, hnot⟩
  obtain ⟨w', hstep, hi'⟩ := hi.step_ok hv
  exact ⟨w', hstep, hi', hgone w call hi ho hv hnot w' hstep⟩

/-- The units of an allocation are in use, and no other allocation has one of them. -/
def Alone (P : Platform) (w : World) (o : Object) : Prop :=
  ∀ u, o.extent.Covers P u → w.kernel.InUse P u ∧ ∀ o' ∈ w.live, o'.ptr ≠ o.ptr → ¬ o'.extent.Covers P u

theorem Inv.alone (hi : Inv P w) (ho : o ∈ w.live) : Alone P w o := by
  refine fun u hu => ⟨hi.backed.inUse_iff.mpr ⟨_, List.mem_map_of_mem ho, hu⟩, fun o' ho' hne hu' => ?_⟩
  exact hne (by rw [hi.eq_of_covers ho' ho hu' hu])

theorem Made.obtained {use : Use} (h : Made P w k' use o) (hi : Inv P w) : Obtained P w.kernel k' o.extent :=
  hi.backed.obtained h.inv.backed h.log

end Steps

end cs444.slob.frontend
