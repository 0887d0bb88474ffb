import Cs444.Slob.Backing

set_option linter.style.nameCheck false

open interval

namespace cs444.slob.frontend

variable {P : Platform} {k k' : Kernel} {x : Extent} {o o' : Object} {w : World} {d : Asked} {a b n pfn order size ptr : Nat}

section Sizes

namespace Platform

theorem isAlign_align (P : Platform) : Geometry.IsAlign P.align := by
  obtain hmax | hmax := max_choice P.ARCH_KMALLOC_MINALIGN P.ARCH_SLAB_MINALIGN
  · rw [align, hmax]
    exact P.kmalloc_isAlign
  · rw [align, hmax]
    exact P.slab_isAlign

theorem align_le (P : Platform) : P.align ≤ P.PAGE_SIZE := max_le P.kmalloc_le P.slab_le

theorem SLOB_UNIT_dvd_four (P : Platform) : P.SLOB_UNIT ∣ 4 := by
  obtain hunit | hunit := P.SLOB_UNIT_cases
  · exact ⟨2, by rw [hunit]⟩
  · exact ⟨1, by rw [hunit]⟩

theorem SLOB_UNIT_dvd_align (h : 4 ≤ P.align) : P.SLOB_UNIT ∣ P.align := by
  obtain hzero | ⟨j, hj⟩ := P.isAlign_align
  · omega
  · rw [hj] at h ⊢
    have htwo : 2 ≤ j := (Nat.pow_le_pow_iff_right Nat.one_lt_two).mp (h : 2 ^ 2 ≤ 2 ^ j)
    exact P.SLOB_UNIT_dvd_four.trans (Nat.pow_dvd_pow 2 htwo)

theorem SLOB_UNITS_add {m : Nat} (h : P.SLOB_UNIT ∣ m) (n : Nat) :
    P.SLOB_UNITS (n + m) * P.SLOB_UNIT = P.SLOB_UNITS n * P.SLOB_UNIT + m := by
  obtain ⟨c, rfl⟩ := h
  have hpos := P.SLOB_UNIT_pos
  have hshift : n + P.SLOB_UNIT * c + P.SLOB_UNIT - 1 = n + P.SLOB_UNIT - 1 + P.SLOB_UNIT * c := by omega
  rw [Geometry.SLOB_UNITS, Geometry.SLOB_UNITS, hshift, Nat.add_mul_div_left _ _ hpos, Nat.add_mul, Nat.mul_comm c]

theorem le_SLOB_UNITS_mul (P : Platform) (n : Nat) : n ≤ P.SLOB_UNITS n * P.SLOB_UNIT := by
  have hdiv := Nat.div_add_mod (n + P.SLOB_UNIT - 1) P.SLOB_UNIT
  have hmod := Nat.mod_lt (n + P.SLOB_UNIT - 1) P.SLOB_UNIT_pos
  rw [Geometry.SLOB_UNITS, Nat.mul_comm]
  omega

/-- The page of a byte address. -/
theorem slob_page_eq (P : Platform) (a : Nat) : P.slob_page a = a / P.PAGE_SIZE := by
  rw [slob_page, Geometry.virt_to_page, Nat.div_div_eq_div_mul, Nat.mul_comm, P.pageUnits_mul]

theorem slob_page_mul (P : Platform) (pfn : Nat) : P.slob_page (pfn * P.PAGE_SIZE) = pfn := by
  have hpos : 0 < P.PAGE_SIZE := Nat.two_pow_pos _
  rw [slob_page_eq, Nat.mul_div_cancel _ hpos]

theorem order_loop_spec {fuel size : Nat} (h : size ≤ fuel) : size < 2 ^ (order_loop fuel size + 1) := by
  induction fuel generalizing size with
  | zero =>
    obtain rfl : size = 0 := by omega
    decide
  | succ fuel ih =>
    rw [order_loop]
    split
    · omega
    · have hhalf : size / 2 < 2 ^ (order_loop fuel (size / 2) + 1) := ih (by omega)
      rw [Nat.pow_succ]
      omega

/-- `get_order` gives enough pages. -/
theorem le_get_order (hlt : n < 2 ^ (8 * P.long)) : n ≤ 2 ^ P.get_order n * P.PAGE_SIZE := by
  obtain rfl | hpos := Nat.eq_zero_or_pos n
  · exact Nat.zero_le _
  have hwrap : (n + 2 ^ (8 * P.long) - 1) % 2 ^ (8 * P.long) = n - 1 := by
    have hshift : n + 2 ^ (8 * P.long) - 1 = n - 1 + 2 ^ (8 * P.long) := by omega
    rw [hshift, Nat.add_mod_right, Nat.mod_eq_of_lt (by omega)]
  have hshift : (P.PAGE_SHIFT - 1).succ = P.PAGE_SHIFT := by
    have := P.hpos
    omega
  have hloop := order_loop_spec (Nat.le_refl ((n - 1) / 2 ^ (P.PAGE_SHIFT - 1)))
  rw [Nat.div_lt_iff_lt_mul (Nat.two_pow_pos _), Nat.pow_succ, Nat.mul_assoc, ← Nat.pow_succ', hshift] at hloop
  rw [get_order, hwrap]
  exact Nat.le_of_pred_lt hloop

/-- An `int` is an `unsigned long`. -/
theorem int_le_long (P : Platform) : 2 ^ 31 ≤ 2 ^ (8 * P.long) := by
  refine Nat.pow_le_pow_right (by decide) ?_
  obtain hlong | hlong := P.long_eq <;> rw [hlong] <;> decide

end Platform

theorem Asked.size_le_cache_size (d : Asked) : d.size ≤ P.cache_size d := by
  rw [Platform.cache_size]
  split <;> omega

theorem Asked.cache_size_of_rcu (h : d.rcu = true) : P.cache_size d = d.size + P.sizeof_slob_rcu := by
  rw [Platform.cache_size, if_pos (of_decide_eq_true h)]

theorem Asked.Valid.cache_size_pos (h : d.Valid P) : 0 < P.cache_size d := h.size_pos.trans_le d.size_le_cache_size

theorem Asked.Valid.cache_size_lt (h : d.Valid P) : P.cache_size d < 2 ^ 31 := by
  have hlt := h.size_lt
  rw [Platform.cache_size]
  split <;> omega

theorem Asked.Valid.cache_align (h : d.Valid P) :
    Geometry.IsAlign (P.cache_align d) ∧ P.cache_align d ≤ P.PAGE_SIZE := by
  have hzero : Geometry.IsAlign 0 ∧ 0 ≤ P.PAGE_SIZE := ⟨.inl rfl, Nat.zero_le _⟩
  have hslab := And.intro P.slab_isAlign P.slab_le
  have hcache : Geometry.IsAlign P.SLOB_ALIGN ∧ P.SLOB_ALIGN ≤ P.PAGE_SIZE := ⟨P.cache_isAlign, P.cache_le⟩
  have hasked := And.intro h.isAlign h.align_le
  simp only [Platform.cache_align]
  split_ifs <;> assumption

end Sizes

section Covers

/-- The bytes of a block. -/
theorem block_covers (hlo : b * P.SLOB_UNIT ≤ a) (hhi : a < b * P.SLOB_UNIT + P.SLOB_UNITS size * P.SLOB_UNIT) :
    (Extent.block b size).Covers P (a / P.SLOB_UNIT) := by
  have hpos := P.SLOB_UNIT_pos
  rw [← Nat.add_mul] at hhi
  exact ⟨(Nat.le_div_iff_mul_le hpos).mpr hlo, (Nat.div_lt_iff_lt_mul hpos).mpr hhi⟩

theorem pages_covers (hlo : pfn * P.PAGE_SIZE ≤ a) (hhi : a < pfn * P.PAGE_SIZE + 2 ^ order * P.PAGE_SIZE) :
    (Extent.pages pfn order).Covers P (a / P.SLOB_UNIT) := by
  have hpos : 0 < P.PAGE_SIZE := Nat.two_pow_pos _
  have hpage : P.virt_to_page (a / P.SLOB_UNIT) = a / P.PAGE_SIZE := P.slob_page_eq a
  rw [← Nat.add_mul] at hhi
  rw [Extent.Covers, hpage]
  exact ⟨(Nat.le_div_iff_mul_le hpos).mpr hlo, (Nat.div_lt_iff_lt_mul hpos).mpr hhi⟩

/-- An object of a cache is where its size says. -/
inductive Placed (P : Platform) (ptr size : Nat) : Extent → Prop where
  | block {b : Nat} (hptr : ptr = b * P.SLOB_UNIT) (hsmall : size < P.PAGE_SIZE) : Placed P ptr size (.block b size)
  | pages {pfn : Nat} (hptr : ptr = pfn * P.PAGE_SIZE) (hlarge : ¬ size < P.PAGE_SIZE) :
    Placed P ptr size (.pages pfn (P.get_order size))

theorem Placed.covers (h : Placed P ptr size x) (hsize : size < 2 ^ 31) (hlo : ptr ≤ a) (hhi : a < ptr + size) :
    x.Covers P (a / P.SLOB_UNIT) := by
  cases h with
  | block hptr hsmall =>
    subst hptr
    exact block_covers hlo (hhi.trans_le (Nat.add_le_add_left (P.le_SLOB_UNITS_mul size) _))
  | pages hptr hlarge =>
    subst hptr
    have hpages := Platform.le_get_order (hsize.trans_le P.int_le_long)
    exact pages_covers hlo (hhi.trans_le (Nat.add_le_add_left hpages _))

end Covers

/-- What the functions rely on for an allocation: where its pointer is in what was taken for it, and what is
    written in memory or in the page. -/
inductive Object.Ok (P : Platform) (k : Kernel) : Object → Prop where
  | small {b n : Nat} (halign : 4 ≤ P.align) (hpos : 0 < n) (hsmall : n < P.PAGE_SIZE - P.align)
    (hsize : k.read P (b * P.SLOB_UNIT) 4 = n) :
    Object.Ok P k ⟨b * P.SLOB_UNIT + P.align, .block b (n + P.align), .kmalloc n⟩
  | large {pfn n : Nat} (hlt : n < 2 ^ (8 * P.long)) (hlarge : ¬ n < P.PAGE_SIZE - P.align)
    (hprivate : k.page_private pfn = n) (horder : k.compound_order pfn = P.get_order n) :
    Object.Ok P k ⟨pfn * P.PAGE_SIZE, .pages pfn (P.get_order n), .kmalloc n⟩
  | cache {b : Nat} {d : Asked} (hd : d.Valid P)
    (hcache : k.kmem_cache P (b * P.SLOB_UNIT) = ⟨P.cache_size d, P.cache_align d, d.flags⟩) :
    Object.Ok P k ⟨b * P.SLOB_UNIT, .block b P.sizeof_kmem_cache, .cache d⟩
  | object {ptr c : Nat} {x : Extent} {d : Asked} (hd : d.Valid P) (hplaced : Placed P ptr (P.cache_size d) x) :
    Object.Ok P k ⟨ptr, x, .object c d⟩
  | freed {ptr : Nat} {x : Extent} {d : Asked} (hd : d.Valid P) (hrcu : d.rcu = true)
    (hplaced : Placed P ptr (P.cache_size d) x)
    (hsize : k.read P (ptr + d.size + 2 * P.long) 4 = P.cache_size d) : Object.Ok P k ⟨ptr, x, .freed d⟩

/-- The bytes of an allocation that the functions rely on. -/
def Object.relied (P : Platform) (o : Object) : Interval :=
  match o.use, o.extent with
  | .kmalloc _, .block b _ => ⟨b * P.SLOB_UNIT, 4⟩
  | .kmalloc _, .pages _ _ => ⟨0, 0⟩
  | .cache _, _ => ⟨o.ptr, 8 + P.long⟩
  | .object _ _, _ => ⟨0, 0⟩
  | .freed d, _ => ⟨o.ptr + d.size + 2 * P.long, 4⟩

namespace Object.Ok

/-- The rest of the memory does not matter. -/
theorem of_bytes (h : o.Ok P k)
    (hbytes : ∀ a, (o.relied P).Covers a → bytes.byte P.SLOB_UNIT k'.heap.mem a = bytes.byte P.SLOB_UNIT k.heap.mem a)
    (hpages : ∀ pfn order, o.extent = .pages pfn order →
      k'.page_private pfn = k.page_private pfn ∧ k'.compound_order pfn = k.compound_order pfn) : o.Ok P k' := by
  cases h with
  | small halign hpos hsmall hsize =>
    refine .small halign hpos hsmall (Eq.trans ?_ hsize)
    exact bytes.load_congr fun a hlo hhi => hbytes a ⟨hlo, hhi⟩
  | large hlt hlarge hprivate horder =>
    obtain ⟨hprivate', horder'⟩ := hpages _ _ rfl
    exact .large hlt hlarge (hprivate'.trans hprivate) (horder'.trans horder)
  | cache hd hcache =>
    refine .cache hd (Eq.trans ?_ hcache)
    simp only [Object.relied, Interval.Covers] at hbytes
    simp only [Kernel.kmem_cache, Kernel.read]
    congr 1 <;> exact bytes.load_congr fun a hlo hhi => hbytes a (by omega)
  | object hd hplaced => exact .object hd hplaced
  | freed hd hrcu hplaced hsize =>
    refine .freed hd hrcu hplaced (Eq.trans ?_ hsize)
    exact bytes.load_congr fun a hlo hhi => hbytes a ⟨hlo, hhi⟩

/-- They are in what was taken. -/
theorem relied_covers (h : o.Ok P k) (ha : (o.relied P).Covers a) : o.extent.Covers P (a / P.SLOB_UNIT) := by
  cases h with
  | @small b n halign hpos hsmall hsize =>
    have hunits := P.le_SLOB_UNITS_mul (n + P.align)
    obtain ⟨hlo, hhi⟩ := ha
    simp only [Object.relied] at hlo hhi
    exact block_covers hlo (by omega)
  | large => exact absurd ha.2 (by simp [Object.relied])
  | cache hd hcache =>
    have hunits := P.le_SLOB_UNITS_mul P.sizeof_kmem_cache
    obtain ⟨hlo, hhi⟩ := ha
    simp only [Object.relied, Platform.sizeof_kmem_cache] at hlo hhi hunits
    exact block_covers hlo (by simp only [Platform.sizeof_kmem_cache]; omega)
  | object => exact absurd ha.2 (by simp [Object.relied])
  | freed hd hrcu hplaced hsize =>
    have hlong := P.long_eq
    have hcache := Asked.cache_size_of_rcu (P := P) hrcu
    obtain ⟨hlo, hhi⟩ := ha
    simp only [Object.relied, Platform.sizeof_slob_rcu] at hlo hhi hcache
    exact hplaced.covers hd.cache_size_lt (by omega) (by omega)

theorem usable_covers (h : o.Ok P k) (hlo : o.ptr ≤ a) (hhi : a < o.ptr + o.usable P) :
    o.extent.Covers P (a / P.SLOB_UNIT) := by
  cases h with
  | @small b n halign hpos hsmall hsize =>
    have hunits := Platform.SLOB_UNITS_add (Platform.SLOB_UNIT_dvd_align halign) n
    simp only [Object.usable] at hlo hhi
    exact block_covers (by omega) (by omega)
  | @large pfn n hlt hlarge hprivate horder =>
    have hpages := Platform.le_get_order hlt
    simp only [Object.usable] at hlo hhi
    exact pages_covers hlo (by omega)
  | cache => exact absurd hhi (by simpa [Object.usable] using hlo)
  | object hd hplaced => exact hplaced.covers hd.cache_size_lt hlo hhi
  | freed hd hrcu hplaced hsize =>
    have hcache := Asked.cache_size_of_rcu (P := P) hrcu
    simp only [Object.usable, Platform.sizeof_slob_rcu] at hlo hhi hcache
    exact hplaced.covers hd.cache_size_lt hlo (by omega)

/-- Callers do not write to them. -/
theorem relied_not_usable (h : o.Ok P k) (ha : (o.relied P).Covers a) : ¬ (o.ptr ≤ a ∧ a < o.ptr + o.usable P) := by
  obtain ⟨hlo, hhi⟩ := ha
  cases h with
  | small | large | cache | object | freed =>
    simp only [Object.relied, Object.usable] at hlo hhi ⊢
    omega

/-- The pointer is in what was taken. -/
theorem ptr_covers (h : o.Ok P k) : o.extent.Covers P (o.ptr / P.SLOB_UNIT) := by
  cases h with
  | @small b n halign hpos hsmall hsize =>
    have hunits := P.le_SLOB_UNITS_mul (n + P.align)
    dsimp only
    exact block_covers (by omega) (by omega)
  | @large pfn n hlt hlarge hprivate horder =>
    have hpos : 0 < 2 ^ P.get_order n * P.PAGE_SIZE := Nat.mul_pos (Nat.two_pow_pos _) (Nat.two_pow_pos _)
    dsimp only
    exact pages_covers (Nat.le_refl _) (by omega)
  | cache hd hcache =>
    have hunits := P.le_SLOB_UNITS_mul P.sizeof_kmem_cache
    simp only [Platform.sizeof_kmem_cache] at hunits
    dsimp only
    exact block_covers (Nat.le_refl _) (by simp only [Platform.sizeof_kmem_cache]; omega)
  | object hd hplaced | freed hd hrcu hplaced hsize =>
    have hpos := hd.cache_size_pos
    dsimp only
    exact hplaced.covers hd.cache_size_lt (Nat.le_refl _) (by omega)

/-- The head of a footer is in what was taken. -/
theorem head_covers (h : o.Ok P k) {head : Nat} (hhead : o.head = some head) :
    o.extent.Covers P (head / P.SLOB_UNIT) := by
  cases h with
  | small | large | cache | object => simp [Object.head] at hhead
  | freed hd hrcu hplaced hsize =>
    cases hhead
    have hlong := P.long_eq
    have hcache := Asked.cache_size_of_rcu (P := P) hrcu
    rw [Platform.sizeof_slob_rcu] at hcache
    exact hplaced.covers hd.cache_size_lt (Nat.le_add_right _ _) (by dsimp only; omega)

/-- What stays in the extent of an allocation. -/
theorem of_keeps {xs : List Extent} (h : o.Ok P k) (hx : o.extent ∈ xs) (hkeep : Keeps P k k' xs) : o.Ok P k' := by
  refine h.of_bytes (fun a ha => bytes.byte_congr (hkeep.mem _ hx _ (h.relied_covers ha))) fun pfn order hpages => ?_
  rw [hpages] at hx
  exact ⟨hkeep.page_private pfn order hx, hkeep.compound_order pfn order hx⟩

end Object.Ok

section World

/-- The invariant between two calls. -/
structure Inv (P : Platform) (w : World) : Prop where
  backed : Backed P w.kernel (w.live.map Object.extent)
  objects : ∀ o ∈ w.live, o.Ok P w.kernel
  members : ∀ o ∈ w.live, ∀ c d, o.use = .object c d → ∃ o' ∈ w.live, o'.ptr = c ∧ o'.use = .cache d
  rcu : w.kernel.rcu.Perm (w.live.filterMap Object.head)

theorem Initial.inv (h : Initial w) : Inv P w where
  backed := by
    rw [h.live]
    refine ⟨h.heap.inv, by simp, fun q hq => ?_, .nil, ?_⟩
    · rw [h.used] at hq
      exact Bool.noConfusion hq
    · rw [h.log]
      exact .nil
  objects := by simp [h.live]
  members := by simp [h.live]
  rcu := by rw [h.live, h.rcu]; exact .nil

namespace Inv

/-- Two allocations with a unit in common are one. -/
theorem eq_of_covers (hi : Inv P w) (ho : o ∈ w.live) (ho' : o' ∈ w.live) {u : Nat} (hu : o.extent.Covers P u)
    (hu' : o'.extent.Covers P u) : o = o' := by
  by_contra hne
  have hsymm : Std.Symm fun o o' : Object => o.extent.Apart P o'.extent := ⟨fun _ _ h => h.symm⟩
  exact (List.pairwise_map.mp hi.backed.apart).forall ho ho' hne u ⟨hu, hu'⟩

theorem eq_of_ptr (hi : Inv P w) (ho : o ∈ w.live) (ho' : o' ∈ w.live) (hptr : o.ptr = o'.ptr) : o = o' := by
  have hu := (hi.objects o ho).ptr_covers
  rw [hptr] at hu
  exact hi.eq_of_covers ho ho' hu (hi.objects o' ho').ptr_covers

/-- An allocation among the others, none of which has its pointer. -/
theorem split (hi : Inv P w) (ho : o ∈ w.live) : ∃ l₁ l₂, w.live = l₁ ++ o :: l₂ ∧ ∀ o' ∈ l₁ ++ l₂, o'.ptr ≠ o.ptr := by
  obtain ⟨l₁, l₂, hlive⟩ := List.append_of_mem ho
  refine ⟨l₁, l₂, hlive, fun o' ho' hptr => ?_⟩
  have hnodup := hi.backed.nodup.of_map
  rw [hlive] at hnodup
  have hmem : o' ∈ w.live := by
    rw [hlive]
    exact List.perm_middle.mem_iff.mpr (List.mem_cons_of_mem _ ho')
  rw [hi.eq_of_ptr hmem ho hptr] at ho'
  exact (List.nodup_middle.mp hnodup).notMem ho'

/-- A new allocation. -/
theorem enter (hi : Inv P w) (htook : Took P w.kernel k' (w.live.map Object.extent) o.extent) (hok : o.Ok P k')
    (hhead : o.head = none)
    (hcache : ∀ c d, o.use = .object c d → ∃ o' ∈ w.live, o'.ptr = c ∧ o'.use = .cache d) :
    Inv P ⟨k', o :: w.live⟩ where
  backed := htook.backed
  objects o' ho' := by
    obtain rfl | ho' := List.mem_cons.mp ho'
    · exact hok
    · exact (hi.objects o' ho').of_keeps (List.mem_map_of_mem ho') htook.keeps
  members o' ho' c d huse := by
    obtain ⟨o'', ho'', hptr, hcache'⟩ : ∃ o'' ∈ w.live, o''.ptr = c ∧ o''.use = .cache d := by
      obtain rfl | ho' := List.mem_cons.mp ho'
      · exact hcache c d huse
      · exact hi.members o' ho' c d huse
    exact ⟨o'', List.mem_cons_of_mem _ ho'', hptr, hcache'⟩
  rcu := by
    rw [List.filterMap_cons_none hhead, htook.rcu]
    exact hi.rcu

variable {l₁ l₂ : List Object}

theorem extents_erase (hi : Inv P ⟨k, l₁ ++ o :: l₂⟩) :
    ((l₁ ++ o :: l₂).map Object.extent).erase o.extent = (l₁ ++ l₂).map Object.extent := by
  have hnodup := hi.backed.nodup
  rw [List.map_append, List.map_cons] at hnodup ⊢
  rw [List.erase_append_right _ fun hin => (List.nodup_middle.mp hnodup).notMem (List.mem_append_left _ hin),
    List.erase_cons_head, List.map_append]

theorem filter_ptr (hother : ∀ o' ∈ l₁ ++ l₂, o'.ptr ≠ o.ptr) :
    (l₁ ++ o :: l₂).filter (fun o' => o'.ptr ≠ o.ptr) = l₁ ++ l₂ := by
  rw [List.filter_append, List.filter_cons_of_neg (by simp), ← List.filter_append]
  exact List.filter_eq_self.mpr fun o' ho' => decide_eq_true (hother o' ho')

/-- An allocation is gone. -/
theorem leave (hi : Inv P ⟨k, l₁ ++ o :: l₂⟩) (hback : Backed P k' ((l₁ ++ l₂).map Object.extent))
    (hkeep : Keeps P k k' ((l₁ ++ l₂).map Object.extent)) (hrcu : k'.rcu.Perm ((l₁ ++ l₂).filterMap Object.head))
    (hcache : ∀ d, o.use = .cache d → ∀ o' ∈ l₁ ++ l₂, o'.use ≠ .object o.ptr d) : Inv P ⟨k', l₁ ++ l₂⟩ where
  backed := hback
  objects o' ho' :=
    (hi.objects o' (List.perm_middle.mem_iff.mpr (List.mem_cons_of_mem _ ho'))).of_keeps (List.mem_map_of_mem ho') hkeep
  members o' ho' c d huse := by
    obtain ⟨o'', ho'', hptr, hcache'⟩ := hi.members o' (List.perm_middle.mem_iff.mpr (List.mem_cons_of_mem _ ho')) c d huse
    obtain rfl | hin := List.mem_cons.mp (List.perm_middle.mem_iff.mp ho'')
    · subst hptr
      exact absurd huse (hcache d hcache' o' ho')
    · exact ⟨o'', hin, hptr, hcache'⟩
  rcu := hrcu

theorem eq_of_head (hi : Inv P w) (ho : o ∈ w.live) (ho' : o' ∈ w.live) {head : Nat} (hhead : o.head = some head)
    (hhead' : o'.head = some head) : o = o' :=
  hi.eq_of_covers ho ho' ((hi.objects o ho).head_covers hhead) ((hi.objects o' ho').head_covers hhead')

/-- An allocation other than an object that was given to `call_rcu` is given back. -/
theorem gave_back (hi : Inv P w) (ho : o ∈ w.live) (hgave : GaveBack P w.kernel k' (w.live.map Object.extent) o.extent)
    (hhead : o.head = none) (hcache : ∀ d, o.use = .cache d → ∀ o' ∈ w.live, o'.use ≠ .object o.ptr d) :
    Inv P ⟨k', w.live.filter fun o' => o'.ptr ≠ o.ptr⟩ := by
  obtain ⟨l₁, l₂, hlive, hother⟩ := hi.split ho
  obtain ⟨kernel, live⟩ := w
  dsimp only at hlive hgave hcache
  subst hlive
  obtain ⟨hback, hkeep, hrcu, -⟩ := hgave
  rw [hi.extents_erase] at hback hkeep
  rw [filter_ptr hother]
  refine hi.leave hback hkeep ?_ fun d huse o' ho' =>
    hcache d huse o' (List.perm_middle.mem_iff.mpr (List.mem_cons_of_mem _ ho'))
  have hheads := hi.rcu
  rw [List.filterMap_append, List.filterMap_cons_none hhead, ← List.filterMap_append] at hheads
  rw [hrcu]
  exact hheads

/-- A write by the owner of a byte. -/
theorem store (hi : Inv P w) {v : Nat} (hv : (Call.store a v).Valid P w) :
    Inv P { w with kernel.heap.mem := bytes.setByte P.SLOB_UNIT w.kernel.heap.mem a v } := by
  obtain ⟨hbyte, howner⟩ := hv
  have hfree : (w.kernel.used (P.slob_page a) = false ∧ (w.kernel.heap.page (P.slob_page a)).slab = false) →
      ∀ o ∈ w.live, ¬ o.extent.Covers P (a / P.SLOB_UNIT) := by
    rintro ⟨hused, hslab⟩ o ho hu
    have hin := hi.backed.inUse_iff.mpr ⟨o.extent, List.mem_map_of_mem ho, hu⟩
    obtain hused' | ⟨hslab', -⟩ := hin
    · exact Bool.noConfusion (hused.symm.trans hused')
    · exact Bool.noConfusion (hslab.symm.trans hslab')
  refine ⟨hi.backed.of_mem fun u hheld hnone => bytes.setByte_of_ne ?_, fun o ho => ?_, hi.members, hi.rcu⟩
  · rintro rfl
    obtain ⟨o, ho, hlo, hhi⟩ | ⟨-, hslab⟩ := howner
    · exact hnone _ (List.mem_map_of_mem ho) ((hi.objects o ho).usable_covers hlo hhi)
    · exact Bool.noConfusion (hslab.symm.trans hheld)
  · have hok := hi.objects o ho
    refine hok.of_bytes (fun a' ha' => bytes.byte_setByte_of_ne P.SLOB_UNIT_pos hbyte ?_) fun _ _ _ => ⟨rfl, rfl⟩
    rintro rfl
    obtain ⟨o', ho', hlo, hhi⟩ | hpage := howner
    · obtain rfl := hi.eq_of_covers ho ho' (hok.relied_covers ha') ((hi.objects o' ho').usable_covers hlo hhi)
      exact hok.relied_not_usable ha' ⟨hlo, hhi⟩
    · exact hfree hpage o ho (hok.relied_covers ha')

end Inv

end World

end cs444.slob.frontend
