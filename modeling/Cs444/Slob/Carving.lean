import Cs444.Slob.Invariant

open interval

namespace cs444.slob

variable {g : Geometry} {h h' : Heap} {live : List Block} {pfn : Nat} {l l' : List Interval} {b : Block}

section Carve

/-- A block within the free units of a page is apart from all live ones: two blocks that overlap
    share the larger of their two first units. -/
theorem Core.apart_of_free (hc : Core g h live) (hcomp : Complements g live pfn l) (hsize : 0 < b.size)
    (hin : ∀ u, (b.extent g).Covers u → covers l u) (hpage : ∀ u, covers l u → g.virt_to_page u = pfn) :
    ∀ a ∈ live, Block.Apart g b a := by
  intro a ha
  have hunits := g.SLOB_UNITS_pos hsize
  have hpa := g.SLOB_UNITS_pos (hc.blocks a ha).size_pos
  by_contra hnot
  rw [Block.Apart, not_or] at hnot
  have hshared : (b.extent g).Covers (max a.addr b.addr) ∧ (a.extent g).Covers (max a.addr b.addr) := by
    simp only [Interval.Covers, Block.extent]
    omega
  have hfree := hin _ hshared.1
  exact (hcomp _ (hpage _ hfree)).mp hfree (liveUnit_of_mem ha hshared.2)

theorem CarvedFrom.mem_list (hcarve : CarvedFrom h h' pfn l l') {c : SizeClass} {q : Nat}
    (hq : q = pfn → l' ≠ []) : q ∈ h'.list c ↔ q ∈ h.list c := by
  rw [hcarve.list]
  split
  · rename_i hnil
    exact List.mem_erase_of_ne fun hqp => hq hqp hnil
  · exact Iff.rfl

theorem CarvedFrom.ne_nil (hcarve : CarvedFrom h h' pfn l l') {c : SizeClass} (hnodup : (h.list c).Nodup)
    (hin : pfn ∈ h'.list c) : l' ≠ [] := by
  intro hnil
  rw [hcarve.list, if_pos hnil] at hin
  exact hnodup.not_mem_erase hin

/-- The page the block is carved from. It stays on its list unless it has become full. -/
theorem Core.carve_page (hc : Core g h live) (hslab : (h.page pfn).slab = true)
    (hcomp : Complements g live pfn l) (hp' : PageOk g h' pfn l') (hcarve : CarvedFrom h h' pfn l l')
    (hb : BlockOk g h' b) (hbpage : g.virt_to_page b.addr = pfn)
    (hcut : ∀ u, covers l' u ↔ covers l u ∧ ¬ (b.extent g).Covers u)
    (hclass : pfn ∈ h.list (sizeClass b.size)) : OnPage g h' (b :: live) pfn := by
  have hslab' : (h'.page pfn).slab = true := hcarve.slab.trans hslab
  have hlist : ∀ c, pfn ∈ h'.list c → pfn ∈ h.list c := fun c hin =>
    (hcarve.mem_list fun _ => hcarve.ne_nil (hc.nodup c) hin).mp hin
  have hone : ∀ a ∈ live, g.virt_to_page a.addr = pfn → sizeClass a.size = sizeClass b.size :=
    hc.listClass _ pfn hclass
  refine { free := fun _ => ⟨l', hp', fun u hu => ?_⟩, blocks := ?_, listed := ?_, onList := ?_, oneList := ?_,
           listClass := ?_, pageClass := ?_, unheld := ?_ }
  · rw [hcut, hcomp u hu, liveUnit_cons]
    tauto
  · intro a ha hpa
    obtain rfl | ha := List.mem_cons.mp ha
    · exact hb
    · exact (hc.blocks a ha).frame (by rw [hpa, hcarve.slab])
  · exact fun c hin => ⟨hslab', hp'.flag.mpr (hcarve.ne_nil (hc.nodup c) hin)⟩
  · exact fun _ hfree => ⟨_, (hcarve.mem_list fun _ => hp'.flag.mp hfree).mpr hclass⟩
  · exact fun c c' h₁ h₂ => hc.oneList c c' pfn (hlist c h₁) (hlist c' h₂)
  · intro c hin a ha hpa
    obtain rfl | ha := List.mem_cons.mp ha
    · exact hc.oneList _ _ pfn hclass (hlist c hin)
    · exact hc.listClass c pfn (hlist c hin) a ha hpa
  · intro a ha d hd hpa hpd
    obtain rfl | ha' := List.mem_cons.mp ha <;> obtain rfl | hd' := List.mem_cons.mp hd
    · rfl
    · exact (hone d hd' hpd).symm
    · exact hone a ha' hpa
    · exact hc.pageClass a ha' d hd' (hpa.trans hpd.symm)
  · exact fun hnot => absurd (hnot.symm.trans hslab') (by simp)

/-- Carving a block out of the free units of a page. -/
theorem Core.carve (hc : Core g h live) (hslab : (h.page pfn).slab = true) (hpos : 0 < pfn)
    (hcomp : Complements g live pfn l) (hp' : PageOk g h' pfn l')
    (hcarve : CarvedFrom h h' pfn l l') (b : Block) (hsize : 0 < b.size ∧ b.size ≤ g.PAGE_SIZE)
    (halign : b.align ≠ 0 → b.align ∣ b.addr * g.SLOB_UNIT)
    (hin : ∀ u, (b.extent g).Covers u → covers l u) (hpage : ∀ u, covers l u → g.virt_to_page u = pfn)
    (hcut : ∀ u, covers l' u ↔ covers l u ∧ ¬ (b.extent g).Covers u)
    (hclass : pfn ∈ h.list (sizeClass b.size)) : Core g h' (b :: live) := by
  have hunits := g.SLOB_UNITS_pos hsize.1
  have hcovers : ∀ u, b.addr ≤ u → u < b.addr + g.SLOB_UNITS b.size → g.virt_to_page u = pfn :=
    fun u h₁ h₂ => hpage u (hin u ⟨h₁, h₂⟩)
  have hbpage : g.virt_to_page b.addr = pfn := hcovers b.addr (le_refl _) (by omega)
  have hb : BlockOk g h' b := by
    have hend := hcovers (b.addr + g.SLOB_UNITS b.size - 1) (by omega) (by omega)
    rw [Geometry.virt_to_page_eq_iff] at hend
    exact ⟨by rw [hbpage, hcarve.slab, hslab], by omega, hsize.1, hsize.2, by rw [hbpage]; omega, halign⟩
  refine .of_pages (fun q => ?_) (List.pairwise_cons.mpr ⟨hc.apart_of_free hcomp hsize.1 hin hpage, hc.apart⟩) ?_
  · by_cases hqp : q = pfn
    · rw [hqp]
      exact hc.carve_page hslab hcomp hp' hcarve hb hbpage hcut hclass
    · refine (hc.onPage q).frame (hcarve.other q hqp) (fun c => hcarve.mem_list fun h => absurd h hqp)
        (fun a hpa => ?_) (fun u hu => ?_) fun _ u hu _ => hcarve.mem u fun hul => hqp (hu.symm.trans (hpage u hul))
      · have hne : a ≠ b := fun hab => hqp (by rw [← hpa, hab, hbpage])
        simp [hne]
      · have hnot : ¬ (b.extent g).Covers u := fun hbu => hqp (hu.symm.trans (hpage u (hin u hbu)))
        simp [hnot]
  · intro c
    rw [hcarve.list]
    split
    · exact (hc.nodup c).erase pfn
    · exact hc.nodup c

end Carve

section Return

/-- Taking a live block off the list uncovers exactly its units. -/
theorem Core.liveUnit_filter (hc : Core g h live) (hb : b ∈ live) (u : Nat) :
    LiveUnit g (live.filter fun a => a.addr ≠ b.addr) u ↔
      LiveUnit g live u ∧ ¬ (b.extent g).Covers u := by
  simp only [LiveUnit, covers, List.mem_map, List.mem_filter, decide_eq_true_eq]
  constructor
  · rintro ⟨x, ⟨a, ⟨ha, hne⟩, rfl⟩, hu⟩
    refine ⟨⟨_, ⟨a, ha, rfl⟩, hu⟩, fun hbu => ?_⟩
    have hap := hc.apart_of_ne ha hb fun hab => hne (by rw [hab])
    simp only [Block.Apart, Interval.Covers, Block.extent] at hap hu hbu
    omega
  · rintro ⟨⟨x, ⟨a, ha, rfl⟩, hu⟩, hnot⟩
    refine ⟨_, ⟨a, ⟨ha, fun haddr => hnot ?_⟩, rfl⟩, hu⟩
    rwa [← hc.eq_of_addr ha hb haddr]

/-- A live block can be given back. -/
theorem Core.returnable (hc : Core g h live) (hb : b ∈ live)
    (hcomp : Complements g live (g.virt_to_page b.addr) l) :
    Returnable g (g.virt_to_page b.addr) l b.addr b.size := by
  have hok := hc.blocks b hb
  refine ⟨hok.pos, hok.size_pos, (Geometry.virt_to_page_eq_iff.mp rfl).1, hok.fits, fun u hu hcov => ?_⟩
  exact (hcomp u (hok.page_of_covers hu)).mp hcov (liveUnit_of_mem hb hu)

/-- The blocks of another page are the same with the block taken off, and so are their units. -/
theorem Core.filter_other (hc : Core g h live) (hb : b ∈ live) {q : Nat} (hq : q ≠ g.virt_to_page b.addr) :
    (∀ a, g.virt_to_page a.addr = q → (a ∈ live.filter (fun a => a.addr ≠ b.addr) ↔ a ∈ live)) ∧
      ∀ u, g.virt_to_page u = q →
        (LiveUnit g (live.filter fun a => a.addr ≠ b.addr) u ↔ LiveUnit g live u) := by
  refine ⟨fun a hpa => ?_, fun u hu => ?_⟩
  · have hne : a.addr ≠ b.addr := fun haddr => hq (by rw [← hpa, haddr])
    simp [hne]
  · have hnot : ¬ (b.extent g).Covers u := fun hbu => hq (hu.symm.trans ((hc.blocks b hb).page_of_covers hbu))
    rw [hc.liveUnit_filter hb]
    tauto

theorem ReturnedTo.mem_list {x : Interval} {size : Nat} (hret : ReturnedTo h h' pfn l x size) {c : SizeClass} {q : Nat} :
    q ∈ h'.list c ↔ q ∈ h.list c ∨ (l = [] ∧ q = pfn ∧ c = sizeClass size) := by
  rw [hret.list]
  by_cases hnil : l = []
  · by_cases hcc : c = sizeClass size
    · subst hcc
      simp [hnil, or_comm]
    · simp [hnil, hcc]
  · simp [hnil]

/-- The page the block goes back to. If it was full it was on no list, and is now on that of the
    class of the block, which is that of all its blocks. -/
theorem Core.return_page (hc : Core g h live) (hb : b ∈ live)
    (hp : PageOk g h (g.virt_to_page b.addr) l) (hcomp : Complements g live (g.virt_to_page b.addr) l)
    (hp' : PageOk g h' (g.virt_to_page b.addr) (merge (b.extent g) l))
    (hret : ReturnedTo h h' (g.virt_to_page b.addr) l (b.extent g) b.size) :
    OnPage g h' (live.filter fun a => a.addr ≠ b.addr) (g.virt_to_page b.addr) := by
  have hok := hc.blocks b hb
  have hslab : (h'.page (g.virt_to_page b.addr)).slab = true := hret.slab.trans hok.held
  have hflag : (h'.page (g.virt_to_page b.addr)).slobFree = true := by
    refine hp'.flag.mpr fun hnil => ?_
    have htotal := total_merge (b.extent g) l
    have hunits := g.SLOB_UNITS_pos hok.size_pos
    rw [hnil] at htotal
    simp only [total_nil, Block.extent] at htotal
    omega
  have hunlisted : l = [] → ∀ c, g.virt_to_page b.addr ∉ h.list c :=
    fun hnil c hin => hp.flag.mp (hc.listed c _ hin).2 hnil
  have hsub : ∀ a, a ∈ live.filter (fun a => a.addr ≠ b.addr) → a ∈ live :=
    fun a ha => List.mem_of_mem_filter ha
  refine { free := fun _ => ⟨_, hp', fun u hu => ?_⟩, blocks := ?_, listed := fun _ _ => ⟨hslab, hflag⟩,
           onList := ?_, oneList := ?_, listClass := ?_, pageClass := ?_, unheld := ?_ }
  · rw [covers_merge, hcomp u hu, hc.liveUnit_filter hb]
    tauto
  · exact fun a ha hpa => (hc.blocks a (hsub a ha)).frame (by rw [hpa, hret.slab])
  · intro _ _
    by_cases hnil : l = []
    · exact ⟨_, hret.mem_list.mpr (.inr ⟨hnil, rfl, rfl⟩)⟩
    · obtain ⟨c, hin⟩ := hc.onList _ hok.held (hp.flag.mpr hnil)
      exact ⟨c, hret.mem_list.mpr (.inl hin)⟩
  · intro c c' h₁ h₂
    obtain h₁ | ⟨hnil, -, hcc⟩ := hret.mem_list.mp h₁ <;> obtain h₂ | ⟨hnil', -, hcc'⟩ := hret.mem_list.mp h₂
    · exact hc.oneList c c' _ h₁ h₂
    · exact absurd h₁ (hunlisted hnil' c)
    · exact absurd h₂ (hunlisted hnil c')
    · exact hcc.trans hcc'.symm
  · intro c hin a ha hpa
    obtain hin | ⟨-, -, rfl⟩ := hret.mem_list.mp hin
    · exact hc.listClass c _ hin a (hsub a ha) hpa
    · exact hc.pageClass a (hsub a ha) b hb hpa
  · exact fun a ha d hd hpa hpd => hc.pageClass a (hsub a ha) d (hsub d hd) (hpa.trans hpd.symm)
  · exact fun hnot => absurd (hnot.symm.trans hslab) (by simp)

/-- Putting a block back into the free units of its page. -/
theorem Core.give_back (hc : Core g h live) (hb : b ∈ live)
    (hp : PageOk g h (g.virt_to_page b.addr) l) (hcomp : Complements g live (g.virt_to_page b.addr) l)
    (hp' : PageOk g h' (g.virt_to_page b.addr) (merge (b.extent g) l))
    (hret : ReturnedTo h h' (g.virt_to_page b.addr) l (b.extent g) b.size) :
    Core g h' (live.filter fun a => a.addr ≠ b.addr) := by
  refine .of_pages (fun q => ?_) (hc.apart.filter _) fun c => ?_
  · by_cases hqp : q = g.virt_to_page b.addr
    · rw [hqp]
      exact hc.return_page hb hp hcomp hp' hret
    · obtain ⟨hblocks, hunits⟩ := hc.filter_other hb hqp
      refine (hc.onPage q).frame (hret.other q hqp) (fun c => ?_) hblocks hunits fun _ u hu _ => ?_
      · simp [hret.mem_list, hqp]
      · exact hret.mem u (fun hbu => hqp (hu.symm.trans ((hc.blocks b hb).page_of_covers hbu)))
          fun hul => hqp (hu.symm.trans (hp.covers_page hul))
  · rw [hret.list]
    split
    · rename_i hnil
      by_cases hcc : c = sizeClass b.size
      · subst hcc
        have hunlisted : g.virt_to_page b.addr ∉ h.list (sizeClass b.size) :=
          fun hin => hp.flag.mp (hc.listed _ _ hin).2 hnil
        simpa using ⟨hunlisted, hc.nodup _⟩
      · simpa [Function.update_of_ne hcc] using hc.nodup c
    · exact hc.nodup c

/-- When a block and the free units fill its page, no other block is on the page. -/
theorem Core.last_on_page (hc : Core g h live) {a b : Block} (ha : a ∈ live) (hb : b ∈ live)
    (hp : PageOk g h (g.virt_to_page b.addr) l) (hcomp : Complements g live (g.virt_to_page b.addr) l)
    (hfull : total l + g.SLOB_UNITS b.size = g.pageUnits)
    (hpage : g.virt_to_page a.addr = g.virt_to_page b.addr) : a = b := by
  have hr := hc.returnable hb hcomp
  by_contra hne
  -- the first unit of `a` is neither free nor in `b`, although the two fill the page
  have hgap := hp.gapped.merge (x := b.extent g) hr.lo (g.SLOB_UNITS_pos hr.size_pos) hr.hi hr.disjoint
  have htotal := total_merge (b.extent g) l
  have hunits : (b.extent g).len = g.SLOB_UNITS b.size := rfl
  have hcov := (hc.blocks a ha).addr_covers
  have hin := hgap.covers_of_total (by omega) (Geometry.virt_to_page_eq_iff.mp hpage).1
    (Geometry.virt_to_page_eq_iff.mp hpage).2
  obtain hbu | hfree := (covers_merge _ _ _).mp hin
  · have hap := hc.apart_of_ne ha hb hne
    simp only [Block.Apart, Interval.Covers, Block.extent] at hap hcov hbu
    omega
  · exact (hcomp _ hpage).mp hfree (liveUnit_of_mem ha hcov)

/-- Giving a page back together with its last block. -/
theorem Core.release (hc : Core g h live) {size : Nat} (hb : b ∈ live)
    (hlast : ∀ a ∈ live, g.virt_to_page a.addr = g.virt_to_page b.addr → a = b)
    (hrel : Released g h h' (g.virt_to_page b.addr) size) :
    Core g h' (live.filter fun a => a.addr ≠ b.addr) := by
  have hlist : ∀ c q, q ∈ h'.list c ↔ q ∈ h.list c ∧ q ≠ g.virt_to_page b.addr := by
    intro c q
    rw [hrel.list]
    split
    · exact (hc.nodup c).mem_erase_iff.trans and_comm
    · rename_i hflag
      refine ⟨fun hin => ⟨hin, ?_⟩, And.left⟩
      rintro rfl
      exact hflag (hc.listed c _ hin).2
  refine .of_pages (fun q => ?_) (hc.apart.filter _) fun c => ?_
  · by_cases hqp : q = g.virt_to_page b.addr
    · rw [hqp]
      refine .of_unheld hrel.slab hrel.slobFree (fun c hin => ((hlist c _).mp hin).2 rfl) fun a ha hpa => ?_
      simp only [List.mem_filter, decide_eq_true_eq] at ha
      exact ha.2 (by rw [hlast a ha.1 hpa])
    · obtain ⟨hblocks, hunits⟩ := hc.filter_other hb hqp
      refine (hc.onPage q).frame (hrel.other q hqp) (fun c => ?_) hblocks hunits fun _ u _ _ => by rw [hrel.mem]
      simp [hlist, hqp]
  · rw [hrel.list]
    split
    · exact (hc.nodup c).erase _
    · exact hc.nodup c

end Return

end cs444.slob
