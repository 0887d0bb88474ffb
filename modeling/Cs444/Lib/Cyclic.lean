import Mathlib.Data.List.Chain
import Mathlib.Data.List.Rotate
import Mathlib.Order.Lattice
import Mathlib.Tactic.Common

/-! Circular lists in the order of a key. -/

namespace cyclic

variable {α κ : Type} [LinearOrder κ] (f : α → κ)

/-- In non-decreasing order of the keys. -/
def Ascending (l : List α) : Prop :=
  l.Pairwise fun a b => f a ≤ f b

/-- A rotation of a list in non-decreasing order of the keys. -/
def Sorted (l : List α) : Prop :=
  ∃ l', Ascending f l' ∧ l ~r l'

/-- The key of `x` is neither below nor above all keys of the list. -/
def Within (l : List α) (x : α) : Prop :=
  (∃ a ∈ l, f a ≤ f x) ∧ ∃ b ∈ l, f x ≤ f b

/-- Put `x` between the first two neighbours whose keys have its own between them, and at the end if
    there are none. -/
def place (x : α) : List α → List α
  | [] => [x]
  | [a] => [a, x]
  | a :: b :: l => if f a ≤ f x ∧ f x ≤ f b then a :: x :: b :: l else a :: place x (b :: l)

variable {f} {l : List α} {x : α}

/-- Where the list is cut, what comes behind the cut has the smaller keys. -/
theorem sorted_iff : Sorted f l ↔ ∃ l₁ l₂, l = l₂ ++ l₁ ∧ Ascending f (l₁ ++ l₂) := by
  constructor
  · rintro ⟨l', hasc, n, rfl⟩
    rw [List.rotate_eq_drop_append_take_mod] at hasc
    exact ⟨_, _, (List.take_append_drop _ l).symm, hasc⟩
  · rintro ⟨l₁, l₂, rfl, hasc⟩
    exact ⟨_, hasc, List.isRotated_append⟩

theorem Ascending.sorted (h : Ascending f l) : Sorted f l := ⟨l, h, List.IsRotated.refl l⟩

/-- Entries can leave the list. -/
theorem Sorted.sublist {l' : List α} (h : Sorted f l) (hsub : l'.Sublist l) : Sorted f l' := by
  obtain ⟨l₁, l₂, rfl, hasc⟩ := sorted_iff.mp h
  obtain ⟨k₂, k₁, rfl, h₂, h₁⟩ := List.sublist_append_iff.mp hsub
  exact sorted_iff.mpr ⟨k₁, k₂, rfl, hasc.sublist (h₁.append h₂)⟩

section Insertion

theorem Ascending.insert {pre post : List α} {a b : α} (h : Ascending f (pre ++ a :: b :: post)) (ha : f a ≤ f x)
    (hb : f x ≤ f b) : Ascending f (pre ++ a :: x :: b :: post) := by
  rw [Ascending, List.pairwise_append] at h ⊢
  obtain ⟨hpre, hrest, hcross⟩ := h
  rw [List.pairwise_cons, List.pairwise_cons] at hrest
  obtain ⟨hafter, hbpost, hpost⟩ := hrest
  refine ⟨hpre, ?_, fun c hc d hd => ?_⟩
  · rw [List.pairwise_cons, List.pairwise_cons, List.pairwise_cons]
    refine ⟨fun d hd => ?_, fun d hd => ?_, hbpost, hpost⟩
    · obtain rfl | hd := List.mem_cons.mp hd
      · exact ha
      · exact hafter d hd
    · obtain rfl | hd := List.mem_cons.mp hd
      · exact hb
      · exact hb.trans (hbpost d hd)
  · have hca := hcross c hc a List.mem_cons_self
    obtain rfl | hd := List.mem_cons.mp hd
    · exact hca
    · obtain rfl | hd := List.mem_cons.mp hd
      · exact hca.trans ha
      · exact hcross c hc d (List.mem_cons_of_mem _ hd)

/-- An entry with a place of its own goes there, any other one goes to the end. -/
theorem place_cases (f : α → κ) (x : α) (l : List α) :
    (∃ pre a b post, l = pre ++ a :: b :: post ∧ (f a ≤ f x ∧ f x ≤ f b) ∧
        place f x l = pre ++ a :: x :: b :: post) ∨
      place f x l = l ++ [x] ∧ l.IsChain fun a b => ¬ (f a ≤ f x ∧ f x ≤ f b) := by
  induction l with
  | nil => exact .inr ⟨rfl, .nil⟩
  | cons a l ih =>
    cases l with
    | nil => exact .inr ⟨rfl, .singleton a⟩
    | cons b l =>
      rw [place]
      by_cases hplace : f a ≤ f x ∧ f x ≤ f b
      · rw [if_pos hplace]
        exact .inl ⟨[], a, b, l, rfl, hplace, rfl⟩
      · rw [if_neg hplace]
        obtain ⟨pre, c, d, post, hl, hcd, hput⟩ | ⟨hput, hchain⟩ := ih
        · exact .inl ⟨a :: pre, c, d, post, by rw [hl]; rfl, hcd, by rw [hput]; rfl⟩
        · exact .inr ⟨by rw [hput]; rfl, List.isChain_cons_cons.mpr ⟨hplace, hchain⟩⟩

theorem place_of_not_within (h : ¬ Within f l x) : place f x l = l ++ [x] := by
  obtain ⟨pre, a, b, post, rfl, ⟨ha, hb⟩, -⟩ | ⟨hput, -⟩ := place_cases f x l
  · exact absurd ⟨⟨a, by simp, ha⟩, ⟨b, by simp, hb⟩⟩ h
  · exact hput

/-- An ascending list without a place for `x` is on one side of it, or all its keys are that of `x`. -/
theorem Ascending.side (h : Ascending f l) (hchain : l.IsChain fun a b => ¬ (f a ≤ f x ∧ f x ≤ f b)) :
    (∀ a ∈ l, f x < f a) ∨ (∀ a ∈ l, f a < f x) ∨ ∀ a ∈ l, f a = f x := by
  induction l with
  | nil => exact .inl (by simp)
  | cons a l ih =>
    obtain ⟨hafter, hrest⟩ := List.pairwise_cons.mp h
    obtain hlt | heq | hgt := lt_trichotomy (f x) (f a)
    · left
      intro c hc
      obtain rfl | hc := List.mem_cons.mp hc
      · exact hlt
      · exact hlt.trans_le (hafter c hc)
    · cases l with
      | nil => exact .inr (.inr (by simp [heq]))
      | cons b l =>
        -- the next key is at least this one, so `x` would have its place here
        have hgap := (List.isChain_cons_cons.mp hchain).1
        exact absurd ⟨heq.ge, heq.le.trans (hafter b (by simp))⟩ hgap
    · right
      left
      cases l with
      | nil => simpa using hgt
      | cons b l =>
        obtain ⟨hgap, hchain⟩ := List.isChain_cons_cons.mp hchain
        have hb : f b < f x := not_le.mp fun hxb => hgap ⟨hgt.le, hxb⟩
        intro c hc
        obtain rfl | hc := List.mem_cons.mp hc
        · exact hgt
        · obtain habove | hbelow | hequal := ih hrest hchain
          · exact absurd hb (habove b (by simp)).asymm
          · exact hbelow c hc
          · exact absurd (hequal b (by simp)) hb.ne

theorem ascending_append {l₁ l₂ : List α} : Ascending f (l₁ ++ l₂) ↔
    Ascending f l₁ ∧ Ascending f l₂ ∧ ∀ a ∈ l₁, ∀ b ∈ l₂, f a ≤ f b :=
  List.pairwise_append

theorem ascending_concat : Ascending f (l ++ [x]) ↔ Ascending f l ∧ ∀ a ∈ l, f a ≤ f x := by
  simp [Ascending, List.pairwise_append]

/-- Between two neighbours, wherever the ring is cut. -/
theorem Sorted.insert {pre post : List α} {a b : α} (h : Sorted f (pre ++ a :: b :: post)) (ha : f a ≤ f x)
    (hb : f x ≤ f b) : Sorted f (pre ++ a :: x :: b :: post) := by
  obtain ⟨l₁, l₂, hl, hasc⟩ := sorted_iff.mp h
  apply sorted_iff.mpr
  obtain ⟨mid, rfl, hrest⟩ | ⟨mid, rfl, rfl⟩ := List.append_eq_append_iff.mp hl
  · -- the cut is behind `pre`
    match mid, hrest with
    | [], hrest =>
      rw [List.nil_append] at hrest
      subst hrest
      have hhead : Ascending f ([] ++ a :: b :: (post ++ pre)) := by simpa using hasc
      exact ⟨a :: x :: b :: post, pre, by simp, hhead.insert ha hb⟩
    | [c], hrest =>
      -- it separates the two neighbours: `a` has the largest key and `x` comes behind it
      obtain ⟨rfl, rfl⟩ : a = c ∧ b :: post = l₁ := by simpa using hrest
      refine ⟨b :: post, pre ++ [a, x], by simp, ?_⟩
      have hsplit : (b :: post) ++ (pre ++ [a, x]) = ((b :: post) ++ (pre ++ [a])) ++ [x] := by simp
      rw [hsplit, ascending_concat]
      refine ⟨hasc, fun c hc => ?_⟩
      have hlast : Ascending f (((b :: post) ++ pre) ++ [a]) := by simpa using hasc
      obtain hc | hc := List.mem_append.mp (by simpa using hc : c ∈ ((b :: post) ++ pre) ++ [a])
      · exact ((ascending_concat.mp hlast).2 c hc).trans ha
      · rw [List.mem_singleton.mp hc]
        exact ha
    | c :: d :: mid, hrest =>
      obtain ⟨rfl, rfl, rfl⟩ : a = c ∧ b = d ∧ post = mid ++ l₁ := by simpa using hrest
      refine ⟨l₁, pre ++ a :: x :: b :: mid, by simp, ?_⟩
      rw [← List.append_assoc] at hasc ⊢
      exact hasc.insert ha hb
  · refine ⟨mid ++ a :: x :: b :: post, l₂, by simp, ?_⟩
    rw [List.append_assoc] at hasc ⊢
    exact hasc.insert ha hb

/-- At the end, when no two neighbours have the key of `x` between them. -/
theorem Sorted.concat (h : Sorted f l) (hchain : l.IsChain fun a b => ¬ (f a ≤ f x ∧ f x ≤ f b))
    (hx : Ascending f l ∨ Within f l x) : Sorted f (l ++ [x]) := by
  apply sorted_iff.mpr
  obtain hasc | ⟨⟨a, ha, hax⟩, ⟨b, hb, hxb⟩⟩ := hx
  · obtain habove | hbelow | hequal := hasc.side hchain
    · exact ⟨[x], l, rfl, List.pairwise_cons.mpr ⟨fun a ha => (habove a ha).le, hasc⟩⟩
    · exact ⟨l ++ [x], [], rfl, by simpa using ascending_concat.mpr ⟨hasc, fun a ha => (hbelow a ha).le⟩⟩
    · exact ⟨l ++ [x], [], rfl, by simpa using ascending_concat.mpr ⟨hasc, fun a ha => (hequal a ha).le⟩⟩
  · obtain ⟨l₁, l₂, rfl, hasc⟩ := sorted_iff.mp h
    obtain ⟨hchain₂, hchain₁, -⟩ := List.isChain_append.mp hchain
    obtain ⟨hasc₁, hasc₂, hcross⟩ := ascending_append.mp hasc
    have hfirst : ∀ c ∈ l₁, f c ≤ f x := by
      intro c hc
      obtain habove | hbelow | hequal := hasc₁.side hchain₁
      · obtain ha | ha := List.mem_append.mp ha
        · exact absurd hax (((habove c hc).trans_le (hcross c hc a ha)).not_ge)
        · exact absurd hax (habove a ha).not_ge
      · exact (hbelow c hc).le
      · exact (hequal c hc).le
    have hsecond : ∀ c ∈ l₂, f x ≤ f c := by
      intro c hc
      obtain habove | hbelow | hequal := hasc₂.side hchain₂
      · exact (habove c hc).le
      · obtain hb | hb := List.mem_append.mp hb
        · exact absurd hxb (hbelow b hb).not_ge
        · exact absurd hxb ((hcross b hb c hc).trans_lt (hbelow c hc)).not_ge
      · exact (hequal c hc).ge
    refine ⟨l₁ ++ [x], l₂, by simp, ascending_append.mpr ⟨?_, hasc₂, fun c hc d hd => ?_⟩⟩
    · exact ascending_concat.mpr ⟨hasc₁, hfirst⟩
    · obtain hc | hc := List.mem_append.mp hc
      · exact hcross c hc d hd
      · rw [List.mem_singleton.mp hc]
        exact hsecond d hd

/-- At the end of a list that is not ascending only a key between its own keeps the ring sorted. -/
theorem Sorted.of_concat (h : Sorted f (l ++ [x])) : Ascending f l ∨ Within f l x := by
  by_cases hasc : Ascending f l
  · exact .inl hasc
  right
  obtain ⟨u, v, hsub, huv⟩ : ∃ u v, [u, v].Sublist l ∧ ¬ f u ≤ f v := by
    simpa [Ascending, List.pairwise_iff_forall_sublist] using hasc
  obtain ⟨l₁, l₂, hl, hcut⟩ := sorted_iff.mp h
  obtain ⟨hasc₁, hasc₂, hcross⟩ := ascending_append.mp hcut
  have hthree : [u, v, x].Sublist (l₂ ++ l₁) := by
    rw [← hl]
    exact hsub.append (List.Sublist.refl [x])
  obtain ⟨k₂, k₁, hk, hk₂, hk₁⟩ := List.sublist_append_iff.mp hthree
  -- the cut can only be between `u` and `v`
  match k₂, hk with
  | [], hk =>
    subst hk
    exact absurd ((List.pairwise_cons.mp (hasc₁.sublist hk₁)).1 v (by simp)) huv
  | [c], hk =>
    obtain ⟨rfl, rfl⟩ : u = c ∧ [v, x] = k₁ := by simpa using hk
    have hu := hk₂.subset (List.mem_singleton_self u)
    have hvx := (List.pairwise_cons.mp (hasc₁.sublist hk₁)).1 x (by simp)
    have hxu := hcross x (hk₁.subset (by simp)) u hu
    exact ⟨⟨v, hsub.subset (by simp), hvx⟩, ⟨u, hsub.subset (by simp), hxu⟩⟩
  | c :: d :: k₂, hk =>
    obtain ⟨rfl, rfl, -⟩ : u = c ∧ v = d ∧ [x] = k₂ ++ k₁ := by simpa using hk
    exact absurd ((List.pairwise_cons.mp (hasc₂.sublist hk₂)).1 v (by simp)) huv

theorem Sorted.place (h : Sorted f l) (hx : Ascending f l ∨ Within f l x) : Sorted f (place f x l) := by
  obtain ⟨pre, a, b, post, rfl, ⟨ha, hb⟩, hput⟩ | ⟨hput, hchain⟩ := place_cases f x l
  · rw [hput]
    exact h.insert ha hb
  · rw [hput]
    exact h.concat hchain hx

/-- A sorted ring stays sorted exactly if `x` is placed between keys of it, or anywhere if the list is
    ascending from the head on. -/
theorem sorted_place_iff (h : Sorted f l) : Sorted f (cyclic.place f x l) ↔ Ascending f l ∨ Within f l x := by
  refine ⟨fun hplace => ?_, h.place⟩
  by_cases hwithin : Within f l x
  · exact .inr hwithin
  · rw [place_of_not_within hwithin] at hplace
    exact hplace.of_concat

/-- An ascending list stays ascending when what is placed is not below its first entry. -/
theorem Ascending.place (h : Ascending f l) (hx : ∀ a ∈ l.head?, f a ≤ f x) : Ascending f (cyclic.place f x l) := by
  obtain ⟨pre, a, b, post, rfl, ⟨ha, hb⟩, hput⟩ | ⟨hput, hchain⟩ := place_cases f x l
  · rw [hput]
    exact h.insert ha hb
  · rw [hput]
    refine ascending_concat.mpr ⟨h, fun a ha => ?_⟩
    obtain habove | hbelow | hequal := h.side hchain
    · obtain ⟨first, rest, rfl⟩ := List.exists_cons_of_ne_nil (List.ne_nil_of_mem ha)
      exact absurd (hx first rfl) (habove first List.mem_cons_self).not_ge
    · exact (hbelow a ha).le
    · exact (hequal a ha).le

end Insertion

end cyclic
