import Mathlib.Algebra.Ring.Nat
import Mathlib.Data.List.Perm.Basic
import Mathlib.Data.List.Sort
import Mathlib.Tactic.Common

namespace interval

/-- The half-open range of naturals `[start, start + len)`. -/
@[ext]
structure Interval where
  start : Nat
  len : Nat
deriving DecidableEq, Repr

/-- Membership of a point in one interval. -/
def Interval.Covers (b : Interval) (u : Nat) : Prop :=
  b.start ≤ u ∧ u < b.start + b.len

instance (b : Interval) (u : Nat) : Decidable (b.Covers u) :=
  inferInstanceAs (Decidable (_ ∧ _))

/-- A point lies in some interval of a list. -/
def covers (l : List Interval) (u : Nat) : Prop :=
  ∃ b ∈ l, b.Covers u

/-- The number of points of a list of disjoint intervals. -/
def total (l : List Interval) : Nat :=
  (l.map Interval.len).sum

/-- Non-empty intervals inside `[lo, hi)`, in increasing order and with at least
    `k` missing points between neighbours. -/
def Spaced (k hi : Nat) : Nat → List Interval → Prop
  | _, [] => True
  | lo, b :: l =>
    lo ≤ b.start ∧ 0 < b.len ∧ b.start + b.len ≤ hi ∧ Spaced k hi (b.start + b.len + k) l

/-- Neighbours do not touch. This is the canonical form of a set of points. -/
abbrev Gapped (hi lo : Nat) (l : List Interval) : Prop := Spaced 1 hi lo l

instance Spaced.decidable (k hi : Nat) : (lo : Nat) → (l : List Interval) → Decidable (Spaced k hi lo l)
  | _, [] => .isTrue trivial
  | lo, b :: l =>
    have := Spaced.decidable k hi (b.start + b.len + k) l
    inferInstanceAs (Decidable (lo ≤ b.start ∧ 0 < b.len ∧ b.start + b.len ≤ hi ∧ Spaced k hi (b.start + b.len + k) l))

@[simp] theorem covers_nil (u : Nat) : ¬ covers [] u := by
  simp [covers]

@[simp] theorem covers_cons (b : Interval) (l : List Interval) (u : Nat) :
    covers (b :: l) u ↔ b.Covers u ∨ covers l u := by
  simp [covers]

@[simp] theorem covers_append (l₁ l₂ : List Interval) (u : Nat) :
    covers (l₁ ++ l₂) u ↔ covers l₁ u ∨ covers l₂ u := by
  simp [covers, or_and_right, exists_or]

@[simp] theorem total_nil : total [] = 0 := rfl

@[simp] theorem total_cons (b : Interval) (l : List Interval) :
    total (b :: l) = b.len + total l := by
  simp [total]

@[simp] theorem total_append (l₁ l₂ : List Interval) : total (l₁ ++ l₂) = total l₁ + total l₂ := by
  simp [total]

section Spaced

variable {k hi lo : Nat} {l : List Interval}

theorem Spaced.mono {lo' : Nat} (h : Spaced k hi lo l) (hle : lo' ≤ lo) : Spaced k hi lo' l := by
  cases l with
  | nil => trivial
  | cons b l => exact ⟨hle.trans h.1, h.2⟩

theorem Spaced.weaken {j : Nat} (h : Spaced k hi lo l) (hle : j ≤ k) : Spaced j hi lo l := by
  induction l generalizing lo with
  | nil => trivial
  | cons b l ih => exact ⟨h.1, h.2.1, h.2.2.1, ih (h.2.2.2.mono (by omega))⟩

theorem Spaced.bounds (h : Spaced k hi lo l) :
    ∀ b ∈ l, lo ≤ b.start ∧ 0 < b.len ∧ b.start + b.len ≤ hi := by
  induction l generalizing lo with
  | nil => simp
  | cons c l ih =>
    obtain ⟨hlo, hlen, hhi, htail⟩ := h
    intro b hb
    obtain rfl | hb := List.mem_cons.mp hb
    · exact ⟨hlo, hlen, hhi⟩
    · obtain ⟨h₁, h₂, h₃⟩ := ih htail b hb
      exact ⟨by omega, h₂, h₃⟩

theorem Spaced.covers_bounds {u : Nat} (h : Spaced k hi lo l) (hu : covers l u) :
    lo ≤ u ∧ u < hi := by
  obtain ⟨b, hb, hcov⟩ := hu
  obtain ⟨hlo, -, hhi⟩ := h.bounds b hb
  exact ⟨hlo.trans hcov.1, lt_of_lt_of_le hcov.2 hhi⟩

theorem Spaced.pairwise (h : Spaced k hi lo l) :
    l.Pairwise (fun a b => a.start + a.len + k ≤ b.start) := by
  induction l generalizing lo with
  | nil => exact List.Pairwise.nil
  | cons c l ih =>
    exact List.Pairwise.cons (fun b hb => (h.2.2.2.bounds b hb).1) (ih h.2.2.2)

/-- Different intervals of a spaced list lie apart. -/
theorem Spaced.apart (h : Spaced k hi lo l) {b c : Interval} (hb : b ∈ l) (hc : c ∈ l)
    (hne : b ≠ c) : b.start + b.len + k ≤ c.start ∨ c.start + c.len + k ≤ b.start := by
  induction l generalizing lo with
  | nil => simp at hb
  | cons d l ih =>
    obtain rfl | hb' := List.mem_cons.mp hb <;> obtain rfl | hc' := List.mem_cons.mp hc
    · exact absurd rfl hne
    · exact .inl (h.2.2.2.bounds c hc').1
    · exact .inr (h.2.2.2.bounds b hb').1
    · exact ih h.2.2.2 hb' hc'

theorem Spaced.append_iff {l₁ l₂ : List Interval} :
    Spaced k hi lo (l₁ ++ l₂) ↔ Spaced k hi lo l₁ ∧ Spaced k hi lo l₂ ∧
      ∀ a ∈ l₁, ∀ b ∈ l₂, a.start + a.len + k ≤ b.start := by
  induction l₁ generalizing lo with
  | nil => simp [Spaced]
  | cons c l₁ ih =>
    simp only [List.cons_append, Spaced, ih, List.mem_cons, forall_eq_or_imp]
    constructor
    · rintro ⟨hlo, hlen, hhi, h₁, h₂, hsep⟩
      exact ⟨⟨hlo, hlen, hhi, h₁⟩, h₂.mono (by omega), fun b hb => (h₂.bounds b hb).1, hsep⟩
    · rintro ⟨⟨hlo, hlen, hhi, h₁⟩, h₂, hfirst, hsep⟩
      refine ⟨hlo, hlen, hhi, h₁, ?_, hsep⟩
      cases l₂ with
      | nil => trivial
      | cons b l₂ => exact ⟨hfirst b (by simp), h₂.2⟩

theorem Spaced.total_le (h : Spaced k hi lo l) (hle : lo ≤ hi) : total l + lo ≤ hi := by
  induction l generalizing lo with
  | nil => simpa using hle
  | cons c l ih =>
    obtain ⟨hlo, hlen, hhi, htail⟩ := h
    have := ih (htail.mono (Nat.le_add_right _ k)) hhi
    simp only [total_cons]
    omega

theorem Spaced.length_le_total (h : Spaced k hi lo l) : l.length ≤ total l := by
  induction l generalizing lo with
  | nil => simp
  | cons c l ih =>
    have := ih h.2.2.2
    have := h.2.1
    simp only [List.length_cons, total_cons]
    omega

theorem Spaced.total_pos (h : Spaced k hi lo l) (hne : l ≠ []) : 0 < total l := by
  have := h.length_le_total
  have := List.length_pos_iff.mpr hne
  omega

/-- A list with as many points as its range has covers the whole range. -/
theorem Spaced.covers_of_total (h : Spaced k hi lo l) (hfull : lo + total l = hi) {u : Nat}
    (hlo : lo ≤ u) (hhi : u < hi) : covers l u := by
  induction l generalizing lo with
  | nil =>
    simp only [total_nil] at hfull
    omega
  | cons b l ih =>
    obtain ⟨hblo, hblen, hbhi, htail⟩ := h
    have htail' : Spaced k hi (b.start + b.len) l := htail.mono (by omega)
    have hle := htail'.total_le hbhi
    simp only [total_cons] at hfull
    rw [covers_cons]
    by_cases hu : u < b.start + b.len
    · exact .inl ⟨by omega, hu⟩
    · exact .inr (ih htail' (by omega) (by omega))

/-- A list that covers its whole range has as many points as the range. -/
theorem Gapped.total_of_covers (h : Gapped hi lo l) (hle : lo ≤ hi)
    (hall : ∀ u, lo ≤ u → u < hi → covers l u) : lo + total l = hi := by
  cases l with
  | nil =>
    by_contra hne
    exact covers_nil lo (hall lo (le_refl _) (by simp at hne; omega))
  | cons b l =>
    obtain ⟨hblo, hblen, hbhi, htail⟩ := h
    have htotal := Spaced.total_le htail
    -- the point behind the first interval is in no other one
    have hend : b.start + b.len = hi := by
      by_contra hne
      obtain hu | hu := (covers_cons _ _ _).mp (hall (b.start + b.len) (by omega) (by omega))
      · exact absurd hu.2 (by omega)
      · have := (htail.covers_bounds hu).1
        omega
    have hnil : l = [] := by
      cases l with
      | nil => rfl
      | cons c l =>
        have := (htail.bounds c (by simp)).1
        have := (htail.bounds c (by simp)).2
        omega
    have hstart : b.start = lo := by
      obtain hu | hu := (covers_cons _ _ _).mp (hall lo (le_refl _) (by omega))
      · have := hu.1
        omega
      · have := (htail.covers_bounds hu).1
        omega
    rw [hnil, total_cons, total_nil]
    omega

/-- A covered point lies in exactly one of pairwise disjoint intervals. -/
theorem countP_covers {u : Nat} (hdisj : l.Pairwise fun a b => ∀ u, ¬ (a.Covers u ∧ b.Covers u))
    (hu : covers l u) : l.countP (fun b => b.Covers u) = 1 := by
  induction l with
  | nil => exact absurd hu (covers_nil u)
  | cons b l ih =>
    obtain ⟨hb, hl⟩ := List.pairwise_cons.mp hdisj
    by_cases hbu : b.Covers u
    · have hnone : l.countP (fun b => b.Covers u) = 0 := by
        rw [List.countP_eq_zero]
        intro c hc hcu
        exact hb c hc u ⟨hbu, by simpa using hcu⟩
      rw [List.countP_cons_of_pos (by simpa using hbu), hnone]
    · rw [List.countP_cons_of_neg (by simpa using hbu)]
      apply ih hl
      exact ((covers_cons b l u).mp hu).resolve_left hbu

/-- Every interval of the list has at most as many points as the list. -/
theorem len_le_total {b : Interval} (hb : b ∈ l) : b.len ≤ total l := by
  obtain ⟨pre, post, rfl⟩ := List.append_of_mem hb
  rw [total_append, total_cons]
  omega

end Spaced

section MaximalRuns

/-- A maximal run of a predicate on the naturals: non-empty, inside the predicate
    and not extensible at either side. -/
def MaximalRun (F : Nat → Prop) (b : Interval) : Prop :=
  0 < b.len ∧ (∀ u, b.Covers u → F u) ∧ (∀ v, v + 1 = b.start → ¬ F v) ∧ ¬ F (b.start + b.len)

/-- Two maximal runs with a common point are the same run. -/
theorem MaximalRun.eq_of_covers {F : Nat → Prop} {a b : Interval} (ha : MaximalRun F a)
    (hb : MaximalRun F b) {u : Nat} (hau : a.Covers u) (hbu : b.Covers u) : a = b := by
  obtain ⟨-, hain, haleft, haright⟩ := ha
  obtain ⟨-, hbin, hbleft, hbright⟩ := hb
  have hstart : a.start = b.start := by
    obtain h | h | h := Nat.lt_trichotomy a.start b.start
    · exact absurd (hain (b.start - 1) ⟨by omega, by have := hau.2; have := hbu.1; omega⟩)
        (hbleft _ (by omega))
    · exact h
    · exact absurd (hbin (a.start - 1) ⟨by omega, by have := hbu.2; have := hau.1; omega⟩)
        (haleft _ (by omega))
  have hlen : a.len = b.len := by
    obtain h | h | h := Nat.lt_trichotomy a.len b.len
    · exact absurd (hbin (a.start + a.len) ⟨by omega, by omega⟩) haright
    · exact h
    · exact absurd (hain (b.start + b.len) ⟨by omega, by omega⟩) hbright
  exact Interval.ext hstart hlen

/-- The intervals of a gapped list are the maximal runs of the points it covers. -/
theorem Gapped.maximalRun {hi lo : Nat} {l : List Interval} (h : Gapped hi lo l) :
    ∀ b ∈ l, MaximalRun (covers l) b := by
  intro b hb
  have hcov : ∀ u, covers l u → b.Covers u ∨ u + 1 < b.start ∨ b.start + b.len < u := by
    rintro u ⟨c, hc, hcu⟩
    by_cases heq : b = c
    · exact .inl (heq ▸ hcu)
    · have hsep := h.apart hb hc heq
      have := hcu.1
      have := hcu.2
      omega
  refine ⟨(h.bounds b hb).2.1, fun u hu => ⟨b, hb, hu⟩, fun v hv hcv => ?_, fun hcv => ?_⟩
  · obtain h' | h' | h' := hcov v hcv
    · have := h'.1
      omega
    · omega
    · omega
  · obtain h' | h' | h' := hcov _ hcv
    · have := h'.2
      omega
    · omega
    · omega

theorem Gapped.mem_iff_maximalRun {hi lo : Nat} {l : List Interval} (h : Gapped hi lo l)
    (b : Interval) : b ∈ l ↔ MaximalRun (covers l) b := by
  refine ⟨h.maximalRun b, fun hb => ?_⟩
  have hstart : b.Covers b.start := ⟨le_refl _, by have := hb.1; omega⟩
  obtain ⟨c, hc, hcu⟩ := hb.2.1 _ hstart
  rwa [hb.eq_of_covers (h.maximalRun c hc) hstart hcu]

/-- The canonical form is unique: equal sets of points have equal gapped lists. -/
theorem Gapped.ext {hi lo hi' lo' : Nat} {l l' : List Interval} (h : Gapped hi lo l)
    (h' : Gapped hi' lo' l') (hcov : ∀ u, covers l u ↔ covers l' u) : l = l' := by
  have hsets : covers l = covers l' := funext fun u => propext (hcov u)
  have hmem : ∀ b, b ∈ l ↔ b ∈ l' := by
    intro b
    rw [h.mem_iff_maximalRun, h'.mem_iff_maximalRun, hsets]
  have hnodup : ∀ {hi lo : Nat} {l : List Interval}, Gapped hi lo l → l.Nodup := by
    intro hi lo l h
    refine h.pairwise.imp fun {a b} hab heq => ?_
    subst heq
    omega
  have hperm : l.Perm l' := (List.perm_ext_iff_of_nodup (hnodup h) (hnodup h')).mpr hmem
  refine hperm.eq_of_pairwise (fun a b _ _ hab hba => ?_) h.pairwise h'.pairwise
  omega

end MaximalRuns

section Merge

/-- Put an interval in front of a list that starts at or after its end, merging
    it with the first interval when they touch. -/
def mergeFront (b : Interval) : List Interval → List Interval
  | [] => [b]
  | c :: l => if b.start + b.len = c.start then ⟨b.start, b.len + c.len⟩ :: l else b :: c :: l

/-- Add the points of an interval to a sorted list, merging with both neighbours. -/
def merge (x : Interval) : List Interval → List Interval
  | [] => [x]
  | b :: l => if x.start < b.start then mergeFront x (b :: l) else mergeFront b (merge x l)

theorem covers_mergeFront (b : Interval) (l : List Interval) (u : Nat) :
    covers (mergeFront b l) u ↔ b.Covers u ∨ covers l u := by
  cases l with
  | nil => simp [mergeFront]
  | cons c l =>
    simp only [mergeFront]
    split
    · rename_i htouch
      simp only [covers_cons, Interval.Covers, ← or_assoc]
      refine or_congr_left ?_
      omega
    · simp

theorem covers_merge (x : Interval) (l : List Interval) (u : Nat) :
    covers (merge x l) u ↔ x.Covers u ∨ covers l u := by
  induction l with
  | nil => simp [merge]
  | cons b l ih =>
    unfold merge
    split
    · rw [covers_mergeFront, covers_cons]
    · rw [covers_mergeFront, ih, covers_cons]
      tauto

@[simp] theorem total_mergeFront (b : Interval) (l : List Interval) : total (mergeFront b l) = b.len + total l := by
  cases l with
  | nil => simp [mergeFront]
  | cons c l =>
    simp only [mergeFront]
    split <;> simp [Nat.add_assoc]

@[simp] theorem total_merge (x : Interval) (l : List Interval) :
    total (merge x l) = x.len + total l := by
  induction l with
  | nil => simp [merge]
  | cons b l ih =>
    unfold merge
    split
    · simp
    · simp only [total_mergeFront, ih, total_cons]
      omega

theorem Gapped.mergeFront {hi lo : Nat} {b : Interval} {l : List Interval} (hlo : lo ≤ b.start)
    (hlen : 0 < b.len) (hhi : b.start + b.len ≤ hi) (h : Gapped hi (b.start + b.len) l) :
    Gapped hi lo (mergeFront b l) := by
  cases l with
  | nil => exact ⟨hlo, hlen, hhi, trivial⟩
  | cons c l =>
    obtain ⟨hclo, hclen, hchi, htail⟩ := h
    simp only [interval.mergeFront]
    split
    · rename_i htouch
      refine ⟨hlo, ?_, ?_, htail.mono ?_⟩ <;> dsimp only <;> omega
    · exact ⟨hlo, hlen, hhi, by omega, hclen, hchi, htail⟩

/-- Adding a disjoint interval keeps the list canonical. -/
theorem Gapped.merge {hi lo : Nat} {x : Interval} {l : List Interval} (h : Gapped hi lo l)
    (hlo : lo ≤ x.start) (hlen : 0 < x.len) (hhi : x.start + x.len ≤ hi)
    (hdisj : ∀ u, x.Covers u → ¬ covers l u) : Gapped hi lo (merge x l) := by
  induction l generalizing lo with
  | nil => exact ⟨hlo, hlen, hhi, trivial⟩
  | cons b l ih =>
    obtain ⟨hblo, hblen, hbhi, htail⟩ := h
    unfold interval.merge
    split
    · rename_i hbefore
      have hend : x.start + x.len ≤ b.start := by
        by_contra hnot
        exact hdisj b.start ⟨by omega, by omega⟩
          (by rw [covers_cons]; exact .inl ⟨le_refl _, by omega⟩)
      exact Gapped.mergeFront hlo hlen hhi ⟨hend, hblen, hbhi, htail⟩
    · rename_i hafter
      have hend : b.start + b.len ≤ x.start := by
        by_contra hnot
        exact hdisj x.start ⟨le_refl _, by omega⟩
          (by rw [covers_cons]; exact .inl ⟨by omega, by omega⟩)
      have hdisj' : ∀ u, x.Covers u → ¬ covers l u := by
        intro u hx hl
        exact hdisj u hx (by rw [covers_cons]; exact .inr hl)
      exact Gapped.mergeFront hblo hblen hbhi (ih (htail.mono (by omega)) hend hdisj')

/-- Merging into a list that starts behind the new interval. -/
theorem merge_eq_mergeFront {x : Interval} {l : List Interval} (h : ∀ c ∈ l, x.start < c.start) :
    merge x l = mergeFront x l := by
  cases l with
  | nil => rfl
  | cons c l => rw [merge, if_pos (h c (by simp))]

theorem mergeFront_eq_cons (b : Interval) (l : List Interval) :
    ∃ c tl, mergeFront b l = c :: tl ∧ c.start = b.start := by
  cases l with
  | nil => exact ⟨b, [], rfl, rfl⟩
  | cons c l =>
    simp only [mergeFront]
    split
    · exact ⟨_, _, rfl, rfl⟩
    · exact ⟨_, _, rfl, rfl⟩

/-- Merging behind a known element of a canonical list changes nothing before it. -/
theorem merge_append {hi lo : Nat} {x p : Interval} {init post : List Interval}
    (hgap : Gapped hi lo (init ++ p :: post)) (hp : p.start < x.start)
    (hpost : ∀ c ∈ post, x.start < c.start) :
    merge x (init ++ p :: post) = init ++ mergeFront p (mergeFront x post) := by
  induction init generalizing lo with
  | nil =>
    rw [List.nil_append, merge, if_neg (by omega), merge_eq_mergeFront hpost]
    rfl
  | cons a init ih =>
    have hnext := hgap.2.2.2
    have hap : a.start + a.len + 1 ≤ p.start := (hnext.bounds p (by simp)).1
    rw [List.cons_append, merge, if_neg (by omega), ih hnext]
    have hhead : ∃ c l, init ++ mergeFront p (mergeFront x post) = c :: l ∧
        a.start + a.len < c.start := by
      cases init with
      | nil =>
        obtain ⟨c, tl, hc, hstart⟩ := mergeFront_eq_cons p (mergeFront x post)
        exact ⟨c, tl, hc, by omega⟩
      | cons c init => exact ⟨c, _, rfl, by have := hnext.1; omega⟩
    obtain ⟨c, l, hcl, hac⟩ := hhead
    rw [hcl, mergeFront, if_neg (by omega), List.cons_append, hcl]

end Merge

section Cut

/-- The list with one interval, or with none when that interval is empty. -/
def piece (start len : Nat) : List Interval :=
  if len = 0 then [] else [⟨start, len⟩]

/-- Remove the points of an interval from the list element that contains it. -/
def cut (x : Interval) : List Interval → List Interval
  | [] => []
  | b :: l =>
    if x.start < b.start + b.len then
      piece b.start (x.start - b.start) ++
        piece (x.start + x.len) (b.start + b.len - (x.start + x.len)) ++ l
    else b :: cut x l

theorem covers_piece (start len u : Nat) : covers (piece start len) u ↔ start ≤ u ∧ u < start + len := by
  unfold piece
  split
  · simp
    omega
  · simp [Interval.Covers]

theorem mem_piece {start len : Nat} {b : Interval} (hb : b ∈ piece start len) : b = ⟨start, len⟩ := by
  unfold piece at hb
  split at hb <;> simp_all

theorem Spaced.piece_append {k hi lo start len : Nat} {l : List Interval} (hlo : lo ≤ start)
    (hhi : start + len ≤ hi) (h : Spaced k hi (start + len + k) l) :
    Spaced k hi lo (piece start len ++ l) := by
  unfold piece
  split
  · exact h.mono (by omega)
  · exact ⟨hlo, by dsimp only; omega, hhi, h⟩

@[simp] theorem total_piece (start len : Nat) : total (piece start len) = len := by
  unfold piece
  split <;> simp_all

/-- Cutting inside a known element replaces it by its two remainders. -/
theorem cut_append {k hi lo : Nat} {x b : Interval} {pre post : List Interval}
    (h : Spaced k hi lo (pre ++ b :: post)) (hlo : b.start ≤ x.start) (hlen : 0 < x.len)
    (hhi : x.start + x.len ≤ b.start + b.len) :
    cut x (pre ++ b :: post) = pre ++ (piece b.start (x.start - b.start) ++
      piece (x.start + x.len) (b.start + b.len - (x.start + x.len)) ++ post) := by
  induction pre generalizing lo with
  | nil =>
    rw [List.nil_append, cut, if_pos (by omega)]
    rfl
  | cons c pre ih =>
    have hsep := (h.2.2.2.bounds b (by simp)).1
    rw [List.cons_append, cut, if_neg (by omega), ih h.2.2.2]
    rfl

/-- What is left keeps its distance when the cut is at least that wide. -/
theorem Spaced.cut {k hi lo : Nat} {x b : Interval} {pre post : List Interval}
    (h : Spaced k hi lo (pre ++ b :: post)) (hlo : b.start ≤ x.start) (hlen : 0 < x.len)
    (hhi : x.start + x.len ≤ b.start + b.len) (hk : k ≤ x.len) :
    Spaced k hi lo (cut x (pre ++ b :: post)) := by
  rw [cut_append h hlo hlen hhi]
  rw [Spaced.append_iff] at h ⊢
  obtain ⟨hpre, hb, hsep⟩ := h
  obtain ⟨hblo, hblen, hbhi, hpost⟩ := hb
  refine ⟨hpre, ?_, fun a ha c hc => ?_⟩
  · rw [List.append_assoc]
    refine Spaced.piece_append hblo (by omega) ?_
    exact Spaced.piece_append (by omega) (by omega) (hpost.mono (by omega))
  · have hab := hsep a ha b (by simp)
    simp only [List.mem_append] at hc
    obtain (hc | hc) | hc := hc
    · rw [mem_piece hc]
      exact hab
    · rw [mem_piece hc]
      dsimp only
      omega
    · exact hsep a ha c (by simp [hc])

theorem covers_cut {k hi lo : Nat} {x b : Interval} {pre post : List Interval}
    (h : Spaced k hi lo (pre ++ b :: post)) (hlo : b.start ≤ x.start) (hlen : 0 < x.len)
    (hhi : x.start + x.len ≤ b.start + b.len) (u : Nat) :
    covers (cut x (pre ++ b :: post)) u ↔ covers (pre ++ b :: post) u ∧ ¬ x.Covers u := by
  rw [cut_append h hlo hlen hhi]
  rw [Spaced.append_iff] at h
  obtain ⟨hpre, hb, hsep⟩ := h
  have hleft : covers pre u → u < b.start := by
    rintro ⟨a, ha, hau⟩
    have := hsep a ha b (by simp)
    have := hau.2
    omega
  have hright : covers post u → b.start + b.len ≤ u := by
    intro hu
    have := (hb.2.2.2.covers_bounds hu).1
    omega
  simp only [covers_append, covers_cons, covers_piece, Interval.Covers]
  constructor
  · rintro (hu | (hu | hu) | hu)
    · have := hleft hu
      exact ⟨.inl hu, by omega⟩
    · exact ⟨.inr (.inl (by omega)), by omega⟩
    · exact ⟨.inr (.inl (by omega)), by omega⟩
    · have := hright hu
      exact ⟨.inr (.inr hu), by omega⟩
  · rintro ⟨hu | hu | hu, hx⟩
    · exact .inl hu
    · by_cases hu' : u < x.start
      · exact .inr (.inl (.inl (by omega)))
      · exact .inr (.inl (.inr (by omega)))
    · exact .inr (.inr hu)

theorem total_cut {k hi lo : Nat} {x b : Interval} {pre post : List Interval}
    (h : Spaced k hi lo (pre ++ b :: post)) (hlo : b.start ≤ x.start) (hlen : 0 < x.len)
    (hhi : x.start + x.len ≤ b.start + b.len) :
    total (cut x (pre ++ b :: post)) + x.len = total (pre ++ b :: post) := by
  rw [cut_append h hlo hlen hhi]
  simp only [total_append, total_cons, total_piece]
  omega

end Cut

end interval
