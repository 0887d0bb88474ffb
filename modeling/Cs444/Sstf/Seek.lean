import Cs444.Sstf.Order

open interleaving

namespace cs444.sstf

variable {s s' : State} {c : Call} {head : sector_t} {rq : request}

/-- The distance between two sectors. -/
def request.away (a b : request) : Nat :=
  (a.pos - b.pos) + (b.pos - a.pos)

/-- Among the requests left when `rq` is dispatched none is closer to it. -/
def Nearest (queue : List request) (rq q : request) : Prop :=
  ∀ r ∈ queue.erase rq, rq.away q ≤ rq.away r

instance (queue : List request) (rq q : request) : Decidable (Nearest queue rq q) :=
  List.decidableBAll _ _

/-- A request that is dispatched while others are queued leaves the cursor on one of these that is
    nearest to it. -/
def Call.Seeks (s : State) : Call → Prop
  | .add _ _ => True
  | .dispatch head => 2 ≤ s.nd.queue.length →
    ∃ rq nd q, sstf_dispatch s.nd head = (some (some rq), nd) ∧ nd.enqueue = some q ∧ q ∈ nd.queue ∧
      ∀ r ∈ nd.queue, rq.away q ≤ rq.away r

/-- Before a dispatch with two or more requests queued: none of those behind the second one is strictly within
    the distance that the second has from the first, and in 32 bits the value read at the list head is not either. -/
def Call.Ahead (s : State) : Call → Prop
  | .add _ _ => True
  | .dispatch head =>
    match s.nd.queue with
    | first :: second :: rest =>
      (∀ r ∈ rest, r.pos + first.away second ≤ first.pos ∨ first.pos + first.away second ≤ r.pos) ∧
        distance first.sector second.sector ≤ distance first.sector head
    | _ => True

/-- A request is added at no lower sector than that of the first request on the list. -/
def Call.Upward (s : State) : Call → Prop
  | .add rq _ => ∀ first ∈ s.nd.queue.head?, first.pos ≤ rq.pos
  | .dispatch _ => True

section Steps

/-- The list is linked, and the cursor of a non-empty queue is on the first request. -/
structure Aimed (s : State) : Prop where
  linked : Linked s.nd
  front : Fronted s.nd
  cursor : s.nd.queue ≠ [] → s.nd.enqueue ≠ none

theorem Aimed.enqueue_eq (h : Aimed s) (hne : s.nd.queue ≠ []) : s.nd.enqueue = s.nd.queue.head? :=
  (h.front.cursor hne).resolve_left (h.cursor hne)

theorem Aimed.onRequest (h : Aimed s) : c.OnRequest s := by
  cases c with
  | add rq head => exact trivial
  | dispatch head => exact h.cursor

/-- A dispatch with others queued moves the cursor to the neighbour the comparison selects. -/
theorem Linked.seeks_iff (h : Linked s.nd) (hcur : s.nd.enqueue = some rq) (htwo : 2 ≤ s.nd.queue.length) :
    (Call.dispatch head).Seeks s ↔ ∃ q, s.nd.neighbour head = some q ∧ Nearest s.nd.queue rq q := by
  have hne : s.nd.queue ≠ [] := List.ne_nil_of_length_pos (by omega)
  have hmem := h.cursor hne rq hcur
  have hmany : s.nd.queue_count ≠ 1 := by
    have hcount := h.count
    omega
  simp only [Call.Seeks, sstf_dispatch_eq hne hcur, if_neg hmany]
  constructor
  · intro hseeks
    obtain ⟨rq', nd, q, heq, hq, -, hleast⟩ := hseeks htwo
    obtain ⟨hrq, rfl⟩ := Prod.mk.inj heq
    obtain rfl : rq = rq' := by simpa using hrq
    exact ⟨q, hq, hleast⟩
  · rintro ⟨q, hq, hleast⟩ -
    exact ⟨rq, _, q, rfl, hq, neighbour_mem_erase hmem hcur hq, hleast⟩

/-- The second request is nearest to the first if none of the others is strictly within its distance. -/
theorem nearest_second_iff {first second : request} {rest : List request} :
    Nearest (first :: second :: rest) first second ↔
      ∀ r ∈ rest, r.pos + first.away second ≤ first.pos ∨ first.pos + first.away second ≤ r.pos := by
  have hfarther : ∀ r, first.away second ≤ first.away r ↔
      r.pos + first.away second ≤ first.pos ∨ first.pos + first.away second ≤ r.pos := by
    intro r
    rw [request.away.eq_1 first r]
    omega
  rw [Nearest, List.erase_cons_head, List.forall_mem_cons]
  simp only [hfarther, and_iff_right_iff_imp]
  intro _
  rw [← hfarther]

/-- A dispatch leaves the cursor on a nearest request exactly if that is the second on the list, and the list head
    is not taken for a closer one. -/
theorem Aimed.seeks_step_iff (h : Aimed s) : c.Seeks s ↔ c.Ahead s := by
  cases c with
  | add rq head => exact Iff.rfl
  | dispatch head =>
    rw [Call.Ahead]
    split
    · rename_i first second rest hqueue
      have hne : s.nd.queue ≠ [] := by simp [hqueue]
      have hcur : s.nd.enqueue = some first := by rw [h.enqueue_eq hne, hqueue, List.head?_cons]
      rw [h.linked.seeks_iff hcur (by simp [hqueue]), neighbour_cons hqueue hcur, hqueue, ← nearest_second_iff]
      by_cases hlt : distance first.sector head < distance first.sector second.sector
      · simp [hlt, BitVec.not_le.mpr hlt]
      · simp [hlt, BitVec.not_lt.mp hlt]
    · rename_i hshort
      refine iff_of_true (fun htwo => ?_) trivial
      obtain ⟨first, second, rest, hqueue⟩ := exists_first_second htwo
      exact absurd hqueue (hshort first second rest)

/-- A dispatch that leaves the cursor on a nearest request leaves it on a request. -/
theorem Aimed.next (h : Aimed s) (hseeks : c.Seeks s) (hnext : sstf.next s c = some s') : Aimed s' := by
  have hlinked := h.linked.next h.onRequest hnext
  obtain ⟨-, rfl⟩ := next_eq_some.mp hnext
  refine ⟨hlinked, h.front.step, fun hne => ?_⟩
  cases c with
  | add rq head =>
    have henqueue := (sstf_add_request_spec s.nd rq head).2.2
    simp only [step, henqueue]
    split
    · simp
    · rename_i hold
      exact h.cursor hold
  | dispatch head =>
    by_cases htwo : 2 ≤ s.nd.queue.length
    · obtain ⟨rq, nd, q, heq, hq, -⟩ := hseeks htwo
      simp [step, heq, hq]
    · have hold : s.nd.queue ≠ [] := by
        rintro hnil
        exact hne (by simp [step, sstf_dispatch, hnil])
      obtain ⟨rq, hcur⟩ := Option.ne_none_iff_exists'.mp (h.cursor hold)
      have hmem := h.linked.cursor hold rq hcur
      have herase := List.length_erase_of_mem hmem
      refine absurd (List.length_eq_zero_iff.mp ?_) hne
      simp only [step, sstf_dispatch_eq hold hcur]
      omega

/-- With the list in ascending order nothing is closer to the first request than the second, unless the list head
    is taken for it. -/
theorem ahead_iff_clear (h : cyclic.Ascending request.pos s.nd.queue) : c.Ahead s ↔ c.Clear s := by
  cases c with
  | add rq head => exact Iff.rfl
  | dispatch head =>
    rw [Call.Ahead, Call.Clear]
    cases hqueue : s.nd.queue with
    | nil => exact Iff.rfl
    | cons first tail =>
      cases tail with
      | nil => exact Iff.rfl
      | cons second rest =>
        refine and_iff_right fun r hr => .inr ?_
        rw [hqueue] at h
        obtain ⟨hfirst, htail⟩ := List.pairwise_cons.mp h
        have hsecond := hfirst second List.mem_cons_self
        have hbehind := (List.pairwise_cons.mp htail).1 r hr
        rw [request.away]
        omega

/-- The list stays in ascending order when nothing is added below its first request. -/
theorem ascending_next (h : Aimed s) (hasc : cyclic.Ascending request.pos s.nd.queue) (hup : c.Upward s)
    (hnext : next s c = some s') : cyclic.Ascending request.pos s'.nd.queue := by
  obtain ⟨-, rfl⟩ := next_eq_some.mp hnext
  cases c with
  | add rq head =>
    have hqueue : (step s (.add rq head)).nd.queue = cyclic.place request.pos rq s.nd.queue :=
      h.linked.add_queue rq head
    rw [hqueue]
    exact hasc.place hup
  | dispatch head => exact hasc.sublist (dispatch_sublist h.cursor)

end Steps

/-- In every run from `sstf_init_queue` on, all dispatches leave the cursor on a nearest request exactly if each of
    them finds the second request on the list nearest to the first, and the value read at the list head no closer in
    32 bits. When no request is added below the first on the list, only the value read at the list head matters. -/
theorem seeks_iff_ahead (hs : Initial s) (cs : List Call) :
    (Along next (fun s c => c.Seeks s) s cs ↔ Along next (fun s c => c.Ahead s) s cs) ∧
      (Along next (fun s c => c.Upward s) s cs →
        (Along next (fun s c => c.Seeks s) s cs ↔ Along next (fun s c => c.Clear s) s cs)) := by
  have hnil := hs.queue_eq_nil.1
  have hstart : Aimed s := ⟨hs.linked, hs.fronted, fun hne => absurd hnil hne⟩
  refine ⟨along_congr (I := Aimed) (fun s c h => h.seeks_step_iff) (fun s c s' h hseeks hnext => h.next hseeks hnext)
    hstart cs, fun hup => ?_⟩
  have hascending : cyclic.Ascending request.pos s.nd.queue := by
    rw [hnil]
    exact List.Pairwise.nil
  refine along_congr_of (I := fun s => Aimed s ∧ cyclic.Ascending request.pos s.nd.queue) ?_ ?_ ⟨hstart, hascending⟩ hup
  · rintro s c ⟨haimed, hasc⟩
    exact haimed.seeks_step_iff.trans (ahead_iff_clear hasc)
  · rintro s c s' ⟨haimed, hasc⟩ hadd hseeks hnext
    exact ⟨haimed.next hseeks hnext, ascending_next haimed hasc hadd hnext⟩

/-- Three requests, each added at or above the first, and two dispatches. -/
def upwardCalls : List Call :=
  [.add ⟨1, 10⟩ 1000, .add ⟨2, 30⟩ 1000, .add ⟨3, 20⟩ 1000, .dispatch 1000, .dispatch 1000]

theorem seeks_iff_ahead_upwardCalls : Initial init ∧ (run init upwardCalls).nd.queue = [⟨2, 30⟩] ∧
    Along next (fun s c => c.Ahead s) init upwardCalls ∧ Along next (fun s c => c.Upward s) init upwardCalls ∧
    Along next (fun s c => c.Seeks s) init upwardCalls := by
  have hup : Along next (fun s c => c.Upward s) init upwardCalls := by
    refine along_cons.mpr fun _ => ⟨by simp [Call.Upward, init], along_cons.mpr fun _ => ⟨?_, along_cons.mpr fun _ =>
      ⟨?_, along_cons.mpr fun _ => ⟨trivial, along_cons.mpr fun _ => ⟨trivial, trivial⟩⟩⟩⟩⟩
    · show ∀ first ∈ some ⟨1, 10⟩, request.pos first ≤ request.pos ⟨2, 30⟩
      decide
    · show ∀ first ∈ some ⟨1, 10⟩, request.pos first ≤ request.pos ⟨3, 20⟩
      decide
  have hclear : Along next (fun s c => c.Clear s) init upwardCalls := by
    refine along_cons.mpr fun _ => ⟨trivial, along_cons.mpr fun _ => ⟨trivial, along_cons.mpr fun _ => ⟨trivial,
      along_cons.mpr fun _ => ⟨?_, along_cons.mpr fun _ => ⟨?_, trivial⟩⟩⟩⟩⟩
    · show distance 10 20 ≤ distance 10 1000
      decide
    · show distance 20 30 ≤ distance 20 1000
      decide
  obtain ⟨hahead, hupward⟩ := seeks_iff_ahead init_initial upwardCalls
  have hseeks := (hupward hup).mpr hclear
  exact ⟨init_initial, by decide, hahead.mp hseeks, hup, hseeks⟩

/-- With 10, 30 and 5 queued, the request at 10 stands first and that at 5 last: the cursor goes from 10
    to 30. -/
theorem threeCalls_farther : Initial init ∧
    (run init (threeCalls.take 3)).nd.queue = [⟨1, 10⟩, ⟨2, 30⟩, ⟨3, 5⟩] ∧
    (run init threeCalls).dispatched = [some ⟨1, 10⟩] ∧ (run init threeCalls).nd.enqueue = some ⟨2, 30⟩ ∧
    (run init threeCalls).nd.queue = [⟨2, 30⟩, ⟨3, 5⟩] ∧
    ¬ Along next (fun s c => c.Seeks s) init threeCalls := by
  refine ⟨init_initial, by decide, by decide, by decide, by decide, fun hseeks => ?_⟩
  obtain ⟨-, h₁⟩ := along_cons.mp hseeks (by decide)
  obtain ⟨-, h₂⟩ := along_cons.mp h₁ (by decide)
  obtain ⟨-, h₃⟩ := along_cons.mp h₂ (by decide)
  obtain ⟨hlast, -⟩ := along_cons.mp h₃ (by decide)
  obtain ⟨rq, nd, q, heq, hq, -, hleast⟩ := hlast (by decide)
  obtain ⟨hrq, rfl⟩ := Prod.mk.inj heq
  obtain rfl : ⟨1, 10⟩ = rq := Option.some.inj (Option.some.inj hrq)
  obtain rfl : ⟨2, 30⟩ = q := Option.some.inj hq
  exact absurd (hleast ⟨3, 5⟩ (by decide)) (by decide)

section Distance

theorem abs_toNat (x : BitVec 32) : (abs x).toNat = if x.toNat < 2 ^ 31 then x.toNat else 2 ^ 32 - x.toNat := by
  have hslt : x.slt 0 = decide (2 ^ 31 ≤ x.toNat) := by
    have hmsb : x.slt 0 = x.msb := BitVec.slt_zero_eq_msb
    exact hmsb.trans (BitVec.msb_eq_decide x)
  rw [abs, hslt]
  by_cases hpos : x.toNat < 2 ^ 31
  · rw [if_pos hpos, if_neg (by simpa using hpos)]
  · have hlt := x.isLt
    rw [if_neg hpos, if_pos (by simpa using hpos), BitVec.toNat_neg]
    omega

/-- How far a number is from the nearest multiple of `2 ^ 32`. -/
def folded (d : Nat) : Nat := min (d % 2 ^ 32) (2 ^ 32 - d % 2 ^ 32)

theorem folded_of_le {d : Nat} (h : d ≤ 2 ^ 31) : folded d = d := by
  rw [folded, Nat.mod_eq_of_lt (by omega)]
  omega

/-- The casts and the wrapping subtraction leave of the distance what it is modulo `2 ^ 32`, up to the sign,
    and `abs` takes the sign off. -/
theorem distance_toNat_eq_folded (a b : request) : (distance a.sector b.sector).toNat = folded (a.away b) := by
  rw [distance, abs_toNat, BitVec.toNat_sub, BitVec.toNat_setWidth, BitVec.toNat_setWidth, folded, request.away,
    request.pos, request.pos]
  split <;> omega

theorem distance_lt_iff (curr prev next : request) :
    distance curr.sector prev.sector < distance curr.sector next.sector ↔
      folded (curr.away prev) < folded (curr.away next) := by
  rw [BitVec.lt_def, distance_toNat_eq_folded, distance_toNat_eq_folded]

/-- A dispatch between two requests moves the cursor to the one that the comparison prefers. -/
theorem sstf_dispatch_between {nd : sstf_data} {curr prev next : request} (hcur : nd.enqueue = some curr)
    (hmany : nd.queue_count ≠ 1) (hprev : ring.prev nd.queue (some curr) = some prev)
    (hnext : ring.next nd.queue (some curr) = some next) :
    (sstf_dispatch nd head).2.enqueue =
      some (if distance curr.sector prev.sector < distance curr.sector next.sector then prev else next) := by
  have hne : nd.queue ≠ [] := by
    intro hnil
    rw [hnil] at hprev
    simp [ring.prev, ring.before] at hprev
  rw [sstf_dispatch_eq hne hcur, if_neg hmany]
  simp only [sstf_data.neighbour, hcur, hprev, hnext, blk_rq_pos]
  rw [apply_ite some]

/-- Requests at 0, `2 ^ 32` and `2 ^ 32 + 1`, with the cursor on the second. -/
def farPrev : sstf_data where
  queue := [⟨1, 0⟩, ⟨2, 4294967296⟩, ⟨3, 4294967297⟩]
  enqueue := some ⟨2, 4294967296⟩
  queue_count := 3

/-- The request `2 ^ 32` sectors back is taken for one that is 0 sectors away. -/
theorem dispatch_to_farther :
    request.away ⟨2, 4294967296⟩ ⟨1, 0⟩ = 4294967296 ∧ request.away ⟨2, 4294967296⟩ ⟨3, 4294967297⟩ = 1 ∧
    distance 4294967296 0 = 0 ∧ distance 4294967296 4294967297 = 1 ∧
    ∀ head, (sstf_dispatch farPrev head).2.enqueue = some ⟨1, 0⟩ := by
  have hcloser : distance 4294967296 0 < distance 4294967296 4294967297 := by decide
  refine ⟨by decide, by decide, by decide, by decide, ?_⟩
  intro head
  have hprev : ring.prev farPrev.queue (some ⟨2, 4294967296⟩) = some ⟨1, 0⟩ := by decide
  have hnext : ring.next farPrev.queue (some ⟨2, 4294967296⟩) = some ⟨3, 4294967297⟩ := by decide
  rw [sstf_dispatch_between rfl (by decide) hprev hnext, if_pos hcloser]

/-- The comparison of a dispatch, with its casts, the subtraction that wraps and `abs` in 32 bits, says which of two
    requests is nearer for all sectors that are at most a bound apart exactly if the bound is not above `2 ^ 31`. -/
theorem compares_within_iff (bound : Nat) :
    (∀ curr prev next : request, curr.away prev ≤ bound → curr.away next ≤ bound →
      (distance curr.sector prev.sector < distance curr.sector next.sector ↔ curr.away prev < curr.away next)) ↔
        bound ≤ 2 ^ 31 := by
  constructor
  · intro hright
    by_contra hlarge
    -- `2 ^ 31 + 1` sectors away is taken for `2 ^ 31 - 1`
    have hprev : request.away ⟨0, 0⟩ ⟨1, 2147483649⟩ = 2 ^ 31 + 1 := by decide
    have hnext : request.away ⟨0, 0⟩ ⟨2, 2147483648⟩ = 2 ^ 31 := by decide
    have hcompare := hright ⟨0, 0⟩ ⟨1, 2147483649⟩ ⟨2, 2147483648⟩ (by omega) (by omega)
    rw [distance_lt_iff, hprev, hnext] at hcompare
    exact absurd hcompare (by decide)
  · intro hle curr prev next hprev hnext
    rw [distance_lt_iff, folded_of_le (hprev.trans hle), folded_of_le (hnext.trans hle)]

end Distance

end cs444.sstf
