import Mathlib.Algebra.BigOperators.Ring.List
import Mathlib.Algebra.Order.BigOperators.Group.List
import Mathlib.Algebra.Order.Group.Nat
import Mathlib.Algebra.Ring.Nat
import Mathlib.Data.List.GetD
import Mathlib.Data.List.Pairwise
import Cs444.Osurd.Modes

open blockwise

namespace cs444.osurd

variable {size : Nat} {write : Bool}

section Plans

/-- One segment as the two modes transfer it: `len` sectors at sector `pos`, or `nsect`
    sectors at sector `sector`. -/
structure Plan where
  idx : Nat
  addr : Nat
  pos : Nat
  len : Nat
  sector : Nat
  nsect : Nat

def Plan.direct (size : Nat) (write : Bool) (p : Plan) : List Move :=
  transferMoves size p.pos p.len p.addr write

def Plan.bio (size : Nat) (write : Bool) (p : Plan) : List Move :=
  transferMoves size p.sector p.nsect p.addr write

/-- The plans of the segments of one bio, numbered from `k` on; `place` says where the
    buffers are. -/
def segPlans (place : Nat → Nat) (nsect : Nat) : Nat → Nat → Nat → List Nat → List Plan
  | _, _, _, [] => []
  | k, pos, sector, l :: ls =>
    ⟨k, place k, pos, l, sector, nsect⟩ :: segPlans place nsect (k + 1) (pos + l) (sector + nsect) ls

/-- The plans of the segments of a list of bios. -/
def plans (place : Nat → Nat) : Nat → Nat → List (List Nat) → List Plan
  | _, _, [] => []
  | k, pos, b :: bs =>
    segPlans place (b.headD 0) k pos pos b ++ plans place (k + b.length) (pos + b.sum) bs

def buildSegs (place : Nat → Nat) : Nat → List Nat → List bio_vec
  | _, [] => []
  | k, l :: ls => ⟨place k, 512 * l⟩ :: buildSegs place (k + 1) ls

def buildBios (write : Bool) (place : Nat → Nat) : Nat → Nat → List (List Nat) → List bio
  | _, _, [] => []
  | k, pos, b :: bs =>
    ⟨pos, write, buildSegs place k b⟩ :: buildBios write place (k + b.length) (pos + b.sum) bs

/-- A request with the given shape and placement of its buffers. -/
def build (write : Bool) (pos : Nat) (lens : List (List Nat)) (place : Nat → Nat) : request where
  id := 0
  cmd_type := .fs
  write := write
  pos := pos
  bios := buildBios write place 0 pos lens

variable {place : Nat → Nat} {k pos sector nsect : Nat} {ls : List Nat} {lens : List (List Nat)}

theorem buildSegs_lens : (buildSegs place k ls).map bio_vec.bv_len = ls.map (512 * ·) := by
  induction ls generalizing k with
  | nil => rfl
  | cons l ls ih => rw [buildSegs, List.map_cons, ih, List.map_cons]

theorem bi_size_build : bi_size ⟨pos, write, buildSegs place k ls⟩ / 512 = ls.sum := by
  rw [bi_size, buildSegs_lens]
  have hsum : (ls.map (512 * ·)).sum = 512 * ls.sum := by
    rw [List.sum_map_mul_left, List.map_id']
  rw [hsum]
  omega

theorem bio_cur_bytes_build : bio_cur_bytes ⟨pos, write, buildSegs place k ls⟩ / 512 = ls.headD 0 := by
  cases ls with
  | nil => simp [bio_cur_bytes, buildSegs, bi_size]
  | cons l ls =>
    simp only [bio_cur_bytes, buildSegs, List.headD_cons]
    omega

theorem segPlans_direct :
    (segPlans place nsect k pos sector ls).flatMap (Plan.direct size write) =
      directMoves size write pos (buildSegs place k ls) := by
  induction ls generalizing k pos sector with
  | nil => rfl
  | cons l ls ih =>
    have hdiv : 512 * l / 512 = l := by omega
    rw [segPlans, List.flatMap_cons, ih, buildSegs, directMoves, hdiv]
    rfl

theorem segPlans_bio :
    (segPlans place nsect k pos sector ls).flatMap (Plan.bio size write) =
      bioMoves size write nsect sector (buildSegs place k ls) := by
  induction ls generalizing k pos sector with
  | nil => rfl
  | cons l ls ih =>
    rw [segPlans, List.flatMap_cons, ih, buildSegs, bioMoves]
    rfl

theorem directMoves_append (pos : Nat) (vs ws : List bio_vec) :
    directMoves size write pos (vs ++ ws) =
      directMoves size write pos vs ++
        directMoves size write (pos + (vs.map fun v => v.bv_len / 512).sum) ws := by
  induction vs generalizing pos with
  | nil => rfl
  | cons v vs ih =>
    rw [List.cons_append, directMoves, ih, directMoves, List.append_assoc, List.map_cons, List.sum_cons,
      Nat.add_assoc]

theorem buildSegs_sectors : ((buildSegs place k ls).map fun v => v.bv_len / 512).sum = ls.sum := by
  induction ls generalizing k with
  | nil => rfl
  | cons l ls ih =>
    simp only [buildSegs, List.map_cons, List.sum_cons, ih]
    omega

/-- The moves of the two modes on a request are those of its plans. -/
theorem plans_direct :
    (plans place k pos lens).flatMap (Plan.direct size write) =
      directMoves size write pos ((buildBios write place k pos lens).flatMap bio.bi_io_vec) := by
  induction lens generalizing k pos with
  | nil => rfl
  | cons b bs ih =>
    rw [plans, List.flatMap_append, segPlans_direct, ih, buildBios, List.flatMap_cons, directMoves_append,
      buildSegs_sectors]

theorem plans_bio :
    (plans place k pos lens).flatMap (Plan.bio size write) =
      requestMoves size write (buildBios write place k pos lens) := by
  induction lens generalizing k pos with
  | nil => rfl
  | cons b bs ih =>
    rw [plans, List.flatMap_append, segPlans_bio, ih, buildBios, requestMoves_cons, bio_cur_bytes_build]

theorem plans_segments :
    (plans place k pos lens).map (fun p => (⟨p.addr, 512 * p.len⟩ : bio_vec)) =
      (buildBios write place k pos lens).flatMap bio.bi_io_vec := by
  have hsegs : ∀ (nsect k pos sector : Nat) (ls : List Nat),
      (segPlans place nsect k pos sector ls).map (fun p => (⟨p.addr, 512 * p.len⟩ : bio_vec)) =
        buildSegs place k ls := by
    intro nsect k pos sector ls
    induction ls generalizing k pos sector with
    | nil => rfl
    | cons l ls ih => rw [segPlans, List.map_cons, ih, buildSegs]
  induction lens generalizing k pos with
  | nil => rfl
  | cons b bs ih => rw [plans, List.map_append, hsegs, ih, buildBios, List.flatMap_cons]

theorem buildBios_lens : (buildBios write place k pos lens).map (fun b => b.bi_io_vec.map bio_vec.bv_len) =
    lens.map (List.map (512 * ·)) := by
  induction lens generalizing k pos with
  | nil => rfl
  | cons b bs ih => rw [buildBios, List.map_cons, ih, buildSegs_lens, List.map_cons]

theorem buildBios_rw : ∀ b ∈ buildBios write place k pos lens, b.bi_rw = write := by
  induction lens generalizing k pos with
  | nil => simp [buildBios]
  | cons b bs ih => simpa [buildBios] using ih

theorem buildBios_contiguous : Contiguous pos (buildBios write place k pos lens) := by
  induction lens generalizing k pos with
  | nil => trivial
  | cons b bs ih =>
    refine ⟨rfl, ?_⟩
    rw [bi_size_build]
    exact ih

/-- What holds of every plan of a list of bios: its place, and where it lies on the
    device. -/
theorem mem_segPlans {p : Plan} (hp : p ∈ segPlans place nsect k pos sector ls) :
    p.addr = place p.idx ∧ k ≤ p.idx ∧ p.idx < k + ls.length ∧ pos ≤ p.pos ∧ p.pos + p.len ≤ pos + ls.sum ∧
      p.len ∈ ls ∧ p.nsect = nsect := by
  induction ls generalizing k pos sector with
  | nil => simp [segPlans] at hp
  | cons l ls ih =>
    rw [segPlans, List.mem_cons] at hp
    rw [List.length_cons, List.sum_cons, List.mem_cons]
    obtain rfl | hp := hp
    · exact ⟨rfl, le_refl _, by dsimp only; omega, le_refl _, by dsimp only; omega, .inl rfl, rfl⟩
    · obtain ⟨haddr, hlo, hhi, hpos, hend, hlen, hns⟩ := ih hp
      exact ⟨haddr, by omega, by omega, by omega, by omega, .inr hlen, hns⟩

theorem mem_plans {p : Plan} (hp : p ∈ plans place k pos lens) :
    p.addr = place p.idx ∧ k ≤ p.idx ∧ p.idx < k + lens.flatten.length ∧ pos ≤ p.pos ∧
      p.pos + p.len ≤ pos + lens.flatten.sum ∧ p.len ∈ lens.flatten ∧ p.nsect ∈ lens.flatten := by
  induction lens generalizing k pos with
  | nil => simp [plans] at hp
  | cons b bs ih =>
    rw [plans, List.mem_append] at hp
    rw [List.flatten_cons, List.length_append, List.sum_append, List.mem_append, List.mem_append]
    obtain hp | hp := hp
    · obtain ⟨haddr, hlo, hhi, hpos, hend, hlen, hns⟩ := mem_segPlans hp
      refine ⟨haddr, hlo, by omega, hpos, by omega, .inl hlen, .inl ?_⟩
      rw [hns]
      cases b with
      | nil => cases hlen
      | cons l ls => exact List.mem_cons_self
    · obtain ⟨haddr, hlo, hhi, hpos, hend, hlen, hns⟩ := ih hp
      exact ⟨haddr, by omega, by omega, by omega, by omega, .inr hlen, .inr hns⟩

/-- Plans are numbered in order, and follow one another on the device. -/
theorem pairwise_plans : (plans place k pos lens).Pairwise fun p q =>
    p.idx < q.idx ∧ p.pos + p.len ≤ q.pos := by
  have hsegs : ∀ (nsect k pos sector : Nat) (ls : List Nat),
      (segPlans place nsect k pos sector ls).Pairwise fun p q => p.idx < q.idx ∧ p.pos + p.len ≤ q.pos := by
    intro nsect k pos sector ls
    induction ls generalizing k pos sector with
    | nil => exact List.Pairwise.nil
    | cons l ls ih =>
      refine List.Pairwise.cons (fun q hq => ?_) (ih _ _ _)
      obtain ⟨-, hlo, -, hpos, -⟩ := mem_segPlans hq
      exact ⟨hlo, hpos⟩
  induction lens generalizing k pos with
  | nil => exact List.Pairwise.nil
  | cons b bs ih =>
    refine List.pairwise_append.mpr ⟨hsegs _ _ _ _ _, ih, fun p hp q hq => ?_⟩
    obtain ⟨-, -, hhi, -, hend, -⟩ := mem_segPlans hp
    obtain ⟨-, hlo, -, hpos, -⟩ := mem_plans hq
    exact ⟨by omega, by omega⟩

/-- Plans with different numbers, on different parts of the device. -/
def Plan.Separate (p q : Plan) : Prop :=
  p.idx ≠ q.idx ∧ (p.pos + p.len ≤ q.pos ∨ q.pos + q.len ≤ p.pos)

instance : Std.Symm Plan.Separate := ⟨fun _ _ h => ⟨h.1.symm, h.2.symm⟩⟩

theorem separate_of_ne {p q : Plan} (hp : p ∈ plans place k pos lens) (hq : q ∈ plans place k pos lens)
    (hne : p ≠ q) : p.Separate q := by
  have hsep : (plans place k pos lens).Pairwise Plan.Separate :=
    pairwise_plans.imp fun h => ⟨h.1.ne, .inl h.2⟩
  exact hsep.forall hp hq hne

end Plans

section Agree

variable {place : Nat → Nat} {k pos : Nat} {ls : List Nat} {lens : List (List Nat)}

/-- Plans whose buffers do not overlap. -/
def Plan.Disjoint (p q : Plan) : Prop :=
  p.addr + 512 * p.len ≤ q.addr ∨ q.addr + 512 * q.len ≤ p.addr

instance : Std.Symm Plan.Disjoint := ⟨fun _ _ => Or.symm⟩

/-- The two modes give every byte compared the same origin. -/
def PlansAgree (size : Nat) (write : Bool) (l : List Plan) : Prop :=
  ∀ x, (write = true ∨ ∃ p ∈ l, p.addr ≤ x ∧ x < p.addr + 512 * p.len) →
    origin (l.flatMap (Plan.bio size write)) x = origin (l.flatMap (Plan.direct size write)) x

theorem shaped_build : Shaped write pos lens (build write pos lens place) :=
  ⟨rfl, rfl, rfl, buildBios_lens, buildBios_rw, buildBios_contiguous⟩

theorem disjointBuffers_build (hdisj : (plans place 0 pos lens).Pairwise Plan.Disjoint) :
    DisjointBuffers (build write pos lens place) := by
  rw [DisjointBuffers, segments, build, ← plans_segments, List.pairwise_map]
  exact hdisj

theorem eq_buildSegs {segs : List bio_vec} (hlens : segs.map bio_vec.bv_len = ls.map (512 * ·))
    (hplace : ∀ j < segs.length, place (k + j) = (segs.map bio_vec.addr).getD j 0) :
    segs = buildSegs place k ls := by
  induction ls generalizing k segs with
  | nil => simpa [buildSegs] using hlens
  | cons l ls ih =>
    obtain _ | ⟨v, vs⟩ := segs
    · cases hlens
    · obtain ⟨hv, hvs⟩ := List.cons.inj hlens
      have haddr : place k = v.addr := hplace 0 (by simp)
      rw [buildSegs, haddr, ← ih hvs]
      · exact congrArg (fun n => (⟨v.addr, n⟩ : bio_vec) :: vs) hv
      · intro j hj
        rw [Nat.add_assoc, Nat.add_comm 1 j]
        exact hplace (j + 1) (by simpa using hj)

theorem eq_buildBios {bios : List bio} (hrw : ∀ b ∈ bios, b.bi_rw = write) (hcont : Contiguous pos bios)
    (hlens : bios.map (fun b => b.bi_io_vec.map bio_vec.bv_len) = lens.map (List.map (512 * ·)))
    (hplace : ∀ j < (bios.flatMap bio.bi_io_vec).length,
      place (k + j) = ((bios.flatMap bio.bi_io_vec).map bio_vec.addr).getD j 0) :
    bios = buildBios write place k pos lens := by
  induction lens generalizing k pos bios with
  | nil => simpa [buildBios] using hlens
  | cons ls lens ih =>
    obtain _ | ⟨b, bs⟩ := bios
    · cases hlens
    · obtain ⟨hb, hbs⟩ := List.cons.inj hlens
      obtain ⟨hsector, hcont⟩ := hcont
      have hlength : b.bi_io_vec.length = ls.length := by
        simpa using congrArg List.length hb
      rw [List.flatMap_cons, List.map_append, List.length_append] at hplace
      have hsegs : b.bi_io_vec = buildSegs place k ls := by
        apply eq_buildSegs hb
        intro j hj
        rw [hplace j (by omega), List.getD_append _ _ _ _ (by simpa using hj)]
      have hbio : b = ⟨pos, write, buildSegs place k ls⟩ := by
        rw [← hsegs, ← hsector, ← hrw b List.mem_cons_self]
      have hsize : bi_size b / 512 = ls.sum := by
        rw [hbio, bi_size_build]
      rw [hsize] at hcont
      rw [buildBios, ← hbio, ← ih (fun c hc => hrw c (List.mem_cons_of_mem _ hc)) hcont hbs]
      intro j hj
      rw [Nat.add_assoc, ← hlength, hplace _ (by omega),
        List.getD_append_right _ _ _ _ (by simp), List.length_map, Nat.add_sub_cancel_left]

/-- Every request of a shape is built from the places of its segments. -/
theorem bios_eq_build {req : request} (hshape : Shaped write pos lens req) :
    req.bios = (build write pos lens fun j => ((segments req).map bio_vec.addr).getD j 0).bios :=
  eq_buildBios hshape.rw hshape.contiguous hshape.lens_eq fun j _ => by rw [Nat.zero_add]; rfl

theorem build_agree_iff {tfm : crypto_cipher} (hinv : tfm.Inverse) (hsize : size < 2 ^ 31) {req : request}
    (hshape : Shaped write pos lens req) (hreq : req.bios = (build write pos lens place).bios) :
    (∀ m : Machine, m.dev.size = size → ModesAgree tfm m req) ↔
      PlansAgree size write (plans place 0 pos lens) := by
  have hrw : ∀ b ∈ req.bios, b.bi_rw = req.write := by
    intro b hb
    rw [hshape.rw b hb, hshape.write_eq]
  have hsegs : segments req = (plans place 0 pos lens).map fun p => ⟨p.addr, 512 * p.len⟩ := by
    rw [segments, hreq, build, plans_segments]
  have hbio : (plans place 0 pos lens).flatMap (Plan.bio size write) = requestMoves size write req.bios := by
    rw [hreq]
    exact plans_bio
  have hdirect : (plans place 0 pos lens).flatMap (Plan.direct size write) =
      directMoves size write pos (segments req) := by
    rw [segments, hreq]
    exact plans_direct
  rw [modesAgree_iff_origin hinv hsize hshape.fs hrw, PlansAgree, hbio, hdirect, hshape.write_eq, hshape.pos_eq]
  simp [Compared, hsegs, hshape.write_eq]

/-- The modes agree about all requests of a shape if they do about its plans, wherever
    the buffers are. -/
theorem agree_of_plansAgree {tfm : crypto_cipher} (hinv : tfm.Inverse) (hsize : size < 2 ^ 31)
    (h : ∀ place, PlansAgree size write (plans place 0 pos lens)) {req : request}
    (hshape : Shaped write pos lens req) {m : Machine} (hm : m.dev.size = size) : ModesAgree tfm m req :=
  (build_agree_iff hinv hsize hshape (bios_eq_build hshape)).mpr (h _) m hm

/-- If the modes agree about the requests of a shape whose buffers do not overlap, they
    agree about its plans for all such places. -/
theorem plansAgree_of_agree {tfm : crypto_cipher} (hinv : tfm.Inverse) (hsize : size < 2 ^ 31)
    (h : ∀ req, Shaped write pos lens req → DisjointBuffers req →
      ∀ m : Machine, m.dev.size = size → ModesAgree tfm m req)
    (place : Nat → Nat) (hdisj : (plans place 0 pos lens).Pairwise Plan.Disjoint) :
    PlansAgree size write (plans place 0 pos lens) :=
  (build_agree_iff hinv hsize shaped_build rfl).mp (h _ shaped_build (disjointBuffers_build hdisj))

end Agree

end cs444.osurd
