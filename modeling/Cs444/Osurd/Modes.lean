import Mathlib.Data.Fintype.EquivFin
import Mathlib.Data.Fintype.Pi
import Mathlib.Data.Finite.Prod
import Cs444.Osurd.Simple

open blockwise

namespace cs444.osurd

variable {tfm : crypto_cipher} {write : Bool} {m m₁ m₂ : Machine}

section Applied

/-- The moves lead from one machine to another: for a write from memory into the plain
    text of the device, for a read from there into memory. -/
structure Applied (tfm : crypto_cipher) (write : Bool) (m m' : Machine) (l : List Move) : Prop where
  size : m'.dev.size = m.dev.size
  plain : plain tfm m'.dev = if write then moves m.mem (plain tfm m.dev) l else plain tfm m.dev
  mem : m'.mem = if write then m.mem else moves (osurd.plain tfm m.dev) m.mem l

theorem Applied.refl (tfm : crypto_cipher) (write : Bool) (m : Machine) : Applied tfm write m m [] := by
  constructor <;> simp [moves]

theorem Applied.trans {l₁ l₂ : List Move} (h₁ : Applied tfm write m m₁ l₁) (h₂ : Applied tfm write m₁ m₂ l₂) :
    Applied tfm write m m₂ (l₁ ++ l₂) := by
  refine ⟨h₂.size.trans h₁.size, ?_, ?_⟩
  · rw [h₂.plain, h₁.plain, h₁.mem, moves_append]
    cases write <;> rfl
  · rw [h₂.mem, h₁.mem, h₁.plain, moves_append]
    cases write <;> rfl

theorem Applied.transfer (hinv : tfm.Inverse) (write : Bool) (m : Machine) (sector nsect buffer : Nat) :
    Applied tfm write m (osurd_transfer tfm m sector nsect buffer write)
      (transferMoves m.dev.size sector nsect buffer write) := by
  cases write with
  | true =>
    exact ⟨osurd_transfer_size _ _ _ _ _ _, plain_osurd_transfer hinv _ _ _, osurd_transfer_write_mem _ _ _ _ _⟩
  | false =>
    refine ⟨osurd_transfer_size _ _ _ _ _ _, ?_, mem_osurd_transfer _ _ _⟩
    rw [osurd_transfer_read_dev]
    rfl

/-- The moves of a segment by segment transfer. -/
def directMoves (size : Nat) (write : Bool) : Nat → List bio_vec → List Move
  | _, [] => []
  | pos, v :: vs =>
    transferMoves size pos (v.bv_len / 512) v.addr write ++ directMoves size write (pos + v.bv_len / 512) vs

/-- The moves of `osurd_xfer_bio`. -/
def bioMoves (size : Nat) (write : Bool) (nsect : Nat) : Nat → List bio_vec → List Move
  | _, [] => []
  | sector, v :: vs =>
    transferMoves size sector nsect v.addr write ++ bioMoves size write nsect (sector + nsect) vs

theorem Applied.transfer_segments (hinv : tfm.Inverse) (write : Bool) (m : Machine) (pos : Nat)
    (segs : List bio_vec) :
    Applied tfm write m (osurd.transfer_segments tfm write m pos segs)
      (directMoves m.dev.size write pos segs) := by
  induction segs generalizing m pos with
  | nil => exact .refl tfm write m
  | cons v vs ih =>
    have hfirst := Applied.transfer hinv write m pos (v.bv_len / 512) v.addr
    have hrest := ih (osurd_transfer tfm m pos (v.bv_len / 512) v.addr write) (pos + v.bv_len / 512)
    rw [hfirst.size] at hrest
    exact hfirst.trans hrest

theorem Applied.xfer_segments (hinv : tfm.Inverse) (write : Bool) (m : Machine) (nsect sector : Nat)
    (segs : List bio_vec) :
    Applied tfm write m (osurd.xfer_segments tfm nsect write m sector segs)
      (bioMoves m.dev.size write nsect sector segs) := by
  induction segs generalizing m sector with
  | nil => exact .refl tfm write m
  | cons v vs ih =>
    have hfirst := Applied.transfer hinv write m sector nsect v.addr
    have hrest := ih (osurd_transfer tfm m sector nsect v.addr write) (sector + nsect)
    rw [hfirst.size] at hrest
    exact hfirst.trans hrest

/-- The moves of `osurd_xfer_bio` on each of a list of bios. -/
def requestMoves (size : Nat) (write : Bool) (bios : List bio) : List Move :=
  bios.flatMap fun b => bioMoves size write (bio_cur_bytes b / 512) b.bi_sector b.bi_io_vec

theorem requestMoves_cons (size : Nat) (write : Bool) (b : bio) (bs : List bio) :
    requestMoves size write (b :: bs) =
      bioMoves size write (bio_cur_bytes b / 512) b.bi_sector b.bi_io_vec ++ requestMoves size write bs := rfl

theorem Applied.xfer_bios (hinv : tfm.Inverse) (m : Machine) {bios : List bio}
    (hrw : ∀ b ∈ bios, b.bi_rw = write) :
    Applied tfm write m (bios.foldl (osurd_xfer_bio tfm) m) (requestMoves m.dev.size write bios) := by
  induction bios generalizing m with
  | nil => exact .refl tfm write m
  | cons b bs ih =>
    have hfirst := Applied.xfer_segments hinv write m (bio_cur_bytes b / 512) b.bi_sector b.bi_io_vec
    have hbio : osurd_xfer_bio tfm m b =
        osurd.xfer_segments tfm (bio_cur_bytes b / 512) write m b.bi_sector b.bi_io_vec := by
      rw [osurd_xfer_bio, hrw b List.mem_cons_self]
      rfl
    rw [← hbio] at hfirst
    have hrest := ih (osurd_xfer_bio tfm m b) fun c hc => hrw c (List.mem_cons_of_mem _ hc)
    rw [hfirst.size] at hrest
    exact hfirst.trans hrest

theorem osurd_xfer_request_fst (tfm : crypto_cipher) (m : Machine) (req : request) :
    (osurd_xfer_request tfm m req).1 = req.bios.foldl (osurd_xfer_bio tfm) m := by
  rw [osurd_xfer_request]
  generalize 0 = n
  induction req.bios generalizing m n with
  | nil => rfl
  | cons b bs ih => exact ih _ _

end Applied

section Cipher

/-- On blocks, of which there are finitely many, encryption undoes decryption too. -/
theorem crypto_cipher.Inverse.encrypt_decrypt (hinv : tfm.Inverse) (b : Fin blocksize → UInt8) :
    tfm.encrypt_one (tfm.decrypt_one b) = b := by
  have hfin : Finite UInt8 := Finite.of_injective UInt8.toFin fun _ _ h => UInt8.toFin_inj.mp h
  have hinj : Function.Injective tfm.encrypt_one := Function.LeftInverse.injective hinv
  obtain ⟨c, rfl⟩ := Finite.surjective_of_injective hinj b
  rw [hinv]

theorem plain_injective (hinv : tfm.Inverse) {dev dev' : osurd_dev} :
    plain tfm dev = plain tfm dev' ↔ dev.data = dev'.data := by
  constructor
  · intro h
    rw [← view_view hinv.encrypt_decrypt dev.data, ← view_view hinv.encrypt_decrypt dev'.data]
    exact congrArg (view tfm.encrypt_one) h
  · intro h
    rw [plain, plain, h]

/-- A machine with a device of the given size and the given plain text. -/
def machine (tfm : crypto_cipher) (size : Nat) (hsize : size < 2 ^ 31) (text mem : Mem) : Machine where
  dev := { size, size_lt := hsize, data := view tfm.encrypt_one text }
  mem := mem
  completed := []

theorem plain_machine (hinv : tfm.Inverse) {size : Nat} (hsize : size < 2 ^ 31) (text mem : Mem) :
    plain tfm (machine tfm size hsize text mem).dev = text :=
  view_view hinv text

end Cipher

section Agree

/-- The bytes a request is about are the same in two machines: those of the device for
    a write, those of the request's buffers for a read. -/
def SameBytes (req : request) (m₁ m₂ : Machine) : Prop :=
  if req.write then m₂.dev.data = m₁.dev.data
  else ∀ v ∈ segments req, ∀ x, v.addr ≤ x → x < v.addr + v.bv_len → m₂.mem x = m₁.mem x

/-- Servicing a request bio by bio, through `osurd_xfer_request` or through
    `osurd_make_request`, has the same effect as `osurd_request` has. -/
def ModesAgree (tfm : crypto_cipher) (m : Machine) (req : request) : Prop :=
  ∃ m₁ bound, (∀ fuel, bound ≤ fuel → osurd_request tfm fuel [req] m = .ok m₁) ∧
    SameBytes req m₁ (osurd_xfer_request tfm m req).1 ∧
    SameBytes req m₁ (req.bios.foldl (osurd_make_request tfm) m)

/-- The bios of a request follow one another on the device. -/
def Contiguous : Nat → List bio → Prop
  | _, [] => True
  | pos, b :: bs => b.bi_sector = pos ∧ Contiguous (pos + bi_size b / 512) bs

/-- A file system request with the given direction, position and lengths of segments in
    sectors, bio by bio. Its buffers are anywhere in memory. -/
structure Shaped (write : Bool) (pos : Nat) (lens : List (List Nat)) (req : request) : Prop where
  fs : req.cmd_type = .fs
  write_eq : req.write = write
  pos_eq : req.pos = pos
  lens_eq : req.bios.map (fun b => b.bi_io_vec.map bio_vec.bv_len) = lens.map (List.map (512 * ·))
  rw : ∀ b ∈ req.bios, b.bi_rw = write
  contiguous : Contiguous pos req.bios

/-- No two segments of a request share memory. -/
def DisjointBuffers (req : request) : Prop :=
  (segments req).Pairwise fun u v => u.addr + u.bv_len ≤ v.addr ∨ v.addr + v.bv_len ≤ u.addr

/-- The bytes of a request that are compared. -/
def Compared (req : request) (x : Nat) : Prop :=
  req.write = true ∨ ∃ v ∈ segments req, v.addr ≤ x ∧ x < v.addr + v.bv_len

theorem Applied.sameBytes_iff (hinv : tfm.Inverse) {req : request} {l₁ l₂ : List Move}
    (h₁ : Applied tfm req.write m m₁ l₁) (h₂ : Applied tfm req.write m m₂ l₂) :
    SameBytes req m₁ m₂ ↔ ∀ x, Compared req x →
      if req.write then moves m.mem (osurd.plain tfm m.dev) l₂ x = moves m.mem (osurd.plain tfm m.dev) l₁ x
      else moves (osurd.plain tfm m.dev) m.mem l₂ x = moves (osurd.plain tfm m.dev) m.mem l₁ x := by
  have hplain₁ := h₁.plain
  have hplain₂ := h₂.plain
  have hmem₁ := h₁.mem
  have hmem₂ := h₂.mem
  rw [SameBytes]
  simp only [Compared]
  cases hwrite : req.write with
  | true =>
    simp only [hwrite, if_true] at hplain₁ hplain₂
    simp only [if_true, true_or, true_imp_iff]
    rw [← plain_injective hinv, hplain₁, hplain₂, funext_iff]
  | false =>
    simp only [hwrite, Bool.false_eq_true, if_false] at hmem₁ hmem₂
    simp only [Bool.false_eq_true, if_false, false_or, hmem₁, hmem₂]
    constructor
    · rintro h x ⟨v, hv, hx⟩
      exact h v hv x hx.1 hx.2
    · intro h v hv x hlo hhi
      exact h x ⟨v, hv, hlo, hhi⟩

theorem Applied.serve (hinv : tfm.Inverse) (m : Machine) (req : request) :
    Applied tfm req.write m (osurd.serve tfm m req)
      (directMoves m.dev.size req.write req.pos (segments req)) := by
  obtain ⟨hsize, hplain, hmem⟩ := Applied.transfer_segments hinv req.write m req.pos (segments req)
  exact ⟨hsize, hplain, hmem⟩

/-- The outcome of `osurd_request` is the one of its transfers. -/
theorem modesAgree_iff_sameBytes (m : Machine) {req : request} (hfs : req.cmd_type = .fs) :
    ModesAgree tfm m req ↔ SameBytes req (serve tfm m req) (req.bios.foldl (osurd_xfer_bio tfm) m) := by
  have hserve : ∀ fuel, queueIterations [req] ≤ fuel → osurd_request tfm fuel [req] m = .ok (serve tfm m req) :=
    fun fuel hfuel => osurd_request_fs (by simpa using hfs) hfuel tfm m
  constructor
  · rintro ⟨m₁, bound, hrun, hsame, -⟩
    have h₁ := hrun (max bound (queueIterations [req])) (Nat.le_max_left _ _)
    rw [hserve _ (Nat.le_max_right _ _)] at h₁
    rw [osurd_xfer_request_fst, ← Except.ok.inj h₁] at hsame
    exact hsame
  · intro hsame
    refine ⟨_, _, hserve, ?_, hsame⟩
    rw [osurd_xfer_request_fst]
    exact hsame

/-- On all devices of a size and all memories, the modes agree about a request exactly
    if every byte compared has the same origin in both. -/
theorem modesAgree_iff_origin (hinv : tfm.Inverse) {size : Nat} (hsize : size < 2 ^ 31) {req : request}
    (hfs : req.cmd_type = .fs) (hrw : ∀ b ∈ req.bios, b.bi_rw = req.write) :
    (∀ m : Machine, m.dev.size = size → ModesAgree tfm m req) ↔ ∀ x, Compared req x →
      origin (requestMoves size req.write req.bios) x =
        origin (directMoves size req.write req.pos (segments req)) x := by
  have hnontrivial : Nontrivial UInt8 := ⟨0, 1, by decide⟩
  have hagree : ∀ m : Machine, m.dev.size = size → (ModesAgree tfm m req ↔ ∀ x, Compared req x →
      if req.write then
        moves m.mem (plain tfm m.dev) (requestMoves size req.write req.bios) x =
          moves m.mem (plain tfm m.dev) (directMoves size req.write req.pos (segments req)) x
      else
        moves (plain tfm m.dev) m.mem (requestMoves size req.write req.bios) x =
          moves (plain tfm m.dev) m.mem (directMoves size req.write req.pos (segments req)) x) := by
    rintro m rfl
    rw [modesAgree_iff_sameBytes m hfs]
    exact (Applied.serve hinv m req).sameBytes_iff hinv (Applied.xfer_bios hinv m hrw)
  constructor
  · intro h x hx
    apply (moves_eq_iff_origin (β := UInt8)).mp
    intro src mem
    cases hwrite : req.write with
    | true =>
      have hx := (hagree (machine tfm size hsize mem src) rfl).mp (h _ rfl) x hx
      simp only [hwrite, if_true, plain_machine hinv] at hx
      exact hx
    | false =>
      have hx := (hagree (machine tfm size hsize src mem) rfl).mp (h _ rfl) x hx
      simp only [hwrite, Bool.false_eq_true, if_false, plain_machine hinv] at hx
      exact hx
  · intro h m hm
    rw [hagree m hm]
    intro x hx
    simp [moves_apply, h x hx]

end Agree

end cs444.osurd
