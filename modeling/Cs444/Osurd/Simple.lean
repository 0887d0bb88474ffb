import Cs444.Osurd.Transfer

open blockwise

namespace cs444.osurd

variable {tfm : crypto_cipher} {m : Machine}

/-- The segments of a request that are left. -/
def segments (req : request) : List bio_vec :=
  req.bios.flatMap bio.bi_io_vec

/-- Transferring a list of segments one after another, each at its own length. -/
def transfer_segments (tfm : crypto_cipher) (write : Bool) : Machine → Nat → List bio_vec → Machine
  | m, _, [] => m
  | m, pos, v :: vs =>
    let nsect := v.bv_len / KERNEL_SECTOR_SIZE
    transfer_segments tfm write (osurd_transfer tfm m pos nsect v.addr write) (pos + nsect) vs

section Loop

/-- The iterations of the request loop spent on a request. -/
def iterations (bios : List bio) : Nat :=
  (bios.map fun b => max 1 b.bi_io_vec.length).sum

/-- Ending the current segment leaves the other segments, to be transferred from where
    the current one ended. -/
theorem blk_end_request_cur_some {req req' : request} (h : blk_end_request_cur req = some req')
    (tfm : crypto_cipher) (m : Machine) :
    req'.id = req.id ∧ req'.cmd_type = req.cmd_type ∧ req'.write = req.write ∧ req'.bios ≠ [] ∧
      iterations req.bios = iterations req'.bios + 1 ∧
      transfer_segments tfm req.write m req.pos (segments req) =
        transfer_segments tfm req.write
          (osurd_transfer tfm m req.pos (blk_rq_cur_sectors req) (buffer req) req.write)
          req'.pos (segments req') := by
  obtain ⟨id, cmd_type, write, pos, bios⟩ := req
  match bios with
  | [] => simp [blk_end_request_cur] at h
  | ⟨sec, rw, v :: v' :: vs⟩ :: bs =>
    obtain rfl := by simpa [blk_end_request_cur] using h
    refine ⟨rfl, rfl, rfl, by simp, ?_, ?_⟩
    · simp [iterations]
      omega
    · simp [segments, transfer_segments, blk_rq_cur_sectors, bio_cur_bytes, buffer]
  | ⟨sec, rw, [v]⟩ :: bs =>
    obtain ⟨hne, rfl⟩ := by simpa [blk_end_request_cur] using h
    refine ⟨rfl, rfl, rfl, hne, ?_, ?_⟩
    · simp [iterations]
      omega
    · simp [segments, transfer_segments, blk_rq_cur_sectors, bio_cur_bytes, buffer]
  | ⟨sec, rw, []⟩ :: bs =>
    obtain ⟨hne, rfl⟩ := by simpa [blk_end_request_cur] using h
    refine ⟨rfl, rfl, rfl, hne, ?_, ?_⟩
    · simp [iterations]
      omega
    · simp [segments, blk_rq_cur_sectors, bio_cur_bytes, bi_size]

theorem blk_end_request_cur_none {req : request} (h : blk_end_request_cur req = none)
    (tfm : crypto_cipher) (m : Machine) :
    iterations req.bios ≤ 1 ∧
      transfer_segments tfm req.write m req.pos (segments req) =
        osurd_transfer tfm m req.pos (blk_rq_cur_sectors req) (buffer req) req.write := by
  obtain ⟨id, cmd_type, write, pos, bios⟩ := req
  match bios with
  | [] => exact ⟨by simp [iterations], by simp [segments, transfer_segments, blk_rq_cur_sectors]⟩
  | ⟨sec, rw, v :: v' :: vs⟩ :: bs => simp [blk_end_request_cur] at h
  | ⟨sec, rw, [v]⟩ :: bs =>
    obtain rfl : bs = [] := by simpa [blk_end_request_cur] using h
    simp [iterations, segments, transfer_segments, blk_rq_cur_sectors, bio_cur_bytes, buffer]
  | ⟨sec, rw, []⟩ :: bs =>
    obtain rfl : bs = [] := by simpa [blk_end_request_cur] using h
    simp [iterations, segments, transfer_segments, blk_rq_cur_sectors, bio_cur_bytes, bi_size]

theorem iterations_pos {bios : List bio} (hne : bios ≠ []) : 0 < iterations bios := by
  cases bios with
  | nil => exact absurd rfl hne
  | cons b bs =>
    simp only [iterations, List.map_cons, List.sum_cons]
    omega

/-- What the request loop does with one file system request. -/
def serve (tfm : crypto_cipher) (m : Machine) (req : request) : Machine :=
  let m := transfer_segments tfm req.write m req.pos (segments req)
  { m with completed := m.completed ++ [(req.id, 0)] }

/-- The request loop gets through a file system request and fetches the next one. -/
theorem osurd_request_loop_fs {req : request} (hfs : req.cmd_type = .fs) (fuel : Nat) (queue : List request)
    (m : Machine) :
    osurd_request_loop tfm (fuel + max 1 (iterations req.bios)) (some req) queue m =
      osurd_request_loop tfm fuel queue.head? queue.tail (serve tfm m req) := by
  generalize hn : iterations req.bios = n
  induction n generalizing req m with
  | zero =>
    cases hend : blk_end_request_cur req with
    | some req' =>
      obtain ⟨-, -, -, -, hiter, -⟩ := blk_end_request_cur_some hend tfm m
      omega
    | none =>
      obtain ⟨-, htransfer⟩ := blk_end_request_cur_none hend tfm m
      simp only [Nat.max_zero, osurd_request_loop, hfs, hend, serve, htransfer]
      rfl
  | succ n ih =>
    cases hend : blk_end_request_cur req with
    | some req' =>
      obtain ⟨hid, htype, hwrite, hne, hiter, htransfer⟩ := blk_end_request_cur_some hend tfm m
      have hpos := iterations_pos hne
      have hrest := ih (htype.trans hfs)
        (osurd_transfer tfm m req.pos (blk_rq_cur_sectors req) (buffer req) req.write) (by omega)
      rw [Nat.max_eq_right (by omega)] at hrest
      rw [Nat.max_eq_right (by omega), ← Nat.add_assoc, osurd_request_loop, if_neg (by simp [hfs])]
      simp only [hend]
      rw [hrest, serve, serve, hwrite, hid, ← htransfer]
    | none =>
      obtain ⟨hiter, htransfer⟩ := blk_end_request_cur_none hend tfm m
      obtain rfl : n = 0 := by omega
      simp only [Nat.zero_add, Nat.max_self, osurd_request_loop, hfs, hend, serve, htransfer]
      rfl

/-- The iterations of the request loop spent on a queue. -/
def queueIterations (queue : List request) : Nat :=
  (queue.map fun req => max 1 (iterations req.bios)).sum

/-- `osurd_request` serves a queue of file system requests in order and returns. -/
theorem osurd_request_fs {queue : List request} (hfs : ∀ req ∈ queue, req.cmd_type = .fs) {fuel : Nat}
    (hfuel : queueIterations queue ≤ fuel) (tfm : crypto_cipher) (m : Machine) :
    osurd_request tfm fuel queue m = .ok (queue.foldl (serve tfm) m) := by
  induction queue generalizing fuel m with
  | nil => cases fuel <;> rfl
  | cons req queue ih =>
    obtain ⟨rest, rfl⟩ := Nat.exists_eq_add_of_le hfuel
    have hsplit : queueIterations (req :: queue) + rest =
        (queueIterations queue + rest) + max 1 (iterations req.bios) := by
      simp only [queueIterations, List.map_cons, List.sum_cons]
      omega
    rw [hsplit, osurd_request, List.head?_cons, List.tail_cons,
      osurd_request_loop_fs (hfs req List.mem_cons_self)]
    exact ih (fun r hr => hfs r (List.mem_cons_of_mem _ hr)) (Nat.le_add_right _ _) _

end Loop

section Plain

abbrev Sector := Fin 512 → UInt8

/-- One sector of a device as plain text. -/
def sectorAt (tfm : crypto_cipher) (dev : osurd_dev) (k : Nat) : Sector :=
  fun j => plain tfm dev (512 * k + j)

/-- A plain array of sectors, and memory. -/
structure PlainDisk where
  disk : Nat → Sector
  mem : Mem

/-- Store a list of sectors from sector `pos` on. -/
def array_write (disk : Nat → Sector) (pos : Nat) (l : List Sector) : Nat → Sector :=
  fun k => if pos ≤ k then l[k - pos]?.getD (disk k) else disk k

/-- The sectors the segments of a request hold in memory, in order. -/
def gather (mem : Mem) (segs : List bio_vec) : List Sector :=
  segs.flatMap fun v => (List.range (v.bv_len / 512)).map fun k j => mem (v.addr + 512 * k + j)

/-- Put the sectors from `pos` on into the segments, in order. -/
def scatter (disk : Nat → Sector) : Mem → Nat → List bio_vec → Mem
  | mem, _, [] => mem
  | mem, pos, v :: vs =>
    scatter disk
      (fun x => if v.addr ≤ x ∧ x < v.addr + 512 * (v.bv_len / 512) then
        disk (pos + (x - v.addr) / 512) ⟨(x - v.addr) % 512, Nat.mod_lt _ (by decide)⟩ else mem x)
      (pos + v.bv_len / 512) vs

/-- A request on the plain array. -/
def PlainDisk.request (p : PlainDisk) (req : request) : PlainDisk :=
  if req.write then { p with disk := array_write p.disk req.pos (gather p.mem (segments req)) }
  else { p with mem := scatter p.disk p.mem req.pos (segments req) }

theorem array_write_append (disk : Nat → Sector) (pos : Nat) (l₁ l₂ : List Sector) :
    array_write disk pos (l₁ ++ l₂) = array_write (array_write disk pos l₁) (pos + l₁.length) l₂ := by
  funext k
  simp only [array_write]
  by_cases hpos : pos ≤ k
  · by_cases hlen : pos + l₁.length ≤ k
    · rw [if_pos hpos, if_pos hlen, if_pos hpos, List.getElem?_append_right (by omega),
        List.getElem?_eq_none (by omega : l₁.length ≤ k - pos), Nat.sub_sub]
      rfl
    · rw [if_pos hpos, if_neg hlen, if_pos hpos, List.getElem?_append_left (by omega)]
  · rw [if_neg hpos, if_neg (by omega), if_neg hpos]

/-- Inside the device, a write copies from memory into the plain text. -/
theorem plain_osurd_transfer_inside (hinv : tfm.Inverse) {pos nsect buffer : Nat}
    (hin : 512 * (pos + nsect) ≤ m.dev.size) :
    plain tfm (osurd_transfer tfm m pos nsect buffer true).dev =
      copy m.mem (plain tfm m.dev) buffer (512 * pos) (512 * nsect) := by
  rw [plain_osurd_transfer hinv, transferMoves_inside m.dev.size_lt hin]
  rfl

/-- Inside the device, a read copies from the plain text into memory. -/
theorem mem_osurd_transfer_inside {pos nsect buffer : Nat} (hin : 512 * (pos + nsect) ≤ m.dev.size) :
    (osurd_transfer tfm m pos nsect buffer false).mem =
      copy (plain tfm m.dev) m.mem (512 * pos) buffer (512 * nsect) := by
  rw [mem_osurd_transfer, transferMoves_inside m.dev.size_lt hin]
  rfl

/-- A copy of whole sectors, sector by sector. -/
theorem copy_eq_array_write (src dst : Mem) (s pos n : Nat) :
    (fun (k : Nat) (j : Fin 512) => copy src dst s (512 * pos) (512 * n) (512 * k + j)) =
      array_write (fun k j => dst (512 * k + j)) pos
        ((List.range n).map fun k (j : Fin 512) => src (s + 512 * k + j)) := by
  funext k j
  have hj := j.isLt
  rw [array_write]
  by_cases hk : pos ≤ k ∧ k < pos + n
  · rw [if_pos hk.1, copy_of_mem (by omega), List.getElem?_map,
      List.getElem?_range (by omega)]
    simp only [Option.map_some, Option.getD_some]
    congr 1
    omega
  · rw [copy_of_not_mem (by omega)]
    split
    · rw [List.getElem?_eq_none (by simp; omega)]
      rfl
    · rfl

/-- The segments hold whole sectors and lie inside the device from sector `pos` on. -/
structure Fits (size pos : Nat) (segs : List bio_vec) : Prop where
  whole : ∀ v ∈ segs, 512 ∣ v.bv_len
  inside : 512 * pos + (segs.map bio_vec.bv_len).sum ≤ size

theorem Fits.cons {size pos : Nat} {v : bio_vec} {vs : List bio_vec} (h : Fits size pos (v :: vs)) :
    512 * (pos + v.bv_len / 512) ≤ size ∧ Fits size (pos + v.bv_len / 512) vs := by
  have hdiv : 512 * (v.bv_len / 512) = v.bv_len := Nat.mul_div_cancel' (h.whole v List.mem_cons_self)
  have hin := h.inside
  rw [List.map_cons, List.sum_cons] at hin
  refine ⟨by omega, fun u hu => h.whole u (List.mem_cons_of_mem _ hu), by omega⟩

/-- Writing one segment stores the sectors it holds. -/
theorem sectorAt_osurd_transfer_write (hinv : tfm.Inverse) {pos nsect buffer : Nat}
    (hin : 512 * (pos + nsect) ≤ m.dev.size) :
    sectorAt tfm (osurd_transfer tfm m pos nsect buffer true).dev =
      array_write (sectorAt tfm m.dev) pos
        ((List.range nsect).map fun k (j : Fin 512) => m.mem (buffer + 512 * k + j)) := by
  have hcopy := copy_eq_array_write m.mem (plain tfm m.dev) buffer pos nsect
  rw [← plain_osurd_transfer_inside hinv hin] at hcopy
  exact hcopy

theorem transfer_segments_write (hinv : tfm.Inverse) {pos : Nat} {segs : List bio_vec}
    (hfits : Fits m.dev.size pos segs) :
    sectorAt tfm (transfer_segments tfm true m pos segs).dev =
        array_write (sectorAt tfm m.dev) pos (gather m.mem segs) ∧
      (transfer_segments tfm true m pos segs).mem = m.mem := by
  induction segs generalizing m pos with
  | nil => exact ⟨by funext k; simp [transfer_segments, array_write, gather], rfl⟩
  | cons v vs ih =>
    obtain ⟨hin, hrest⟩ := hfits.cons
    have hsize := osurd_transfer_size tfm m pos (v.bv_len / 512) v.addr true
    rw [← hsize] at hrest
    obtain ⟨hdisk, hmem⟩ := ih hrest
    rw [osurd_transfer_write_mem] at hdisk hmem
    refine ⟨?_, hmem⟩
    have hgather : gather m.mem (v :: vs) = (List.range (v.bv_len / 512)).map
        (fun k (j : Fin 512) => m.mem (v.addr + 512 * k + j)) ++ gather m.mem vs := by
      simp [gather]
    rw [hgather, array_write_append, ← sectorAt_osurd_transfer_write hinv hin, List.length_map,
      List.length_range]
    exact hdisk

/-- Reading one segment fills it with the sectors of the device. -/
theorem mem_osurd_transfer_read_sectors {pos nsect buffer : Nat}
    (hin : 512 * (pos + nsect) ≤ m.dev.size) :
    (osurd_transfer tfm m pos nsect buffer false).mem =
      fun x => if buffer ≤ x ∧ x < buffer + 512 * nsect then
        sectorAt tfm m.dev (pos + (x - buffer) / 512) ⟨(x - buffer) % 512, Nat.mod_lt _ (by decide)⟩
        else m.mem x := by
  rw [mem_osurd_transfer_inside hin]
  funext x
  rw [copy]
  split
  · rw [sectorAt]
    congr 1
    dsimp only
    omega
  · rfl

theorem transfer_segments_read {pos : Nat} {segs : List bio_vec} (hfits : Fits m.dev.size pos segs) :
    (transfer_segments tfm false m pos segs).mem =
        scatter (sectorAt tfm m.dev) m.mem pos segs ∧
      (transfer_segments tfm false m pos segs).dev = m.dev := by
  induction segs generalizing m pos with
  | nil => exact ⟨rfl, rfl⟩
  | cons v vs ih =>
    obtain ⟨hin, hrest⟩ := hfits.cons
    have hdev := osurd_transfer_read_dev tfm m pos (v.bv_len / 512) v.addr
    rw [← hdev] at hrest
    obtain ⟨hmem, hdev'⟩ := ih hrest
    refine ⟨?_, hdev'.trans hdev⟩
    rw [hdev, mem_osurd_transfer_read_sectors hin] at hmem
    exact hmem

/-- The device holds the plain array in encrypted form, and memory is the same. -/
structure Refines (tfm : crypto_cipher) (m : Machine) (p : PlainDisk) : Prop where
  disk : sectorAt tfm m.dev = p.disk
  mem : m.mem = p.mem

/-- A file system request of whole sectors inside a device of the given size. -/
structure Serviceable (size : Nat) (req : request) : Prop where
  fs : req.cmd_type = .fs
  fits : Fits size req.pos (segments req)

theorem serve_size (tfm : crypto_cipher) (m : Machine) (req : request) : (serve tfm m req).dev.size = m.dev.size := by
  rw [serve]
  dsimp only
  generalize segments req = segs
  generalize req.pos = pos
  induction segs generalizing m pos with
  | nil => rfl
  | cons v vs ih =>
    rw [transfer_segments]
    exact (ih _ _).trans (osurd_transfer_size _ _ _ _ _ _)

theorem Refines.serve (hinv : tfm.Inverse) {p : PlainDisk} (h : Refines tfm m p) {req : request}
    (hreq : Serviceable m.dev.size req) : Refines tfm (osurd.serve tfm m req) (p.request req) := by
  obtain ⟨hdisk, hmem⟩ := h
  rw [osurd.serve, PlainDisk.request]
  cases hwrite : req.write with
  | true =>
    obtain ⟨hdisk', hmem'⟩ := transfer_segments_write hinv hreq.fits
    refine ⟨?_, ?_⟩
    · rw [hdisk, hmem] at hdisk'
      exact hdisk'
    · exact hmem'.trans hmem
  | false =>
    obtain ⟨hmem', hdev'⟩ := transfer_segments_read hreq.fits
    refine ⟨?_, ?_⟩
    · dsimp only
      rw [hdev']
      exact hdisk
    · rw [hdisk, hmem] at hmem'
      exact hmem'

end Plain

section Run

/-- What happens to the driver: a call of `osurd_request` with the requests queued
    then, or a change of memory by anyone else. -/
inductive Event where
  | requests (queue : List request)
  | memory (mem : Mem)

def Event.Serviceable (size : Nat) : Event → Prop
  | .requests queue => ∀ req ∈ queue, osurd.Serviceable size req
  | .memory _ => True

def run (tfm : crypto_cipher) (fuel : Nat) : Machine → List Event → Except Fault Machine
  | m, [] => .ok m
  | m, .requests queue :: es => do
    let m ← osurd_request tfm fuel queue m
    run tfm fuel m es
  | m, .memory mem :: es => run tfm fuel { m with mem } es

/-- The same events on the plain array. -/
def PlainDisk.run : PlainDisk → List Event → PlainDisk
  | p, [] => p
  | p, .requests queue :: es => (queue.foldl PlainDisk.request p).run es
  | p, .memory mem :: es => { p with mem }.run es

theorem Refines.serve_all (hinv : tfm.Inverse) {p : PlainDisk} (h : Refines tfm m p) {queue : List request}
    (hqueue : ∀ req ∈ queue, Serviceable m.dev.size req) :
    Refines tfm (queue.foldl (osurd.serve tfm) m) (queue.foldl PlainDisk.request p) ∧
      (queue.foldl (osurd.serve tfm) m).dev.size = m.dev.size := by
  induction queue generalizing m p with
  | nil => exact ⟨h, rfl⟩
  | cons req queue ih =>
    have hsize := serve_size tfm m req
    obtain ⟨hrest, hsize'⟩ := ih (h.serve hinv (hqueue req List.mem_cons_self))
      fun r hr => hsize ▸ hqueue r (List.mem_cons_of_mem _ hr)
    exact ⟨hrest, hsize'.trans hsize⟩

/-- The iterations that are enough for every call of `osurd_request`. -/
def runIterations : List Event → Nat
  | [] => 0
  | .requests queue :: es => queueIterations queue + runIterations es
  | .memory _ :: es => runIterations es

theorem Refines.run (hinv : tfm.Inverse) {p : PlainDisk} (h : Refines tfm m p) {es : List Event}
    (hes : ∀ e ∈ es, e.Serviceable m.dev.size) {fuel : Nat} (hfuel : runIterations es ≤ fuel) :
    ∃ m', osurd.run tfm fuel m es = .ok m' ∧ Refines tfm m' (p.run es) := by
  induction es generalizing m p with
  | nil => exact ⟨m, rfl, h⟩
  | cons e es ih =>
    cases e with
    | requests queue =>
      have hqueue : ∀ req ∈ queue, Serviceable m.dev.size req := hes _ List.mem_cons_self
      obtain ⟨hserved, hsize⟩ := h.serve_all hinv hqueue
      rw [runIterations] at hfuel
      have hrun := osurd_request_fs (fun req hreq => (hqueue req hreq).fs)
        (Nat.le_of_add_right_le hfuel) tfm m
      obtain ⟨m', hrest, href⟩ := ih hserved (fun e he => hsize ▸ hes e (List.mem_cons_of_mem _ he))
        (by omega)
      refine ⟨m', ?_, href⟩
      rw [osurd.run, hrun]
      exact hrest
    | memory mem =>
      exact ih ⟨h.disk, rfl⟩ (fun e he => hes e (List.mem_cons_of_mem _ he)) hfuel

/-- The driver in its simple mode refines a plain array of sectors. Whatever requests
    of whole sectors inside the device are queued, however they are cut into segments
    and whatever else happens to memory in between, every call of `osurd_request`
    returns, memory is what reads from the plain array make it, and every sector of
    the device decrypts to that of the array, which starts as the decryption of the
    device's initial bytes. Of the cipher only `Inverse` is assumed. -/
theorem simple_refines_plain (hinv : tfm.Inverse) (m : Machine) (es : List Event)
    (hes : ∀ e ∈ es, e.Serviceable m.dev.size) :
    ∃ bound, ∀ fuel, bound ≤ fuel → ∃ m', run tfm fuel m es = .ok m' ∧
      Refines tfm m' (PlainDisk.run ⟨sectorAt tfm m.dev, m.mem⟩ es) :=
  ⟨runIterations es, fun _ hfuel => Refines.run hinv ⟨rfl, rfl⟩ hes hfuel⟩

/-- A cipher that adds the key to a block, byte by byte. -/
def xorCipher : crypto_cipher where
  encrypt_one b j := b j ^^^ UInt8.ofNat (49 + j.val % 10)
  decrypt_one b j := b j ^^^ UInt8.ofNat (49 + j.val % 10)

theorem xorCipher_inverse : xorCipher.Inverse := by
  intro b
  funext j
  simp only [xorCipher, UInt8.xor_assoc, UInt8.xor_self, UInt8.xor_zero]

/-- A device of eight sectors, all bytes zero. -/
def eightSectors : Machine where
  dev := { size := 4096, size_lt := by decide, data := fun _ => 0 }
  mem := fun _ => 0
  completed := []

/-- A write of three sectors from two segments, then a read of the last two of them. -/
def writeThenRead : List Event :=
  [.memory fun x => UInt8.ofNat (x % 251),
   .requests [⟨1, .fs, true, 1, [⟨1, true, [⟨0, 512⟩, ⟨5000, 1024⟩]⟩]⟩],
   .requests [⟨2, .fs, false, 2, [⟨2, false, [⟨9000, 1024⟩]⟩]⟩]]

theorem simple_refines_plain_writeThenRead : xorCipher.Inverse ∧
    (∀ e ∈ writeThenRead, e.Serviceable eightSectors.dev.size) ∧
    ∃ bound, ∀ fuel, bound ≤ fuel → ∃ m', run xorCipher fuel eightSectors writeThenRead = .ok m' ∧
      Refines xorCipher m'
        (PlainDisk.run ⟨sectorAt xorCipher eightSectors.dev, eightSectors.mem⟩ writeThenRead) := by
  have hes : ∀ e ∈ writeThenRead, e.Serviceable eightSectors.dev.size := by
    simp only [writeThenRead, List.forall_mem_cons, List.not_mem_nil, false_imp_iff, implies_true, and_true,
      Event.Serviceable, true_and]
    exact ⟨⟨rfl, by decide, by decide⟩, ⟨rfl, by decide, by decide⟩⟩
  exact ⟨xorCipher_inverse, hes, simple_refines_plain xorCipher_inverse eightSectors writeThenRead hes⟩

end Run

end cs444.osurd
