import Cs444.Lib.Blockwise

namespace cs444.osurd

/-- Bytes by address: the kernel's memory, or the data of a device. -/
abbrev Mem := Nat → UInt8

def KERNEL_SECTOR_SIZE : Nat := 512

/-- `crypto_cipher_blocksize(tfm)`. -/
abbrev blocksize : Nat := 16

instance blocksize.neZero : NeZero blocksize := ⟨by decide⟩

/-- What the cipher does to one block under the key the driver sets. -/
structure crypto_cipher where
  encrypt_one : (Fin blocksize → UInt8) → Fin blocksize → UInt8
  decrypt_one : (Fin blocksize → UInt8) → Fin blocksize → UInt8

/-- The size in bytes, an `int`, and the data array of a device. -/
structure osurd_dev where
  size : Nat
  size_lt : size < 2 ^ 31
  data : Mem

/-- A segment: the address of its data in memory and its length in bytes. -/
structure bio_vec where
  addr : Nat
  bv_len : Nat
deriving DecidableEq, Repr

/-- A bio, as the sector it starts at, its direction (`true` for `WRITE`), and its
    segments from `bi_idx` on. -/
structure bio where
  bi_sector : Nat
  bi_rw : Bool
  bi_io_vec : List bio_vec
deriving DecidableEq, Repr

/-- `cmd_type`: `REQ_TYPE_FS` or any other. -/
inductive CmdType where
  | fs
  | other
deriving DecidableEq, Repr

/-- A request with what is left of it: its direction, `blk_rq_pos` and its bios. -/
structure request where
  id : Nat
  cmd_type : CmdType
  write : Bool
  pos : Nat
  bios : List bio
deriving DecidableEq, Repr

/-- The device, memory, and the requests completed so far with their error codes. -/
structure Machine where
  dev : osurd_dev
  mem : Mem
  completed : List (Nat × Int)

/-- What can keep `osurd_request` from returning. -/
inductive Fault where
  | spin
deriving DecidableEq, Repr

def EIO : Int := 5

section BlockLayer

def bi_size (b : bio) : Nat :=
  (b.bi_io_vec.map bio_vec.bv_len).sum

def bio_cur_bytes (b : bio) : Nat :=
  match b.bi_io_vec with
  | v :: _ => v.bv_len
  | [] => bi_size b

def blk_rq_cur_sectors (req : request) : Nat :=
  match req.bios with
  | b :: _ => bio_cur_bytes b / KERNEL_SECTOR_SIZE
  | [] => 0

/-- `req->buffer`: the address of the current segment. -/
def buffer (req : request) : Nat :=
  match req.bios with
  | { bi_io_vec := v :: _, .. } :: _ => v.addr
  | _ => 0

/-- `__blk_end_request_cur(req, 0)`: what is left after the current segment, `none`
    when the call completes the request and returns false. -/
def blk_end_request_cur (req : request) : Option request :=
  match req.bios with
  | [] => none
  | b :: bs =>
    let rest :=
      match b.bi_io_vec with
      | v :: v' :: vs =>
        { b with bi_sector := b.bi_sector + v.bv_len / KERNEL_SECTOR_SIZE, bi_io_vec := v' :: vs } :: bs
      | _ => bs
    if rest = [] then none
    else some { req with pos := req.pos + blk_rq_cur_sectors req, bios := rest }

end BlockLayer

section Transfer

variable (tfm : crypto_cipher)

/-- Arithmetic on a 32-bit `unsigned long`. -/
def unsigned_long (x : Nat) : Nat := x % 2 ^ 32

/-- `osurd_transfer`. The loops run over whole cipher blocks, one past the end of a
    last partial block if there is one. -/
def osurd_transfer (m : Machine) (sector nsect buffer : Nat) (write : Bool) : Machine :=
  let offset := unsigned_long (unsigned_long sector * KERNEL_SECTOR_SIZE)
  let nbytes := unsigned_long (unsigned_long nsect * KERNEL_SECTOR_SIZE)
  let blocks := (nbytes + blocksize - 1) / blocksize
  if unsigned_long (offset + nbytes) > m.dev.size then m
  else if write then
    { m with dev.data := blockwise.mapBlocks tfm.encrypt_one m.mem m.dev.data buffer offset blocks }
  else
    { m with mem := blockwise.mapBlocks tfm.decrypt_one m.dev.data m.mem offset buffer blocks }

/-- The loop of `osurd_request`, with `req` the request at hand and `queue` the ones
    `blk_fetch_request` has not returned yet. A request that is not a file system
    request is completed, and tested again. -/
def osurd_request_loop : Nat → Option request → List request → Machine → Except Fault Machine
  | _, none, _, m => .ok m
  | 0, some _, _, _ => .error .spin
  | fuel + 1, some req, queue, m =>
    if req.cmd_type ≠ .fs then
      osurd_request_loop fuel (some req) queue { m with completed := m.completed ++ [(req.id, - EIO)] }
    else
      let m := osurd_transfer tfm m req.pos (blk_rq_cur_sectors req) (buffer req) req.write
      match blk_end_request_cur req with
      | some req => osurd_request_loop fuel (some req) queue m
      | none =>
        osurd_request_loop fuel queue.head? queue.tail { m with completed := m.completed ++ [(req.id, 0)] }

def osurd_request (fuel : Nat) (queue : List request) (m : Machine) : Except Fault Machine :=
  osurd_request_loop tfm fuel queue.head? queue.tail m

/-- The loop of `osurd_xfer_bio`. Every segment is transferred with the length
    `bio_cur_bytes` reads, which is that of the first one. -/
def xfer_segments (nsect : Nat) (write : Bool) : Machine → Nat → List bio_vec → Machine
  | m, _, [] => m
  | m, sector, v :: vs =>
    xfer_segments nsect write (osurd_transfer tfm m sector nsect v.addr write) (sector + nsect) vs

def osurd_xfer_bio (m : Machine) (b : bio) : Machine :=
  xfer_segments tfm (bio_cur_bytes b / KERNEL_SECTOR_SIZE) b.bi_rw m b.bi_sector b.bi_io_vec

/-- `osurd_xfer_request`, with the number of sectors it returns. -/
def osurd_xfer_request (m : Machine) (req : request) : Machine × Nat :=
  req.bios.foldl (fun r b => (osurd_xfer_bio tfm r.1 b, r.2 + bi_size b / KERNEL_SECTOR_SIZE)) (m, 0)

/-- `osurd_make_request`; the status is always 0. -/
def osurd_make_request (m : Machine) (b : bio) : Machine :=
  osurd_xfer_bio tfm m b

end Transfer

end cs444.osurd
