import Cs444.Osurd.Driver

open blockwise

namespace cs444.osurd

variable {tfm : crypto_cipher} {m : Machine}

/-- Decryption undoes encryption under the fixed key. -/
def crypto_cipher.Inverse (tfm : crypto_cipher) : Prop :=
  ∀ b, tfm.decrypt_one (tfm.encrypt_one b) = b

/-- The bytes of a device as plain text. -/
def plain (tfm : crypto_cipher) (dev : osurd_dev) : Mem :=
  view tfm.decrypt_one dev.data

/-- What a transfer copies: between memory and plain text, unless it is refused. -/
def transferMoves (size sector nsect buffer : Nat) (write : Bool) : List Move :=
  let offset := unsigned_long (unsigned_long sector * KERNEL_SECTOR_SIZE)
  let nbytes := unsigned_long (unsigned_long nsect * KERNEL_SECTOR_SIZE)
  if unsigned_long (offset + nbytes) > size then []
  else if write then [⟨buffer, offset, nbytes⟩]
  else [⟨offset, buffer, nbytes⟩]

theorem dvd_unsigned_long (x : Nat) : blocksize ∣ unsigned_long (x * KERNEL_SECTOR_SIZE) := by
  simp only [unsigned_long, KERNEL_SECTOR_SIZE, blocksize]
  omega

theorem blocks_eq (x : Nat) :
    blocksize * ((unsigned_long (x * KERNEL_SECTOR_SIZE) + blocksize - 1) / blocksize) =
      unsigned_long (x * KERNEL_SECTOR_SIZE) := by
  obtain ⟨k, hk⟩ := dvd_unsigned_long x
  rw [hk]
  simp only [blocksize]
  omega

/-- A write copies from memory into the plain text. -/
theorem plain_osurd_transfer (hinv : tfm.Inverse) (sector nsect buffer : Nat) :
    plain tfm (osurd_transfer tfm m sector nsect buffer true).dev =
      moves m.mem (plain tfm m.dev) (transferMoves m.dev.size sector nsect buffer true) := by
  simp only [osurd_transfer, transferMoves]
  split
  · rfl
  · rw [if_pos trivial, if_pos trivial, plain, view_mapBlocks hinv _ _ (dvd_unsigned_long _), blocks_eq]
    rfl

/-- A read copies from the plain text into memory. -/
theorem mem_osurd_transfer (sector nsect buffer : Nat) :
    (osurd_transfer tfm m sector nsect buffer false).mem =
      moves (plain tfm m.dev) m.mem (transferMoves m.dev.size sector nsect buffer false) := by
  simp only [osurd_transfer, transferMoves]
  split
  · rfl
  · rw [if_neg (by decide), if_neg (by decide), mapBlocks_eq_copy _ _ (dvd_unsigned_long _), blocks_eq]
    rfl

/-- A transfer of no sectors does nothing. -/
@[simp] theorem osurd_transfer_zero (m : Machine) (sector buffer : Nat) (write : Bool) :
    osurd_transfer tfm m sector 0 buffer write = m := by
  have hblocks : (0 + 16 - 1) / 16 = 0 := rfl
  simp only [osurd_transfer, unsigned_long, Nat.zero_mod, Nat.zero_mul, hblocks, mapBlocks]
  split
  · rfl
  · split <;> rfl

theorem osurd_transfer_write_mem (tfm : crypto_cipher) (m : Machine) (pos nsect buffer : Nat) :
    (osurd_transfer tfm m pos nsect buffer true).mem = m.mem := by
  simp only [osurd_transfer]
  split <;> rfl

theorem osurd_transfer_read_dev (tfm : crypto_cipher) (m : Machine) (pos nsect buffer : Nat) :
    (osurd_transfer tfm m pos nsect buffer false).dev = m.dev := by
  simp only [osurd_transfer]
  split <;> rfl

theorem osurd_transfer_size (tfm : crypto_cipher) (m : Machine) (pos nsect buffer : Nat) (write : Bool) :
    (osurd_transfer tfm m pos nsect buffer write).dev.size = m.dev.size := by
  simp only [osurd_transfer]
  split
  · rfl
  · split <;> rfl

section Inside

variable {size pos nsect buffer : Nat}

/-- Inside the device the arithmetic does not wrap and no transfer is refused. -/
theorem transferMoves_inside (hsize : size < 2 ^ 31) (hin : 512 * (pos + nsect) ≤ size) (write : Bool) :
    transferMoves size pos nsect buffer write =
      [if write then ⟨buffer, 512 * pos, 512 * nsect⟩ else ⟨512 * pos, buffer, 512 * nsect⟩] := by
  have hoffset : unsigned_long (unsigned_long pos * KERNEL_SECTOR_SIZE) = 512 * pos := by
    simp only [unsigned_long, KERNEL_SECTOR_SIZE]
    omega
  have hnbytes : unsigned_long (unsigned_long nsect * KERNEL_SECTOR_SIZE) = 512 * nsect := by
    simp only [unsigned_long, KERNEL_SECTOR_SIZE]
    omega
  have hcheck : ¬ unsigned_long (512 * pos + 512 * nsect) > size := by
    simp only [unsigned_long]
    omega
  simp only [transferMoves, hoffset, hnbytes, if_neg hcheck]
  cases write <;> rfl

end Inside

end cs444.osurd
