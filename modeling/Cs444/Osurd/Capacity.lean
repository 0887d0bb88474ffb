import Cs444.Osurd.Lifetime
import Mathlib.Tactic.Ring

namespace cs444.osurd.lifetime

section Bounds

/-- The bounds check of `osurd_transfer`, with the offset and the number of bytes it goes on with. The
    size is compared as an `unsigned long`. -/
def bounds (dev : osurd_dev) (sector nsect : ulong) : Option (ulong × ulong) :=
  let offset := sector * BitVec.ofNat 32 KERNEL_SECTOR_SIZE
  let nbytes := nsect * BitVec.ofNat 32 KERNEL_SECTOR_SIZE
  if offset + nbytes > dev.size then none else some (offset, nbytes)

/-- The bytes of the array that a transfer reads or writes, in whole cipher blocks. -/
def Accesses (dev : osurd_dev) (sector nsect : ulong) (b : Nat) : Prop :=
  ∃ offset nbytes, bounds dev sector nsect = some (offset, nbytes) ∧ offset.toNat ≤ b ∧
    b < offset.toNat + blocksize * ((nbytes.toNat + blocksize - 1) / blocksize)

/-- Transfers of a device whose size is not negative are those of the driver. -/
theorem osurd_transfer_eq {dev : osurd_dev} {m : Machine} (tfm : crypto_cipher) (hsize : m.dev.size = dev.size.toNat)
    (sector nsect buffer : Nat) (write : Bool) :
    osurd_transfer tfm m sector nsect buffer write =
      match bounds dev (BitVec.ofNat 32 sector) (BitVec.ofNat 32 nsect) with
      | none => m
      | some (offset, nbytes) =>
        let blocks := (nbytes.toNat + blocksize - 1) / blocksize
        if write then
          { m with dev.data := blockwise.mapBlocks tfm.encrypt_one m.mem m.dev.data buffer offset.toNat blocks }
        else
          { m with mem := blockwise.mapBlocks tfm.decrypt_one m.dev.data m.mem offset.toNat buffer blocks } := by
  have hmul : ∀ x : Nat, (BitVec.ofNat 32 x * BitVec.ofNat 32 KERNEL_SECTOR_SIZE).toNat =
      unsigned_long (unsigned_long x * KERNEL_SECTOR_SIZE) := by
    intro x
    simp only [BitVec.toNat_mul, BitVec.toNat_ofNat, unsigned_long, KERNEL_SECTOR_SIZE]
  have hiff : BitVec.ofNat 32 sector * BitVec.ofNat 32 KERNEL_SECTOR_SIZE +
        BitVec.ofNat 32 nsect * BitVec.ofNat 32 KERNEL_SECTOR_SIZE > dev.size ↔
      unsigned_long (unsigned_long (unsigned_long sector * KERNEL_SECTOR_SIZE) +
        unsigned_long (unsigned_long nsect * KERNEL_SECTOR_SIZE)) > m.dev.size := by
    rw [gt_iff_lt, gt_iff_lt, BitVec.lt_def, BitVec.toNat_add, hmul, hmul, hsize, ← unsigned_long]
  simp only [osurd_transfer, bounds]
  by_cases hcheck : unsigned_long (unsigned_long (unsigned_long sector * KERNEL_SECTOR_SIZE) +
      unsigned_long (unsigned_long nsect * KERNEL_SECTOR_SIZE)) > m.dev.size
  · rw [if_pos hcheck, if_pos (hiff.2 hcheck)]
  · rw [if_neg hcheck, if_neg (mt hiff.1 hcheck)]
    simp only [hmul]

end Bounds

section Disk

/-- The first byte of a sector of the disk in the array. -/
def start (sector : Nat) : Nat :=
  (BitVec.ofNat 32 sector * BitVec.ofNat 32 KERNEL_SECTOR_SIZE : ulong).toNat

/-- The device holds the disk: ranges of sectors inside the disk's capacity pass the check and stay
    inside the array, and sectors do not share bytes. -/
structure Holds (dev : osurd_dev) (gd : gendisk) : Prop where
  passes : ∀ sector nsect : Nat, sector + nsect ≤ gd.capacity.toNat →
    (bounds dev (BitVec.ofNat 32 sector) (BitVec.ofNat 32 nsect)).isSome = true
  inside : ∀ sector nsect : Nat, sector + nsect ≤ gd.capacity.toNat →
    ∀ b, Accesses dev (BitVec.ofNat 32 sector) (BitVec.ofNat 32 nsect) b → b < dev.size.toNat
  apart : ∀ s t : Nat, s < gd.capacity.toNat → t < gd.capacity.toNat →
    ∀ i < KERNEL_SECTOR_SIZE, ∀ j < KERNEL_SECTOR_SIZE, start s + i = start t + j → s = t

theorem start_eq (sector : Nat) : start sector = 512 * (sector % 2 ^ 23) := by
  simp only [start, BitVec.toNat_mul, BitVec.toNat_ofNat, KERNEL_SECTOR_SIZE]
  omega

theorem bounds_eq {dev : osurd_dev} {n : Nat} (hsize : dev.size.toNat = 512 * n)
    {sector nsect : Nat} (h : sector + nsect ≤ n) :
    bounds dev (BitVec.ofNat 32 sector) (BitVec.ofNat 32 nsect) =
      some (BitVec.ofNat 32 (512 * sector), BitVec.ofNat 32 (512 * nsect)) := by
  have hmul : ∀ x : Nat, BitVec.ofNat 32 x * BitVec.ofNat 32 KERNEL_SECTOR_SIZE = BitVec.ofNat 32 (512 * x) := by
    intro x
    rw [← BitVec.ofNat_mul, KERNEL_SECTOR_SIZE, Nat.mul_comm]
  have hcheck : ¬ BitVec.ofNat 32 (512 * sector) + BitVec.ofNat 32 (512 * nsect) > dev.size := by
    rw [gt_iff_lt, BitVec.lt_def, BitVec.toNat_add, BitVec.toNat_ofNat, BitVec.toNat_ofNat, hsize]
    omega
  simp only [bounds, hmul, if_neg hcheck]

/-- A device of fewer than `2 ^ 23` sectors holds a disk of as many. -/
theorem holds_of_lt {dev : osurd_dev} {gd : gendisk} {n : Nat} (hn : n < 2 ^ 23) (hsize : dev.size.toNat = 512 * n)
    (hcapacity : gd.capacity.toNat = n) : Holds dev gd := by
  refine ⟨fun sector nsect h => ?_, fun sector nsect h b hb => ?_, fun s t hs ht i hi j hj hij => ?_⟩
  · rw [bounds_eq hsize (hcapacity ▸ h)]
    rfl
  · obtain ⟨offset, nbytes, hbounds, -, hlt⟩ := hb
    rw [bounds_eq hsize (hcapacity ▸ h), Option.some.injEq, Prod.mk.injEq] at hbounds
    obtain ⟨rfl, rfl⟩ := hbounds
    simp only [BitVec.toNat_ofNat, blocksize] at hlt
    omega
  · rw [start_eq, start_eq] at hij
    simp only [KERNEL_SECTOR_SIZE] at hi hj
    omega

/-- On a larger disk the first sector comes again. -/
theorem not_holds_of_ge {dev : osurd_dev} {gd : gendisk} (hcapacity : 2 ^ 23 < gd.capacity.toNat) :
    ¬ Holds dev gd := by
  intro h
  have heq : start 0 + 0 = start (2 ^ 23) + 0 := by decide
  have := h.apart 0 (2 ^ 23) (by omega) hcapacity 0 (by decide) 0 (by decide) heq
  omega

end Disk

section Capacity

variable {p : Params} {k : Kernel} {which : Nat} {gd : gendisk}

/-- The capacity as `setup_device` computes it, an `int`. -/
def sectors (p : Params) : int :=
  p.nsectors * p.hardsect_size.sdiv (BitVec.ofNat 32 KERNEL_SECTOR_SIZE)

/-- A disk is only added to a device that has an array, so the size has not wrapped to zero. -/
theorem setup_device_gd (h : (setup_device p k which).1.gd = some gd) :
    gd.capacity = (sectors p).signExtend 64 ∧ (setup_device p k which).1.size = p.nsectors * p.hardsect_size ∧
      p.nsectors * p.hardsect_size ≠ 0 := by
  cases hdata : vmalloc k which (p.nsectors * p.hardsect_size) with
  | false => simp [setup_device, hdata] at h
  | true =>
    cases hqueue : new_queue p k which with
    | none => simp [setup_device, hdata, hqueue] at h
    | some queue =>
      cases hdisk : k.alloc_disk which with
      | false => simp [setup_device, hdata, hqueue, hdisk] at h
      | true =>
        simp only [setup_device, hdata, hqueue, hdisk] at h ⊢
        refine ⟨?_, rfl, fun hzero => ?_⟩
        · rw [← Option.some.inj h]
          rfl
        · rw [hzero] at hdata
          simp [vmalloc, PAGE_ALIGN] at hdata

theorem signExtend_toNat (x : int) :
    (x.signExtend 64).toNat = if x.toNat < 2 ^ 31 then x.toNat else 2 ^ 64 - 2 ^ 32 + x.toNat := by
  have hx := x.isLt
  rw [BitVec.toNat_signExtend, BitVec.msb_eq_decide, BitVec.toNat_setWidth]
  split <;> split <;> simp_all <;> omega

section Sizes

variable (hpos : 0 < p.hardsect_size.toInt) (hdvd : 512 ∣ p.hardsect_size.toInt)

include hpos hdvd

/-- The hardware sector is some kernel sectors long. -/
theorem hardsect_size_eq : ∃ n : Nat, n < 2 ^ 22 ∧ p.hardsect_size.toNat = 512 * n ∧
    p.hardsect_size.toInt = 512 * n ∧ (p.hardsect_size.sdiv (BitVec.ofNat 32 KERNEL_SECTOR_SIZE)).toNat = n := by
  have hlt := BitVec.toInt_lt (x := p.hardsect_size)
  have hnat : p.hardsect_size.toInt = p.hardsect_size.toNat := by
    rw [BitVec.toInt_eq_toNat_cond] at hpos ⊢
    split at hpos <;> split <;> omega
  obtain ⟨n, hn⟩ : 512 ∣ p.hardsect_size.toNat := by omega
  have hmsb : p.hardsect_size.msb = false := by
    rw [BitVec.msb_eq_decide]
    simp
    omega
  refine ⟨n, by omega, hn, by omega, ?_⟩
  rw [BitVec.sdiv_eq, hmsb, show (BitVec.ofNat 32 KERNEL_SECTOR_SIZE).msb = false by decide]
  simp [BitVec.toNat_udiv, hn, KERNEL_SECTOR_SIZE]

theorem sectors_toNat :
    ((sectors p).toNat : Int) = p.nsectors.toInt * (p.hardsect_size.toInt / 512) % 2 ^ 32 := by
  obtain ⟨n, -, -, hint, hdiv⟩ := hardsect_size_eq hpos hdvd
  rw [hint, Int.mul_ediv_cancel_left _ (by decide), sectors, BitVec.toNat_mul, hdiv]
  push_cast
  rw [BitVec.toInt_eq_toNat_cond]
  split
  · rfl
  · rw [Int.sub_mul]
    push_cast
    omega

theorem size_toNat : (p.nsectors * p.hardsect_size).toNat = 512 * ((sectors p).toNat % 2 ^ 23) := by
  obtain ⟨n, -, hnat, -, hdiv⟩ := hardsect_size_eq hpos hdvd
  rw [sectors, BitVec.toNat_mul, BitVec.toNat_mul, hdiv, hnat]
  calc p.nsectors.toNat * (512 * n) % 2 ^ 32
    _ = 512 * (p.nsectors.toNat * n) % (512 * 2 ^ 23) := by ring_nf
    _ = 512 * (p.nsectors.toNat * n % 2 ^ 23) := Nat.mul_mod_mul_left ..
    _ = 512 * (p.nsectors.toNat * n % 2 ^ 32 % 2 ^ 23) := by
      rw [Nat.mod_mod_of_dvd _ (show 2 ^ 23 ∣ 2 ^ 32 by decide)]

end Sizes

/-- A device that is set up holds its disk just when the number of kernel sectors, as it wraps, is below
    `2 ^ 23`. -/
theorem holds_iff_sectors_lt (p : Params) (k : Kernel) (which : Nat) (gd : gendisk)
    (hpos : 0 < p.hardsect_size.toInt) (hdvd : 512 ∣ p.hardsect_size.toInt)
    (hadded : (setup_device p k which).1.gd = some gd) :
    Holds (setup_device p k which).1 gd ↔
      p.nsectors.toInt * (p.hardsect_size.toInt / 512) % 2 ^ 32 < 2 ^ 23 := by
  obtain ⟨hcapacity, hsize, hzero⟩ := setup_device_gd hadded
  rw [← sectors_toNat hpos hdvd]
  have hbytes := size_toNat hpos hdvd
  have hsectors : (sectors p).toNat % 2 ^ 23 ≠ 0 := by
    intro h
    rw [h] at hbytes
    exact hzero (BitVec.eq_of_toNat_eq hbytes)
  have hcap : gd.capacity.toNat = _ := (congrArg BitVec.toNat hcapacity).trans (signExtend_toNat _)
  constructor
  · intro h
    by_contra hge
    refine not_holds_of_ge ?_ h
    rw [hcap]
    split <;> omega
  · intro h
    have hlt : (sectors p).toNat < 2 ^ 23 := by exact_mod_cast h
    refine holds_of_lt hlt ?_ ?_
    · rw [hsize, hbytes, Nat.mod_eq_of_lt hlt]
    · rw [hcap, if_pos (by omega)]

theorem holds_iff_sectors_lt_defaults :
    (setup_device defaults generous 0).1.gd = some ⟨1024⟩ ∧ Holds (setup_device defaults generous 0).1 ⟨1024⟩ :=
  ⟨by decide, (holds_iff_sectors_lt defaults generous 0 ⟨1024⟩ (by decide) (by decide) (by decide)).2 (by decide)⟩

/-- One sector more than fit into `2 ^ 32` bytes. -/
def wrapping : Params :=
  { defaults with nsectors := 8388609 }

/-- The device has room for one sector: the disk's second sector is refused, and its last one is the
    first one again. -/
theorem wrapping_not_holds :
    (setup_device wrapping generous 0).1.gd = some ⟨8388609⟩ ∧ (setup_device wrapping generous 0).1.size = 512 ∧
      bounds (setup_device wrapping generous 0).1 1 1 = none ∧ start 8388608 = start 0 ∧
      ¬ Holds (setup_device wrapping generous 0).1 ⟨8388609⟩ := by
  exact ⟨by decide, by decide, by decide, by decide, not_holds_of_ge (by decide)⟩

end Capacity

end cs444.osurd.lifetime
