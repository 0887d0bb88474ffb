import Cs444.Lib.Ledger
import Cs444.Osurd.Driver
import Mathlib.Algebra.Ring.Int.Defs
import Mathlib.Data.List.Perm.Basic

open ledger

namespace cs444.osurd.lifetime

section Module

/-- A C `int`, which wraps around. -/
abbrev int := BitVec 32

/-- An `unsigned long` of 32 bits. -/
abbrev ulong := BitVec 32

/-- `sector_t`, of 64 bits with large block devices configured. -/
abbrev sector_t := BitVec 64

/-- The module's parameters. -/
structure Params where
  osurd_major : int
  hardsect_size : int
  nsectors : int
  ndevices : int
  request_mode : int

/-- What the module acquires: its global resources, and those of the device with a number. -/
inductive Resource where
  | cipher
  | major
  | devices
  | data (which : Nat)
  | queue (which : Nat)
  | gendisk (which : Nat)
deriving DecidableEq, Repr

abbrev Log := List (Event Resource)

/-- The function a queue was set up with. -/
inductive RequestFn where
  | osurd_make_request
  | osurd_full_request
  | osurd_request
deriving DecidableEq, Repr

structure gendisk where
  capacity : sector_t
deriving DecidableEq, Repr

/-- The fields of a device that outlive its set-up, with whether `data` points to an array and whether
    `timer` has been initialised. `memset` leaves the defaults. -/
structure osurd_dev where
  size : int := 0
  data : Bool := false
  queue : Option RequestFn := none
  gd : Option gendisk := none
  timer : Bool := false
deriving DecidableEq, Repr

/-- What the kernel answers while the module is loaded. `major` is the number `register_blkdev` finds
    free, unless it fails; `area` tells whether `vmalloc` gets address space and pages for the device
    with a number. -/
structure Kernel where
  sizeof_osurd_dev : Nat
  totalram_pages : Nat
  major : Option Nat
  major_pos : ∀ index ∈ major, 0 < index
  kmalloc : Bool
  area : Nat → Bool
  blk_alloc_queue : Nat → Bool
  blk_init_queue : Nat → Bool
  alloc_disk : Nat → Bool

end Module

def EBUSY : Int := 16

def ENOMEM : Int := 12

def RM_FULL : int := 1

def RM_NOQUEUE : int := 2

section Kernel

/-- `PAGE_ALIGN`, which wraps to zero in the last page. -/
def PAGE_ALIGN (size : ulong) : ulong := (size + 4095) &&& ~~~4095

/-- Whether `vmalloc(size)` returns an array for the device. -/
def vmalloc (k : Kernel) (which : Nat) (size : ulong) : Bool :=
  PAGE_ALIGN size ≠ 0 && (PAGE_ALIGN size >>> 12).toNat ≤ k.totalram_pages && k.area which

/-- What `register_blkdev` returns and acquires. It returns the number only if it was to choose one. -/
def register_blkdev (k : Kernel) (major : int) : Int × Log :=
  match k.major with
  | none => (- EBUSY, [])
  | some index => (if major = 0 then index else 0, [.acquired .major])

end Kernel

section Code

variable (p : Params) (k : Kernel)

/-- The queue of `setup_device`'s `switch`. Any other mode counts as the simple one. -/
def new_queue (which : Nat) : Option RequestFn :=
  if p.request_mode = RM_NOQUEUE then
    if k.blk_alloc_queue which then some .osurd_make_request else none
  else if p.request_mode = RM_FULL then
    if k.blk_init_queue which then some .osurd_full_request else none
  else
    if k.blk_init_queue which then some .osurd_request else none

/-- The label `out_vfree`: the array is freed, and `data` still points to it. -/
def out_vfree (dev : osurd_dev) (which : Nat) : Log :=
  if dev.data then [.released (.data which)] else []

/-- `setup_device`, with the device it leaves and what it acquired and released. A device with a disk
    is one whose disk has been added. -/
def setup_device (which : Nat) : osurd_dev × Log :=
  let dev : osurd_dev := { size := p.nsectors * p.hardsect_size }
  if !vmalloc k which dev.size then (dev, [])
  else
    let dev := { dev with data := true, timer := true }
    let log := [.acquired (.data which)]
    match new_queue p k which with
    | none => (dev, log ++ out_vfree dev which)
    | some queue =>
      let dev := { dev with queue := some queue }
      let log := log ++ [.acquired (.queue which)]
      if !k.alloc_disk which then (dev, log ++ out_vfree dev which)
      else
        let capacity : int := p.nsectors * p.hardsect_size.sdiv (BitVec.ofNat 32 KERNEL_SECTOR_SIZE)
        ({ dev with gd := some ⟨capacity.signExtend 64⟩ }, log ++ [.acquired (.gendisk which)])

/-- The loop of `osurd_init`, for the `n` devices from number `i` on. It stops at a device that does
    not lie inside the `room` bytes of the array. -/
def setup_loop (room : Nat) : Nat → Nat → List osurd_dev → Log → Except Log (List osurd_dev × Log)
  | 0, _, devices, log => .ok (devices, log)
  | n + 1, i, devices, log =>
    if (i + 1) * k.sizeof_osurd_dev > room then .error log
    else
      let (dev, events) := setup_device p k i
      setup_loop room n (i + 1) (devices ++ [dev]) (log ++ events)

/-- `osurd_init`, with the value it returns and the devices. `crypto_alloc_cipher` succeeds. -/
def osurd_init : Except Log (Int × List osurd_dev × Log) :=
  let log := [.acquired .cipher]
  let (osurd_major, events) := register_blkdev k p.osurd_major
  let log := log ++ events
  if osurd_major ≤ 0 then .ok (- EBUSY, [], log)
  else if !k.kmalloc then .ok (- ENOMEM, [], log ++ [.released .major])
  else
    let room := (p.ndevices * BitVec.ofNat 32 k.sizeof_osurd_dev).toNat
    match setup_loop p k room p.ndevices.toInt.toNat 0 [] (log ++ [.acquired .devices]) with
    | .error log => .error log
    | .ok (devices, log) => .ok (0, devices, log)

/-- What `osurd_exit` releases of a device. -/
def exit_device (i : Nat) (dev : osurd_dev) : Log :=
  (if dev.gd.isSome then [.released (.gendisk i)] else []) ++
  (if dev.queue.isSome then [.released (.queue i)] else []) ++
  (if dev.data then [.released (.data i)] else [])

/-- The loop of `osurd_exit`. `del_timer_sync` waits for ever for the base of a timer that has none. -/
def exit_loop : Nat → List osurd_dev → Log → Except Log Log
  | _, [], log => .ok log
  | i, dev :: devices, log =>
    if !dev.timer then .error log
    else exit_loop (i + 1) devices (log ++ exit_device i dev)

def osurd_exit (devices : List osurd_dev) (log : Log) : Except Log Log :=
  match exit_loop 0 devices (log ++ [.released .cipher]) with
  | .error log => .error log
  | .ok log => .ok (log ++ [.released .major, .released .devices])

/-- The module is loaded and, if that succeeds, removed again. -/
def loadUnload : Except Log Log :=
  match osurd_init p k with
  | .error log => .error log
  | .ok (ret, devices, log) => if ret ≠ 0 then .ok log else osurd_exit devices log

end Code

section Outcomes

variable {p : Params} {k : Kernel} {which : Nat}

/-- Every allocation for the device succeeds. -/
structure DeviceGranted (p : Params) (k : Kernel) (which : Nat) : Prop where
  data : vmalloc k which (p.nsectors * p.hardsect_size) = true
  queue : (new_queue p k which).isSome = true
  disk : k.alloc_disk which = true

/-- What a set-up and the following exit do to the timer and the resources of a device. A device that
    keeps its array without a disk has it released twice. -/
theorem setup_device_cases (p : Params) (k : Kernel) (which : Nat) :
    (vmalloc k which (p.nsectors * p.hardsect_size) = false ∧ (setup_device p k which).1.timer = false) ∨
    (setup_device p k which).1.timer = true ∧
      ((DeviceGranted p k which ∧
          (setup_device p k which).2 = [.acquired (.data which), .acquired (.queue which), .acquired (.gendisk which)] ∧
          exit_device which (setup_device p k which).1 =
            [.released (.gendisk which), .released (.queue which), .released (.data which)]) ∨
        ¬ DeviceGranted p k which ∧
          history (.data which) ((setup_device p k which).2 ++ exit_device which (setup_device p k which).1) =
            [.acquired (.data which), .released (.data which), .released (.data which)]) := by
  cases hdata : vmalloc k which (p.nsectors * p.hardsect_size) with
  | false => exact .inl ⟨rfl, by simp [setup_device, hdata]⟩
  | true =>
    right
    cases hqueue : new_queue p k which with
    | none =>
      refine ⟨by simp [setup_device, hdata, hqueue], .inr ⟨fun h => ?_, ?_⟩⟩
      · simpa [hqueue] using h.queue
      · simp [setup_device, hdata, hqueue, out_vfree, exit_device, history_cons]
    | some queue =>
      cases hdisk : k.alloc_disk which with
      | false =>
        refine ⟨by simp [setup_device, hdata, hqueue, hdisk], .inr ⟨fun h => ?_, ?_⟩⟩
        · simpa [hdisk] using h.disk
        · simp [setup_device, hdata, hqueue, hdisk, out_vfree, exit_device, history_cons]
      | true =>
        refine ⟨by simp [setup_device, hdata, hqueue, hdisk], .inl ⟨⟨hdata, by simp [hqueue], hdisk⟩, ?_, ?_⟩⟩
        · simp [setup_device, hdata, hqueue, hdisk]
        · simp [setup_device, hdata, hqueue, hdisk, exit_device]

/-- No device touches the array of another one. -/
theorem history_data_setup_device {i : Nat} (h : which ≠ i) : history (.data i) (setup_device p k which).2 = [] := by
  simp only [setup_device, out_vfree]
  split
  · rfl
  · split
    · simp [history_cons, h]
    · split <;> simp [history_cons, h]

theorem history_data_exit_device {i : Nat} (dev : osurd_dev) (h : which ≠ i) :
    history (.data i) (exit_device which dev) = [] := by
  simp only [exit_device, history_append]
  split <;> split <;> split <;> simp [history_cons, h]

end Outcomes

section Loops

variable {p : Params} {k : Kernel} {room : Nat}

theorem setup_loop_inside {n i : Nat} {devices : List osurd_dev} {log : Log}
    (hroom : (i + n) * k.sizeof_osurd_dev ≤ room) :
    setup_loop p k room n i devices log =
      .ok (devices ++ (List.range' i n).map fun j => (setup_device p k j).1,
        log ++ (List.range' i n).flatMap fun j => (setup_device p k j).2) := by
  induction n generalizing i devices log with
  | zero => simp [setup_loop]
  | succ n ih =>
    have hfirst : ¬ (i + 1) * k.sizeof_osurd_dev > room := by
      have hle : (i + 1) * k.sizeof_osurd_dev ≤ (i + (n + 1)) * k.sizeof_osurd_dev :=
        Nat.mul_le_mul_right _ (by omega)
      omega
    rw [setup_loop, if_neg hfirst]
    simp only
    rw [ih (by rwa [show i + 1 + n = i + (n + 1) by omega])]
    simp [List.range'_succ]

theorem setup_loop_outside {n i : Nat} {devices : List osurd_dev} {log : Log} (hn : n ≠ 0)
    (hroom : room < (i + n) * k.sizeof_osurd_dev) : ∃ log', setup_loop p k room n i devices log = .error log' := by
  induction n generalizing i devices log with
  | zero => exact absurd rfl hn
  | succ n ih =>
    rw [setup_loop]
    split
    · exact ⟨log, rfl⟩
    · rename_i hfirst
      refine ih (fun h => hfirst ?_) (by rwa [show i + 1 + n = i + (n + 1) by omega])
      simpa [h] using hroom

theorem exit_loop_stops {n i : Nat} {dev : Nat → osurd_dev} {log : Log}
    (h : ∀ j ∈ List.range' i n, (dev j).timer = true) :
    exit_loop i ((List.range' i n).map dev) log =
      .ok (log ++ (List.range' i n).flatMap fun j => exit_device j (dev j)) := by
  induction n generalizing i log with
  | zero => simp [exit_loop]
  | succ n ih =>
    rw [List.range'_succ] at h ⊢
    rw [List.map_cons, exit_loop, if_neg (by simp [h i List.mem_cons_self]),
      ih fun j hj => h j (List.mem_cons_of_mem _ hj)]
    simp

theorem exit_loop_spins {i : Nat} {devices : List osurd_dev} {log : Log} (h : ∃ dev ∈ devices, dev.timer = false) :
    ∃ log', exit_loop i devices log = .error log' := by
  induction devices generalizing i log with
  | nil => simp at h
  | cons dev devices ih =>
    rw [exit_loop]
    split
    · exact ⟨log, rfl⟩
    · rename_i htimer
      refine ih ?_
      obtain ⟨d, hd, hdt⟩ := h
      rcases List.mem_cons.1 hd with rfl | hd
      · simp [hdt] at htimer
      · exact ⟨d, hd, hdt⟩

end Loops

section Release

variable {p : Params} {k : Kernel}

/-- The kernel chooses the major number and every allocation succeeds, with an array that holds all
    devices. -/
structure Granted (p : Params) (k : Kernel) : Prop where
  major : p.osurd_major = 0 ∧ k.major.isSome = true
  kmalloc : k.kmalloc = true
  devices : p.ndevices.toInt * k.sizeof_osurd_dev < 2 ^ 32
  device : ∀ i : Nat, i < p.ndevices.toInt → DeviceGranted p k i

/-- Loading and removing the module comes to an end, with everything it acquired released once. -/
def Released (p : Params) (k : Kernel) : Prop :=
  ∃ log, loadUnload p k = .ok log ∧ Settled log

theorem le_room_iff (x : int) (s : Nat) :
    x.toInt.toNat * s ≤ (x * BitVec.ofNat 32 s).toNat ↔ x.toInt * s < 2 ^ 32 := by
  by_cases hpos : 0 < x.toInt
  · have hx : x.toInt = x.toNat := by
      rw [BitVec.toInt_eq_toNat_cond] at hpos ⊢
      split at hpos <;> split <;> omega
    rw [hx, Int.toNat_natCast, BitVec.toNat_mul, BitVec.toNat_ofNat, Nat.mul_mod_mod]
    have hmod := Nat.mod_lt (x.toNat * s) (show 0 < 2 ^ 32 by decide)
    constructor
    · intro h
      exact_mod_cast Nat.lt_of_le_of_lt h hmod
    · intro h
      exact Nat.le_of_eq (Nat.mod_eq_of_lt (by exact_mod_cast h)).symm
  · have hneg : x.toInt ≤ 0 := Int.not_lt.1 hpos
    have hprod : x.toInt * s ≤ 0 := Int.mul_nonpos_of_nonpos_of_nonneg hneg (Int.natCast_nonneg s)
    rw [Int.toNat_of_nonpos hneg, Nat.zero_mul]
    constructor <;> intro <;> omega

/-- With the major number and the array, what is left of `osurd_init` is its loop. -/
theorem osurd_init_ready (hmajor : p.osurd_major = 0 ∧ k.major.isSome = true) (hkmalloc : k.kmalloc = true) :
    osurd_init p k =
      match setup_loop p k (p.ndevices * BitVec.ofNat 32 k.sizeof_osurd_dev).toNat p.ndevices.toInt.toNat 0 []
        [.acquired .cipher, .acquired .major, .acquired .devices] with
      | .error log => .error log
      | .ok (devices, log) => .ok (0, devices, log) := by
  obtain ⟨index, hindex⟩ := Option.isSome_iff_exists.1 hmajor.2
  have hpos : ¬ (index : Int) ≤ 0 := by
    have := k.major_pos index hindex
    omega
  simp only [osurd_init, register_blkdev, hindex, hmajor.1, if_pos, if_neg hpos, hkmalloc]
  rfl

/-- Without the major number or the array, the cipher is never released. -/
theorem not_released_of_error (h : ¬ ((p.osurd_major = 0 ∧ k.major.isSome = true) ∧ k.kmalloc = true)) :
    ¬ Released p k := by
  rintro ⟨log, hlog, hsettled⟩
  cases hmajor : k.major with
  | none =>
    simp [loadUnload, osurd_init, register_blkdev, hmajor, EBUSY] at hlog
    subst hlog
    exact absurd hsettled (by decide)
  | some index =>
    by_cases hzero : p.osurd_major = 0
    · have hkmalloc : k.kmalloc = false := by simpa [hzero, hmajor] using h
      have hindex : ¬ index = 0 := Nat.ne_of_gt (k.major_pos index hmajor)
      simp [loadUnload, osurd_init, register_blkdev, hmajor, hzero, hindex, hkmalloc, ENOMEM] at hlog
      subst hlog
      exact absurd hsettled (by decide)
    · simp only [loadUnload, osurd_init, register_blkdev, hmajor, if_neg hzero] at hlog
      simp [EBUSY] at hlog
      subst hlog
      exact absurd hsettled (by decide)

/-- Beyond the end of the array the set-up writes over other memory. -/
theorem not_released_of_overflow (hmajor : p.osurd_major = 0 ∧ k.major.isSome = true) (hkmalloc : k.kmalloc = true)
    (hdevices : ¬ p.ndevices.toInt * k.sizeof_osurd_dev < 2 ^ 32) : ¬ Released p k := by
  rintro ⟨log, hlog, -⟩
  rw [← le_room_iff, Nat.not_le] at hdevices
  have hn : p.ndevices.toInt.toNat ≠ 0 := by
    intro h
    simp [h] at hdevices
  obtain ⟨log', hloop⟩ := setup_loop_outside hn (by rwa [Nat.zero_add])
  rw [loadUnload, osurd_init_ready hmajor hkmalloc, hloop] at hlog
  cases hlog

/-- What `osurd_init` does on its way to success, up to the last device. -/
def setupLog (p : Params) (k : Kernel) : Log :=
  [.acquired .cipher, .acquired .major, .acquired .devices] ++
    (List.range' 0 p.ndevices.toInt.toNat).flatMap fun i => (setup_device p k i).2

def exitLog (p : Params) (k : Kernel) : Log :=
  [.released .cipher] ++
    ((List.range' 0 p.ndevices.toInt.toNat).flatMap fun i => exit_device i (setup_device p k i).1) ++
    [.released .major, .released .devices]

section Loaded

variable (hmajor : p.osurd_major = 0 ∧ k.major.isSome = true) (hkmalloc : k.kmalloc = true)
  (hdevices : p.ndevices.toInt * k.sizeof_osurd_dev < 2 ^ 32)

include hmajor hkmalloc hdevices

/-- A module that is loaded is left to `osurd_exit`. -/
theorem loadUnload_loaded :
    loadUnload p k =
      osurd_exit ((List.range' 0 p.ndevices.toInt.toNat).map fun i => (setup_device p k i).1) (setupLog p k) := by
  rw [← le_room_iff] at hdevices
  rw [loadUnload, osurd_init_ready hmajor hkmalloc, setup_loop_inside (by rwa [Nat.zero_add])]
  rfl

/-- A device without an array keeps `osurd_exit` from ending. -/
theorem not_released_of_vmalloc {i : Nat} (hi : i < p.ndevices.toInt.toNat)
    (htimer : (setup_device p k i).1.timer = false) : ¬ Released p k := by
  rintro ⟨log, hlog, -⟩
  have hmem : (setup_device p k i).1 ∈ (List.range' 0 p.ndevices.toInt.toNat).map fun i => (setup_device p k i).1 :=
    List.mem_map.2 ⟨i, by simpa using hi, rfl⟩
  obtain ⟨log', hloop⟩ := exit_loop_spins ⟨_, hmem, htimer⟩
  rw [loadUnload_loaded hmajor hkmalloc hdevices, osurd_exit, hloop] at hlog
  cases hlog

theorem loadUnload_timers (htimers : ∀ i < p.ndevices.toInt.toNat, (setup_device p k i).1.timer = true) :
    loadUnload p k = .ok (setupLog p k ++ exitLog p k) := by
  rw [loadUnload_loaded hmajor hkmalloc hdevices, osurd_exit,
    exit_loop_stops fun j hj => htimers j (by simpa using hj)]
  simp [exitLog]

end Loaded

/-- The array of a device has the history its own set-up and exit give it. -/
theorem history_data {i : Nat} (hi : i < p.ndevices.toInt.toNat) :
    history (.data i) (setupLog p k ++ exitLog p k) =
      history (.data i) ((setup_device p k i).2 ++ exit_device i (setup_device p k i).1) := by
  have hmem : i ∈ List.range' 0 p.ndevices.toInt.toNat := by simpa using hi
  have hsetup := history_flatMap (List.nodup_range' (s := 0)) hmem fun j hj => history_data_setup_device (p := p) (k := k) hj
  have hexit := history_flatMap (List.nodup_range' (s := 0)) hmem fun j hj =>
    history_data_exit_device (setup_device p k j).1 hj
  simp only [setupLog, exitLog, history_append, hsetup, hexit]
  simp [history_cons]

/-- The resources in the order they are acquired in, and in the order they are released in. -/
def acquisitions (n : Nat) : List Resource :=
  .cipher :: .major :: .devices :: (List.range' 0 n).flatMap fun i => [.data i, .queue i, .gendisk i]

def releases (n : Nat) : List Resource :=
  .cipher :: ((List.range' 0 n).flatMap fun i => [.gendisk i, .queue i, .data i]) ++ [.major, .devices]

theorem acquisitions_nodup (n : Nat) : (acquisitions n).Nodup := by
  have hdevices : ((List.range' 0 n).flatMap fun i => [Resource.data i, .queue i, .gendisk i]).Nodup := by
    rw [List.nodup_flatMap]
    refine ⟨fun i _ => by simp, List.Pairwise.imp (fun {i j} hij => ?_) List.nodup_range'⟩
    simp [Function.onFun, Ne.symm hij]
  simpa [acquisitions] using hdevices

theorem releases_perm (n : Nat) : (releases n).Perm (acquisitions n) := by
  have hdevices : ((List.range' 0 n).flatMap fun i => [Resource.gendisk i, .queue i, .data i]).Perm
      ((List.range' 0 n).flatMap fun i => [.data i, .queue i, .gendisk i]) :=
    List.Perm.flatMap_left _ fun i _ => List.reverse_perm [Resource.data i, .queue i, .gendisk i]
  exact .cons _ (List.perm_append_comm.trans (.cons _ (.cons _ hdevices)))

/-- When everything is granted, the exit releases what the set-up acquired. -/
theorem logs_of_granted (h : ∀ i < p.ndevices.toInt.toNat, DeviceGranted p k i) :
    setupLog p k ++ exitLog p k =
      (acquisitions p.ndevices.toInt.toNat).map .acquired ++ (releases p.ndevices.toInt.toNat).map .released := by
  have hsetup : ∀ i ∈ List.range' 0 p.ndevices.toInt.toNat,
      (setup_device p k i).2 = [Resource.data i, .queue i, .gendisk i].map .acquired ∧
        exit_device i (setup_device p k i).1 = [Resource.gendisk i, .queue i, .data i].map .released := by
    intro i hi
    have hgranted := h i (by simpa using hi)
    obtain ⟨hfail, -⟩ | ⟨-, ⟨-, hlogs⟩ | ⟨hfail, -⟩⟩ := setup_device_cases p k i
    · exact absurd hgranted.data (by simp [hfail])
    · exact hlogs
    · exact absurd hgranted hfail
  simp only [setupLog, exitLog, acquisitions, releases, List.map_append, List.map_cons, List.map_flatMap]
  rw [List.flatMap_congr fun i hi => (hsetup i hi).1, List.flatMap_congr fun i hi => (hsetup i hi).2]
  simp

/-- Everything the module acquires is released once just when the kernel chooses the major number and
    no allocation fails. -/
theorem released_iff_granted (p : Params) (k : Kernel) : Released p k ↔ Granted p k := by
  constructor
  · intro hreleased
    obtain ⟨hmajor, hkmalloc⟩ := Classical.not_not.1 fun h => not_released_of_error h hreleased
    have hdevices := Classical.not_not.1 fun h => not_released_of_overflow hmajor hkmalloc h hreleased
    have htimers : ∀ i < p.ndevices.toInt.toNat, (setup_device p k i).1.timer = true := fun i hi =>
      Bool.of_not_eq_false fun h => not_released_of_vmalloc hmajor hkmalloc hdevices hi h hreleased
    obtain ⟨log, hlog, hsettled⟩ := hreleased
    rw [loadUnload_timers hmajor hkmalloc hdevices htimers] at hlog
    obtain rfl : setupLog p k ++ exitLog p k = log := Except.ok.inj hlog
    refine ⟨hmajor, hkmalloc, hdevices, fun i hi => ?_⟩
    have hi' : i < p.ndevices.toInt.toNat := by omega
    obtain ⟨-, hfail⟩ | ⟨-, ⟨hgranted, -⟩ | ⟨-, htwice⟩⟩ := setup_device_cases p k i
    · exact absurd (htimers i hi') (by simp [hfail])
    · exact hgranted
    · rw [← history_data hi'] at htwice
      exact absurd hsettled (not_settled_of_twice htwice)
  · intro h
    have hdevice : ∀ i < p.ndevices.toInt.toNat, DeviceGranted p k i := fun i hi => h.device i (by omega)
    refine ⟨_, loadUnload_timers h.major h.kmalloc h.devices fun i hi => ?_, ?_⟩
    · obtain ⟨hfail, -⟩ | ⟨htimer, -⟩ := setup_device_cases p k i
      · exact absurd (hdevice i hi).data (by simp [hfail])
      · exact htimer
    · rw [logs_of_granted hdevice]
      exact settled_of_perm (acquisitions_nodup _) (releases_perm _)

/-- The module's own defaults. -/
def defaults : Params where
  osurd_major := 0
  hardsect_size := 512
  nsectors := 1024
  ndevices := 4
  request_mode := 0

/-- A kernel in which nothing fails that fits into memory. -/
def generous : Kernel where
  sizeof_osurd_dev := 64
  totalram_pages := 2 ^ 18
  major := some 251
  major_pos := by decide
  kmalloc := true
  area := fun _ => true
  blk_alloc_queue := fun _ => true
  blk_init_queue := fun _ => true
  alloc_disk := fun _ => true

/-- One with no disk to give to the second device. -/
def noSecondDisk : Kernel :=
  { generous with alloc_disk := fun which => which ≠ 1 }

/-- With no disk for the second device, its array is released by `setup_device` and again by
    `osurd_exit`. -/
theorem noSecondDisk_released_twice :
    (∃ log, loadUnload defaults noSecondDisk = .ok log ∧
      history (.data 1) log = [.acquired (.data 1), .released (.data 1), .released (.data 1)]) ∧
    ¬ Released defaults noSecondDisk := by
  have hrun : ∃ log, loadUnload defaults noSecondDisk = .ok log ∧
      history (.data 1) log = [.acquired (.data 1), .released (.data 1), .released (.data 1)] :=
    ⟨_, rfl, by decide⟩
  refine ⟨hrun, ?_⟩
  rintro ⟨log, hlog, hsettled⟩
  obtain ⟨log', hlog', htwice⟩ := hrun
  obtain rfl : log' = log := Except.ok.inj (hlog'.symm.trans hlog)
  exact not_settled_of_twice htwice hsettled

end Release

end cs444.osurd.lifetime
