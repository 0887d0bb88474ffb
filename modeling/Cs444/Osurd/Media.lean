import Cs444.Lib.Interleaving
import Cs444.Osurd.Driver

open interleaving

namespace cs444.osurd

/-- A C `short`, which wraps around. -/
abbrev short := BitVec 16

/-- What the driver does to its device that a handle can notice. `armed` is a call of `add_timer`,
    with whether the timer was pending at the call. -/
inductive Effect where
  | opened
  | released
  | expired
  | flagged
  | zeroed
  | armed (pending : Bool)
deriving DecidableEq, Repr

/-- The fields of `osurd_dev` that a simulated media change is about, with the machine the device
    belongs to. `pending` is the state of its timer, and `log` what was done to it, the latest
    first. The array is there: `setup_device` adds no disk without it. -/
structure Drive where
  machine : Machine
  users : short
  media_change : short
  pending : Bool
  log : List Effect

/-- After `setup_device`. The array is as `vmalloc` returns it. -/
def setup_device (m : Machine) : Drive where
  machine := m
  users := 0
  media_change := 0
  pending := false
  log := []

/-- How many handles are open. -/
def outstanding : List Effect → Nat
  | [] => 0
  | .opened :: es => outstanding es + 1
  | .released :: es => outstanding es - 1
  | _ :: es => outstanding es

/-- The timer has expired since the last release. -/
def expiredSinceRelease : List Effect → Bool
  | [] => false
  | .expired :: _ => true
  | .released :: _ => false
  | _ :: es => expiredSinceRelease es

def Drive.note (d : Drive) (e : Effect) : Drive :=
  { d with log := e :: d.log }

section Kernel

/-- The timer is not pending afterwards, and its function is not running. -/
def del_timer_sync (d : Drive) : Drive :=
  { d with pending := false }

def add_timer (d : Drive) : Drive :=
  { d.note (.armed d.pending) with pending := true }

/-- `memset(dev->data, 0, dev->size)`. -/
def memset_data (m : Machine) : Machine :=
  { m with dev.data := fun i => if i < m.dev.size then 0 else m.dev.data i }

end Kernel

def osurd_media_changed (d : Drive) : short := d.media_change

def osurd_revalidate (d : Drive) : Drive :=
  if d.media_change ≠ 0 then { d.note .zeroed with machine := memset_data d.machine, media_change := 0 } else d

/-- Revalidates the disk just when its driver reports a change. -/
def check_disk_change (d : Drive) : Drive :=
  if osurd_media_changed d ≠ 0 then osurd_revalidate d else d

def osurd_open (d : Drive) : Drive :=
  let d := del_timer_sync d
  let d := if d.users = 0 then check_disk_change d else d
  { d.note .opened with users := d.users + 1 }

def osurd_release (d : Drive) : Drive :=
  let d := { d.note .released with users := d.users - 1 }
  if d.users = 0 then add_timer d else d

def osurd_invalidate (d : Drive) : Drive :=
  if d.users ≠ 0 then d else { d.note .flagged with media_change := 1 }

inductive Operation where
  | open
  | release
  | expire
  | transfer (sector nsect buffer : Nat) (write : Bool)
deriving DecidableEq, Repr

/-- One operation on the drive. A release belongs to an open handle, and only a pending timer
    expires. Reads and writes are the transfers of the request functions. -/
def operate (tfm : crypto_cipher) (d : Drive) : Operation → Option Drive
  | .open => some (osurd_open d)
  | .release => if 0 < outstanding d.log then some (osurd_release d) else none
  | .expire => if d.pending then some (osurd_invalidate { d.note .expired with pending := false }) else none
  | .transfer sector nsect buffer write =>
    some { d with machine := osurd_transfer tfm d.machine sector nsect buffer write }

end cs444.osurd
