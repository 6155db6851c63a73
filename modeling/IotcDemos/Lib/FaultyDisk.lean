import IotcDemos.Lib.Disk
import IotcDemos.Lib.Errno

set_option autoImplicit false

/-! # A disk whose accesses fail

`FaultyDisk` is a disk with a plan of faults: the plan says of every access, by its number,
whether it fails. A write that fails may have reached any of its sectors. Every pattern of failing
accesses is a plan, so what is proved for every `FaultyDisk` holds under every such pattern.
-/

namespace IotcDemos

/-- How an access fails: the status it returns, and the sectors a write has reached. -/
structure Fault where
  status : Int
  reached : ℕ → Bool
  failed : status ≠ 0

/-- An access that fails with `-EIO` and reaches nothing. -/
def Fault.eio : Fault := ⟨- EIO, fun _ => false, by decide⟩

/-- A disk with its plan of faults; `used` accesses have been made. -/
structure FaultyDisk where
  disk : Disk
  plan : ℕ → Option Fault
  used : ℕ

namespace FaultyDisk

/-- The fault of the next access. -/
def fault (d : FaultyDisk) : Option Fault := d.plan d.used

/-- The status of the next access. -/
def status (d : FaultyDisk) : Int :=
  match d.fault with
  | none => 0
  | some f => f.status

/-- The sectors the next access reaches, if it is a write. -/
def reached (d : FaultyDisk) : ℕ → Bool :=
  match d.fault with
  | none => fun _ => true
  | some f => f.reached

/-- The next access has been made. -/
def next (d : FaultyDisk) : FaultyDisk := { d with used := d.used + 1 }

/-- The accesses as the plan has them. -/
def faulty : DiskAccess FaultyDisk where
  init d := (d.status, d.next)
  read start count d :=
    (if d.status = 0 then .ok (d.disk.read start count) else .error d.status, d.next)
  write buf start count d :=
    (d.status, { d.next with disk := d.disk.writeSel d.reached buf start count })
  sync d := (d.status, d.next)

/-- The disk at the start of the next operation. -/
def tick (d : FaultyDisk) : FaultyDisk := { d with disk := d.disk.tick }

/-- A status of 0 is that of an access without a fault. -/
theorem reached_of_status {d : FaultyDisk} (h : d.status = 0) : d.reached = fun _ => true := by
  unfold status at h
  unfold reached
  cases hf : d.fault with
  | none => rfl
  | some f =>
      rw [hf] at h
      exact absurd h f.failed

end FaultyDisk

end IotcDemos
