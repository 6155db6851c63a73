import IotcDemos.Lib.Disk
import IotcDemos.Lib.Errno

set_option autoImplicit false

/-! # The store-and-forward spool (`demos/gateway/src/spool.c`)

A ring of `NSLOTS` slots of three sectors on a raw disk. Each slot holds one record: a 16-byte
header (magic, sequence number, length, CRC-32) and the payload. RAM holds the window of queued
sequence numbers `[head_seq, tail_seq)` and the counters; `spool_init` recovers the window from
the headers on the disk.

The functions are written over an arbitrary disk `drv : DiskAccess D` and an arbitrary checksum
`crc32Ieee` (Zephyr's `crc32_ieee`). A C string is the list of its bytes before the terminating
NUL, so that `strlen` is the length of the list. Every function runs under `spool_mutex`: a call
is one step.
-/

namespace IotcDemos

/-! ## Layout of a slot -/

def spoolSlotSectors : ℕ := 3

def spoolPayloadMax : ℕ := spoolSlotSectors * 512 - 16 - 1

def slotBytes : ℕ := spoolSlotSectors * 512

/-- `"IOTR"` in little-endian order. -/
def recMagic : UInt32 := 0x52544F49

structure RecHdr where
  magic : UInt32
  seq : UInt32
  len : UInt16
  rsvd : UInt16
  crc : UInt32
  deriving DecidableEq

def RecHdr.toBytes (h : RecHdr) : Bytes :=
  toLe32 h.magic ++ toLe32 h.seq ++ toLe16 h.len ++ toLe16 h.rsvd ++ toLe32 h.crc

def RecHdr.ofBytes (b : Bytes) : RecHdr where
  magic := le32At (byteAt b) 0
  seq := le32At (byteAt b) 4
  len := le16At (byteAt b) 8
  rsvd := le16At (byteAt b) 10
  crc := le32At (byteAt b) 12

/-- The `len` payload bytes behind the header of a slot. -/
def slotPayload (buf : Bytes) (len : ℕ) : Bytes := (buf.drop 16).take len

/-- The slot buffer as `spool_push` stages it: header, payload, zeros. -/
def slotImage (h : RecHdr) (json : Bytes) : Bytes :=
  h.toBytes ++ json ++ List.replicate (slotBytes - 16 - json.length) 0

/-! ## Configuration and state -/

/-- `CONFIG_GATEWAY_SPOOL_SECTOR` and `CONFIG_GATEWAY_SPOOL_SLOTS`. Sector numbers are
`uint32_t`, and the ring lies within them. -/
structure SpoolConfig where
  baseSector : ℕ
  nslots : ℕ
  pos : 0 < nslots
  fits : baseSector + nslots * spoolSlotSectors ≤ 2 ^ 32

/-- The defaults of `Kconfig`. -/
def defaultSpool : SpoolConfig := ⟨20100000, 2048, by decide, by decide⟩

/-- A ring of one slot. -/
def oneSlot : SpoolConfig := ⟨0, 1, by decide, by decide⟩

/-- A ring of two slots. -/
def twoSlots : SpoolConfig := ⟨0, 2, by decide, by decide⟩

structure SpoolStats where
  count : UInt32
  capacity : UInt32
  pushed : UInt32
  drained : UInt32
  drops : UInt32
  deriving DecidableEq

/-- The static variables of `spool.c`. -/
structure Spool where
  headSeq : UInt32
  tailSeq : UInt32
  recCount : UInt32
  stats : SpoolStats
  ready : Bool
  deriving DecidableEq

/-- RAM as it is when the program starts. -/
def Spool.off : Spool := ⟨0, 0, 0, ⟨0, 0, 0, 0, 0⟩, false⟩

/-- The disk and the spool's RAM. -/
structure Node (D : Type) where
  disk : D
  ram : Spool

/-- The calls of the spool's interface. -/
inductive SpoolOp where
  | push (json : Bytes)
  | peek (bufSize : ℕ)
  | commit
  | wipe
  deriving DecidableEq

/-- The return value of a call, and what it copied to the caller's buffer. -/
abbrev Answer := Int × Option Bytes

section Functions

variable {D : Type} (drv : DiskAccess D) (crc32Ieee : Bytes → UInt32) (c : SpoolConfig)

/-- First sector of slot `i`, in `uint32_t` arithmetic. -/
def slotSector (i : ℕ) : ℕ := (c.baseSector + i * spoolSlotSectors) % 2 ^ 32

def slotOf (seq : UInt32) : ℕ := slotSector c (seq.toNat % c.nslots)

def readHdr (sector : ℕ) (d : D) : Except Int RecHdr × D :=
  match drv.read sector 1 d with
  | (.error e, d') => (.error e, d')
  | (.ok buf, d') => (.ok (RecHdr.ofBytes buf), d')

/-! ## `spool_init` -/

/-- `max_seq`, `min_seq` and `valid` of the recovery scan. -/
structure Scan where
  maxSeq : UInt32
  minSeq : UInt32
  valid : UInt32

def Scan.start : Scan := ⟨0, 0xFFFFFFFF, 0⟩

/-- The test a header must pass in the recovery scan. -/
def RecHdr.counts (h : RecHdr) : Bool :=
  !(h.magic != recMagic || decide (h.len.toNat > spoolPayloadMax))

def Scan.see (a : Scan) (h : RecHdr) : Scan :=
  if h.counts then
    ⟨if a.maxSeq > h.seq then a.maxSeq else h.seq,
      if a.minSeq < h.seq then a.minSeq else h.seq, a.valid + 1⟩
  else a

/-- The scan loop: `k` slots from slot `i` on are still to be read. -/
def scanSlots : (k i : ℕ) → D → Scan → Option Scan × D
  | 0, _, d, a => (some a, d)
  | k + 1, i, d, a =>
      match readHdr drv (slotSector c i) d with
      | (.error _, d') => (none, d')
      | (.ok h, d') => scanSlots k (i + 1) d' (a.see h)

/-- The window recovered from the scan. Slots of older laps sit below the live window, so it is
clamped to the newest `NSLOTS` sequence numbers. -/
def Spool.recover (s : Spool) (a : Scan) : Spool :=
  let nm1 := UInt32.ofNat (c.nslots - 1)
  let clamp := if a.maxSeq ≥ nm1 then a.maxSeq - nm1 else 0
  let tail := if a.valid = 0 then 0 else a.maxSeq + 1
  let head := if a.valid = 0 then 0 else if a.minSeq > clamp then a.minSeq else clamp
  let count := if a.valid = 0 then 0 else tail - head
  { headSeq := head
    tailSeq := tail
    recCount := count
    stats := { s.stats with capacity := UInt32.ofNat c.nslots, count := count }
    ready := true }

def spoolInit (n : Node D) : Int × Node D :=
  match drv.init n.disk with
  | (ret, d) =>
      if ret ≠ 0 then (ret, { n with disk := d })
      else
        match scanSlots drv c c.nslots 0 d Scan.start with
        -- one header that cannot be read ends the start
        | (none, d') => (- EIO, { n with disk := d' })
        | (some a, d') => (0, ⟨d', n.ram.recover c a⟩)

/-! ## `spool_push` -/

/-- The oldest record leaves the window and is counted in `drops`. -/
def Spool.sacrifice (s : Spool) : Spool :=
  { s with
    headSeq := s.headSeq + 1
    recCount := s.recCount - 1
    stats := { s.stats with drops := s.stats.drops + 1 } }

/-- A full ring sacrifices its oldest record. -/
def Spool.makeRoom (s : Spool) : Spool := if s.recCount.toNat = c.nslots then s.sacrifice else s

/-- The header `spool_push` writes for the string `json` at sequence number `seq`. -/
def pushHdr (seq : UInt32) (json : Bytes) : RecHdr where
  magic := recMagic
  seq := seq
  len := UInt16.ofNat json.length
  rsvd := 0
  crc := crc32Ieee json

/-- RAM after a successful slot write. -/
def Spool.appended (s : Spool) : Spool :=
  { s with
    tailSeq := s.tailSeq + 1
    recCount := s.recCount + 1
    stats := { s.stats with pushed := s.stats.pushed + 1, count := s.recCount + 1 } }

def spoolPush (json : Bytes) (n : Node D) : Int × Node D :=
  if n.ram.ready = false then (-ENODEV, n)
  else if json.length > spoolPayloadMax then
    let s := n.ram
    (-EMSGSIZE, { n with ram := { s with stats := { s.stats with drops := s.stats.drops + 1 } } })
  else
    -- the eviction stays even when the write fails
    let s := n.ram.makeRoom c
    match drv.write (slotImage (pushHdr crc32Ieee s.tailSeq json) json) (slotOf c s.tailSeq)
        spoolSlotSectors n.disk with
    | (ret, d) =>
        -- what the flush returns is not looked at
        if ret = 0 then (ret, ⟨(drv.sync d).2, s.appended⟩)
        else (ret, ⟨d, s⟩)

/-! ## `spool_peek` -/

/-- The test of `spool_peek` on the slot read for `seq`, with a caller's buffer of `bufSize`
bytes. -/
def acceptable (buf : Bytes) (seq : UInt32) (bufSize : ℕ) : Bool :=
  let h := RecHdr.ofBytes buf
  !(h.magic != recMagic || h.seq != seq || decide (h.len.toNat > spoolPayloadMax) ||
    decide (h.len.toNat ≥ bufSize) || crc32Ieee (slotPayload buf h.len.toNat) != h.crc)

/-- A corrupt or foreign slot is skipped. -/
def Spool.skip (s : Spool) : Spool :=
  { s with
    headSeq := s.headSeq + 1
    recCount := s.recCount - 1
    stats := { s.stats with drops := s.stats.drops + 1, count := s.recCount - 1 } }

/-- The loop of `spool_peek`. It runs while `rec_count > 0`, and each pass that goes round again
has taken one off `rec_count`: the argument is the number of passes left. The second component
of the answer is what was copied to the caller's buffer (without the terminating NUL). -/
def peekLoop (bufSize : ℕ) : ℕ → Node D → Int × Option Bytes × Node D
  | 0, n => (0, none, n)
  | k + 1, n =>
      match drv.read (slotOf c n.ram.headSeq) spoolSlotSectors n.disk with
      -- the record stays at the front
      | (.error e, d) => (e, none, { n with disk := d })
      | (.ok buf, d) =>
          if acceptable crc32Ieee buf n.ram.headSeq bufSize then
            let h := RecHdr.ofBytes buf
            (h.len.toNat, some (slotPayload buf h.len.toNat), { n with disk := d })
          else peekLoop bufSize k ⟨d, n.ram.skip⟩

def spoolPeek (bufSize : ℕ) (n : Node D) : Int × Option Bytes × Node D :=
  if n.ram.ready = false then (-ENODEV, none, n)
  else peekLoop drv crc32Ieee c bufSize n.ram.recCount.toNat n

/-! ## `spool_commit` and `spool_wipe` -/

/-- The oldest record leaves the window as drained. -/
def Spool.committed (s : Spool) : Spool :=
  { s with
    headSeq := s.headSeq + 1
    recCount := s.recCount - 1
    stats := { s.stats with drained := s.stats.drained + 1, count := s.recCount - 1 } }

/-- The cleared header sector `spool_commit` and `spool_wipe` write. -/
def blankSector : Bytes := List.replicate 512 0

def spoolCommit (n : Node D) : Int × Node D :=
  if n.ram.ready = false then (-ENODEV, n)
  else if n.ram.recCount > 0 then
    match drv.write blankSector (slotOf c n.ram.headSeq) 1 n.disk with
    -- the record leaves the window even when its header could not be cleared
    | (ret, d) => (ret, ⟨d, n.ram.committed⟩)
  else (0, n)

/-- The loop of `spool_wipe`: `k` headers from slot `i` on are still to be cleared. -/
def wipeSlots : (k i : ℕ) → D → Int × D
  | 0, _, d => (0, d)
  | k + 1, i, d =>
      match drv.write blankSector (slotSector c i) 1 d with
      | (ret, d') => if ret = 0 then wipeSlots k (i + 1) d' else (ret, d')

/-- The empty window. -/
def Spool.cleared (s : Spool) : Spool :=
  { s with headSeq := 0, tailSeq := 0, recCount := 0, stats := { s.stats with count := 0 } }

def spoolWipe (n : Node D) : Int × Node D :=
  if n.ram.ready = false then (-ENODEV, n)
  else
    match wipeSlots drv c c.nslots 0 n.disk with
    -- RAM is cleared in any case
    | (ret, d) => (ret, ⟨d, n.ram.cleared⟩)

def spoolGetStats (n : Node D) : SpoolStats := n.ram.stats

/-- One call of the spool. -/
def spoolStep : SpoolOp → Node D → Answer × Node D
  | .push json, n =>
      let (ret, n') := spoolPush drv crc32Ieee c json n
      ((ret, none), n')
  | .peek bufSize, n =>
      let (ret, buf, n') := spoolPeek drv crc32Ieee c bufSize n
      ((ret, buf), n')
  | .commit, n =>
      let (ret, n') := spoolCommit drv c n
      ((ret, none), n')
  | .wipe, n =>
      let (ret, n') := spoolWipe drv c n
      ((ret, none), n')

/-! ## The ways through the functions

One equation for each path, on an arbitrary disk. -/

@[simp] theorem makeRoom_tailSeq (s : Spool) : (s.makeRoom c).tailSeq = s.tailSeq := by
  unfold Spool.makeRoom
  split <;> rfl

@[simp] theorem makeRoom_ready (s : Spool) : (s.makeRoom c).ready = s.ready := by
  unfold Spool.makeRoom
  split <;> rfl

/-- The slot write of `spool_push`. -/
def slotWrite (json : Bytes) (n : Node D) : Int × D :=
  drv.write (slotImage (pushHdr crc32Ieee n.ram.tailSeq json) json) (slotOf c n.ram.tailSeq)
    spoolSlotSectors n.disk

variable {drv crc32Ieee c}

theorem spoolPush_long {json : Bytes} {n : Node D} (hr : n.ram.ready = true)
    (hj : spoolPayloadMax < json.length) :
    spoolPush drv crc32Ieee c json n = (-EMSGSIZE,
      { n with ram := { n.ram with
          stats := { n.ram.stats with drops := n.ram.stats.drops + 1 } } }) := by
  rw [spoolPush, if_neg (by simp [hr]), if_pos hj]

theorem spoolPush_written {json : Bytes} {n : Node D} (hr : n.ram.ready = true)
    (hj : json.length ≤ spoolPayloadMax) {d : D} (hw : slotWrite drv crc32Ieee c json n = (0, d)) :
    spoolPush drv crc32Ieee c json n
      = (0, ⟨(drv.sync d).2, (n.ram.makeRoom c).appended⟩) := by
  unfold slotWrite at hw
  rw [spoolPush, if_neg (by simp [hr]), if_neg (by omega)]
  simp only [makeRoom_tailSeq, hw, if_true]

theorem spoolPush_failed {json : Bytes} {n : Node D} (hr : n.ram.ready = true)
    (hj : json.length ≤ spoolPayloadMax) {ret : Int} {d : D}
    (hw : slotWrite drv crc32Ieee c json n = (ret, d)) (hret : ret ≠ 0) :
    spoolPush drv crc32Ieee c json n = (ret, ⟨d, n.ram.makeRoom c⟩) := by
  unfold slotWrite at hw
  rw [spoolPush, if_neg (by simp [hr]), if_neg (by omega)]
  simp only [makeRoom_tailSeq, hw, if_neg hret]

theorem spoolCommit_some {n : Node D} (hr : n.ram.ready = true) (hc : 0 < n.ram.recCount)
    {ret : Int} {d : D} (hw : drv.write blankSector (slotOf c n.ram.headSeq) 1 n.disk = (ret, d)) :
    spoolCommit drv c n = (ret, ⟨d, n.ram.committed⟩) := by
  rw [spoolCommit, if_neg (by simp [hr]), if_pos hc, hw]

theorem spoolCommit_empty {n : Node D} (hr : n.ram.ready = true) (hc : n.ram.recCount = 0) :
    spoolCommit drv c n = (0, n) := by
  rw [spoolCommit, if_neg (by simp [hr]), if_neg (by rw [hc]; decide)]

/-- `spool_init` succeeds only through a complete scan. -/
theorem spoolInit_ok {n : Node D} (h : (spoolInit drv c n).1 = 0) :
    ∃ a d, (spoolInit drv c n).2 = ⟨d, n.ram.recover c a⟩ := by
  rw [spoolInit] at h ⊢
  generalize drv.init n.disk = r at h ⊢
  obtain ⟨ret, d⟩ := r
  by_cases hret : ret = 0
  · simp only [hret, ne_eq, not_true_eq_false, if_false] at h ⊢
    generalize scanSlots drv c c.nslots 0 d Scan.start = scan at h ⊢
    obtain ⟨_ | a, d'⟩ := scan
    · exact absurd h (by simp [ EIO])
    · exact ⟨a, d', rfl⟩
  · simp only [ne_eq, hret, not_false_eq_true, if_true] at h

end Functions

end IotcDemos
