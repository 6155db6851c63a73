import IotcDemos.Lib.Bytes

set_option autoImplicit false

/-! # Block devices

`DiskAccess` is the interface a program sees of a block device whose sectors hold 512 bytes:
every access answers with a status (`0` for success) and leaves a new device state. A program
written over `DiskAccess D` can be run on any device: one that always works (`reliable`), one
that a power cut stops in the middle of a write (`torn`), or an arbitrary one.

The sectors of `Disk` carry a `stamp`: the number of the operation that last wrote the sector.
The program cannot see stamps. They give every piece of stored data an identity, which the
statements about "this record" and "this sector is never written" are made with.
-/

namespace IotcDemos

/-- The contents of one sector. -/
structure Sector where
  bytes : Bytes
  size : bytes.length = 512

/-- The first 512 bytes of `b`, filled up with zeros. -/
def Sector.ofBytes (b : Bytes) : Sector :=
  ⟨(b ++ List.replicate 512 0).take 512, by
    rw [List.length_take, List.length_append, List.length_replicate]
    omega⟩

theorem Sector.ofBytes_bytes {b : Bytes} (h : 512 ≤ b.length) :
    (Sector.ofBytes b).bytes = b.take 512 := by
  show (b ++ List.replicate 512 0).take 512 = b.take 512
  rw [List.take_append_of_le_length h]

/-- A sector on the device, with the number of the operation that wrote it. -/
structure Cell where
  sector : Sector
  stamp : ℕ

/-- The accesses to a block device: a status or the bytes read, and the device afterwards.
Sectors are addressed by number; `count` consecutive sectors are moved at a time. -/
structure DiskAccess (D : Type) where
  init : D → Int × D
  read : (start count : ℕ) → D → Except Int Bytes × D
  write : Bytes → (start count : ℕ) → D → Int × D
  sync : D → Int × D

/-- Every access keeps `P`. -/
structure DiskAccess.Keeps {D : Type} (drv : DiskAccess D) (P : D → Prop) : Prop where
  init : ∀ d, P d → P (drv.init d).2
  read : ∀ start count d, P d → P (drv.read start count d).2
  write : ∀ buf start count d, P d → P (drv.write buf start count d).2
  sync : ∀ d, P d → P (drv.sync d).2

/-- A device state; `clock` is the number of the operation being carried out. -/
structure Disk where
  cell : ℕ → Cell
  clock : ℕ

namespace Disk

def read (start count : ℕ) (d : Disk) : Bytes :=
  (List.range count).flatMap fun k => (d.cell (start + k)).sector.bytes

/-- Write those of the `count` sectors of `buf` that `sel` selects. -/
def writeSel (sel : ℕ → Bool) (buf : Bytes) (start count : ℕ) (d : Disk) : Disk :=
  { d with
    cell := fun a =>
      if start ≤ a ∧ a < start + count ∧ sel (a - start) = true then
        ⟨Sector.ofBytes (buf.drop (512 * (a - start))), d.clock⟩
      else d.cell a }

/-- The device on which a write reaches only the sectors selected by `sel`. -/
def torn (sel : ℕ → Bool) : DiskAccess Disk where
  init d := (0, d)
  read start count d := (.ok (d.read start count), d)
  write buf start count d := (0, d.writeSel sel buf start count)
  sync d := (0, d)

/-- The device on which every access succeeds. -/
def reliable : DiskAccess Disk := torn fun _ => true

/-- A disk of zeros. -/
def blank : Disk := ⟨fun _ => ⟨Sector.ofBytes [], 0⟩, 0⟩

/-- The device at the start of the next operation. -/
def tick (d : Disk) : Disk := { d with clock := d.clock + 1 }

@[simp] theorem tick_cell (d : Disk) : d.tick.cell = d.cell := rfl

@[simp] theorem tick_clock (d : Disk) : d.tick.clock = d.clock + 1 := rfl

@[simp] theorem tick_read (d : Disk) (start count : ℕ) :
    d.tick.read start count = d.read start count := rfl

@[simp] theorem writeSel_clock (sel : ℕ → Bool) (buf : Bytes) (start count : ℕ) (d : Disk) :
    (d.writeSel sel buf start count).clock = d.clock := rfl

/-- A sector outside the written range is unchanged. -/
theorem writeSel_cell_other (sel : ℕ → Bool) (buf : Bytes) {start count a : ℕ} (d : Disk)
    (h : a < start ∨ start + count ≤ a) :
    (d.writeSel sel buf start count).cell a = d.cell a := by
  rw [writeSel]
  exact if_neg (by omega)

theorem writeSel_cell_sel (sel : ℕ → Bool) (buf : Bytes) (start : ℕ) {count k : ℕ} (d : Disk)
    (hk : k < count) (hs : sel k = true) :
    (d.writeSel sel buf start count).cell (start + k)
      = ⟨Sector.ofBytes (buf.drop (512 * k)), d.clock⟩ := by
  rw [writeSel]
  have hsub : start + k - start = k := by omega
  simp only [hsub]
  exact if_pos ⟨by omega, by omega, hs⟩

theorem writeSel_cell_unsel {sel : ℕ → Bool} (buf : Bytes) {start count k : ℕ} (d : Disk)
    (hs : sel k = false) :
    (d.writeSel sel buf start count).cell (start + k) = d.cell (start + k) := by
  rw [writeSel]
  have hsub : start + k - start = k := by omega
  simp only [hsub]
  exact if_neg (by simp [hs])

theorem read_congr {d d' : Disk} {start count : ℕ}
    (h : ∀ k, k < count → d.cell (start + k) = d'.cell (start + k)) :
    d.read start count = d'.read start count := by
  rw [read, read]
  apply List.flatMap_congr
  intro k hk
  rw [h k (List.mem_range.mp hk)]

@[simp] theorem read_length (d : Disk) (start count : ℕ) :
    (d.read start count).length = 512 * count := by
  induction count with
  | zero => rfl
  | succ n ih =>
      have hstep : d.read start (n + 1)
          = d.read start n ++ (d.cell (start + n)).sector.bytes := by
        rw [read, List.range_succ, List.flatMap_append]
        simp [read]
      rw [hstep, List.length_append, ih, (d.cell (start + n)).sector.size]
      ring

/-- The bytes read begin with the first sector. -/
theorem byteAt_read {d : Disk} {start count i : ℕ} (hc : 0 < count) (hi : i < 512) :
    byteAt (d.read start count) i = byteAt (d.cell start).sector.bytes i := by
  obtain ⟨n, rfl⟩ : ∃ n, count = n + 1 := ⟨count - 1, by omega⟩
  have hsplit : d.read start (n + 1)
      = (d.cell start).sector.bytes ++ d.read (start + 1) n := by
    rw [read, List.range_succ_eq_map, List.flatMap_cons, List.flatMap_map, read]
    congr 1
    apply List.flatMap_congr
    intro k _
    rw [Nat.succ_eq_add_one, Nat.add_right_comm, ← Nat.add_assoc]
  rw [hsplit, byteAt_append_left (by rw [(d.cell start).sector.size]; exact hi)]

/-- What was written to the whole range is what is read from it. -/
theorem read_writeSel_all (buf : Bytes) (start count : ℕ) (d : Disk)
    (hbuf : buf.length = 512 * count) :
    (d.writeSel (fun _ => true) buf start count).read start count = buf := by
  have key : ∀ n, n ≤ count →
      (d.writeSel (fun _ => true) buf start count).read start n = buf.take (512 * n) := by
    intro n
    induction n with
    | zero => intro _; rfl
    | succ n ih =>
        intro hn
        rw [read, List.range_succ, List.flatMap_append]
        have hlen : 512 ≤ (buf.drop (512 * n)).length := by
          rw [List.length_drop]
          omega
        have hlast := writeSel_cell_sel (fun _ => true) buf start d (show n < count by omega) rfl
        have hih := ih (by omega)
        rw [read] at hih
        simp only [List.flatMap_cons, List.flatMap_nil, List.append_nil]
        rw [hih, hlast, Sector.ofBytes_bytes hlen, ← List.take_add]
        congr 1
  rw [key count (Nat.le_refl _), ← hbuf, List.take_length]

end Disk

end IotcDemos
