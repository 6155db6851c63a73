import IotcDemos.Lib.Disk

set_option autoImplicit false

/-! # A disk with a volatile write cache

Writes go to the cache and `sync` makes all of them durable. A power cut loses the RAM and any
of the writes made since the last `sync`. `view` is the disk as a program sees it while the
power is on. Through `view`, the cached disk behaves as the disk without a cache (`view_hom`),
until a cut that loses a write.
-/

namespace IotcDemos

/-! ## Devices seen through one another -/

/-- `f` maps the states of one device to those of another that answers alike. -/
structure DiskHom {D E : Type} (drv : DiskAccess D) (drv' : DiskAccess E) (f : D → E) : Prop where
  init : ∀ d, drv'.init (f d) = ((drv.init d).1, f (drv.init d).2)
  read : ∀ start count d,
    drv'.read start count (f d) = ((drv.read start count d).1, f (drv.read start count d).2)
  write : ∀ buf start count d, drv'.write buf start count (f d)
    = ((drv.write buf start count d).1, f (drv.write buf start count d).2)
  sync : ∀ d, drv'.sync (f d) = ((drv.sync d).1, f (drv.sync d).2)

/-- A write in the cache, with the number of the operation that made it. -/
structure SectorWrite where
  buf : Bytes
  start : ℕ
  count : ℕ
  stamp : ℕ

/-- The write reaches the disk. -/
def SectorWrite.apply (d : Disk) (w : SectorWrite) : Disk :=
  { (({ d with clock := w.stamp } : Disk).writeSel (fun _ => true) w.buf w.start w.count) with
    clock := d.clock }

structure CachedDisk where
  durable : Disk
  /-- The writes since the last `sync`, in order. -/
  pending : List SectorWrite

namespace CachedDisk

/-- The disk as the program sees it. -/
def view (d : CachedDisk) : Disk := d.pending.foldl SectorWrite.apply d.durable

/-- Every access succeeds; writes are cached. -/
def cached : DiskAccess CachedDisk where
  init d := (0, d)
  read start count d := (.ok (d.view.read start count), d)
  write buf start count d :=
    (0, { d with pending := d.pending ++ [⟨buf, start, count, d.durable.clock⟩] })
  sync d := (0, ⟨d.view, []⟩)

/-- A power cut: of the pending writes, those that `keep` selects by position reach the disk. -/
def cut (keep : ℕ → Bool) (d : CachedDisk) : CachedDisk where
  durable :=
    (d.pending.zipIdx.filterMap fun w => if keep w.2 then some w.1 else none).foldl
      SectorWrite.apply d.durable
  pending := []

/-- The disk with the sectors `img`, nothing in the cache. -/
def ofImage (img : ℕ → Sector) : CachedDisk := ⟨⟨fun a => ⟨img a, 0⟩, 0⟩, []⟩

/-- The device at the start of the next operation. -/
def tick (d : CachedDisk) : CachedDisk := { d with durable := d.durable.tick }

theorem foldl_clock (ws : List SectorWrite) (d : Disk) :
    (ws.foldl SectorWrite.apply d).clock = d.clock := by
  induction ws generalizing d with
  | nil => rfl
  | cons w ws ih => exact ih _

@[simp] theorem view_clock (d : CachedDisk) : d.view.clock = d.durable.clock := foldl_clock _ _

theorem foldl_tick (ws : List SectorWrite) (d : Disk) :
    ws.foldl SectorWrite.apply d.tick = (ws.foldl SectorWrite.apply d).tick := by
  induction ws generalizing d with
  | nil => rfl
  | cons w ws ih => exact ih (SectorWrite.apply d w)

@[simp] theorem view_tick (d : CachedDisk) : d.tick.view = d.view.tick := foldl_tick _ _

/-- A write made now changes the view at once. -/
theorem apply_view (d : CachedDisk) (buf : Bytes) (start count : ℕ) :
    SectorWrite.apply d.view ⟨buf, start, count, d.durable.clock⟩
      = d.view.writeSel (fun _ => true) buf start count := by
  rw [SectorWrite.apply, ← view_clock d]
  rfl

/-- **Through `view` the cache is invisible.** -/
theorem view_hom : DiskHom cached Disk.reliable view where
  init _ := rfl
  read _ _ _ := rfl
  write buf start count d := by
    have hview : view { d with pending := d.pending ++ [⟨buf, start, count, d.durable.clock⟩] }
        = d.view.writeSel (fun _ => true) buf start count := by
      rw [← apply_view, view, List.foldl_append]
      rfl
    show (0, d.view.writeSel (fun _ => true) buf start count) = (0, view _)
    rw [← hview]
    rfl
  sync _ := rfl

/-- A cut that keeps every pending write does not change the view. -/
theorem view_cut {keep : ℕ → Bool} {d : CachedDisk}
    (h : ∀ k, k < d.pending.length → keep k = true) : (d.cut keep).view = d.view := by
  have hall : (d.pending.zipIdx.filterMap fun w => if keep w.2 then some w.1 else none)
      = d.pending := by
    have hmap : d.pending.zipIdx.filterMap (fun w => if keep w.2 then some w.1 else none)
        = d.pending.zipIdx.filterMap (fun w => some w.1) := by
      apply List.filterMap_congr
      rintro ⟨w, k⟩ hw
      have hk := List.snd_lt_of_mem_zipIdx hw
      rw [if_pos (h k (by simpa using hk))]
    rw [hmap, List.filterMap_eq_map', List.zipIdx_map_fst]
  show (d.cut keep).durable = d.view
  rw [cut, hall, view]

end CachedDisk

end IotcDemos
