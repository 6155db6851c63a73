import IotcDemos.Gateway.Window
import IotcDemos.Gateway.Recovery
import IotcDemos.Lib.CachedDisk
import IotcDemos.Lib.Crc32
import IotcDemos.Lib.Run

set_option autoImplicit false

/-! # Drained records on a disk with a write cache

`spool_push` flushes the write cache; `spool_commit` does not. A power cut can therefore lose
the cleared header of a drained record, which is then queued and sent again
(`drained_is_resent`). That is the only way: in a run in which no power cut loses a pending
write, a record whose commit returned 0 is never returned by `spool_peek` again
(`drained_never_resent`), from any disk image and with any number of reboots.

A record is identified by the sector of its header and the operation that wrote that sector.
-/

namespace IotcDemos

/-! ## Spools on devices seen through one another -/

section Hom

variable {D E : Type} {drv : DiskAccess D} {drv' : DiskAccess E} {f : D → E}
variable (crc32Ieee : Bytes → UInt32) (c : SpoolConfig)

def Node.map (f : D → E) (n : Node D) : Node E := ⟨f n.disk, n.ram⟩

@[simp] theorem map_disk (n : Node D) : (n.map f).disk = f n.disk := rfl

@[simp] theorem map_ram (n : Node D) : (n.map f).ram = n.ram := rfl

theorem readHdr_map (h : DiskHom drv drv' f) (sector : ℕ) (d : D) :
    readHdr drv' sector (f d) = ((readHdr drv sector d).1, f (readHdr drv sector d).2) := by
  rw [readHdr, readHdr, h.read]
  generalize drv.read sector 1 d = r
  obtain ⟨_ | buf, d'⟩ := r <;> rfl

theorem scanSlots_map (h : DiskHom drv drv' f) (k i : ℕ) (d : D) (a : Scan) :
    scanSlots drv' c k i (f d) a
      = ((scanSlots drv c k i d a).1, f (scanSlots drv c k i d a).2) := by
  induction k generalizing i d a with
  | zero => rfl
  | succ k ih =>
      rw [scanSlots, scanSlots, readHdr_map h]
      generalize readHdr drv (slotSector c i) d = r
      obtain ⟨_ | hdr, d'⟩ := r
      · rfl
      · exact ih (i + 1) d' (a.see hdr)

theorem spoolInit_map (h : DiskHom drv drv' f) (n : Node D) :
    spoolInit drv' c (n.map f) = ((spoolInit drv c n).1, (spoolInit drv c n).2.map f) := by
  rw [spoolInit, spoolInit, map_disk, map_ram, h.init]
  generalize drv.init n.disk = r
  obtain ⟨ret, d⟩ := r
  by_cases hret : ret = 0
  · simp only [hret, ne_eq, not_true_eq_false, if_false, scanSlots_map c h]
    generalize scanSlots drv c c.nslots 0 d Scan.start = scan
    obtain ⟨_ | a, d'⟩ := scan <;> rfl
  · simp only [ne_eq, hret, not_false_eq_true, if_true]
    rfl

theorem slotWrite_map (h : DiskHom drv drv' f) (json : Bytes) (n : Node D) :
    slotWrite drv' crc32Ieee c json (n.map f)
      = ((slotWrite drv crc32Ieee c json n).1, f (slotWrite drv crc32Ieee c json n).2) := by
  rw [slotWrite, map_ram, map_disk, h.write, slotWrite]

theorem spoolPush_map (h : DiskHom drv drv' f) (json : Bytes) (n : Node D) :
    spoolPush drv' crc32Ieee c json (n.map f)
      = ((spoolPush drv crc32Ieee c json n).1, (spoolPush drv crc32Ieee c json n).2.map f) := by
  rcases Bool.eq_false_or_eq_true n.ram.ready with hr | hr
  · by_cases hj : json.length ≤ spoolPayloadMax
    · have hw' := slotWrite_map crc32Ieee c h json n
      rcases hw : slotWrite drv crc32Ieee c json n with ⟨ret, d⟩
      rw [hw] at hw'
      by_cases hret : ret = 0
      · subst hret
        rw [spoolPush_written hr hj hw, spoolPush_written (n := n.map f) hr hj hw', h.sync]
        rfl
      · rw [spoolPush_failed hr hj hw hret, spoolPush_failed (n := n.map f) hr hj hw' hret]
        rfl
    · rw [spoolPush_long hr (by omega), spoolPush_long (n := n.map f) hr (by omega)]
      rfl
  · rw [spoolPush, spoolPush, map_ram, if_pos hr, if_pos hr]

theorem peekLoop_map (h : DiskHom drv drv' f) (bufSize k : ℕ) (n : Node D) :
    peekLoop drv' crc32Ieee c bufSize k (n.map f)
      = ((peekLoop drv crc32Ieee c bufSize k n).1, (peekLoop drv crc32Ieee c bufSize k n).2.1,
        (peekLoop drv crc32Ieee c bufSize k n).2.2.map f) := by
  induction k generalizing n with
  | zero => rfl
  | succ k ih =>
      rw [peekLoop, peekLoop, map_disk, map_ram, h.read]
      generalize drv.read (slotOf c n.ram.headSeq) spoolSlotSectors n.disk = r
      obtain ⟨_ | buf, d⟩ := r
      · rfl
      · by_cases hacc : acceptable crc32Ieee buf n.ram.headSeq bufSize = true
        · simp only [hacc, if_true]
          rfl
        · simp only [hacc, Bool.false_eq_true, if_false]
          exact ih ⟨d, n.ram.skip⟩

theorem spoolPeek_map (h : DiskHom drv drv' f) (bufSize : ℕ) (n : Node D) :
    spoolPeek drv' crc32Ieee c bufSize (n.map f)
      = ((spoolPeek drv crc32Ieee c bufSize n).1, (spoolPeek drv crc32Ieee c bufSize n).2.1,
        (spoolPeek drv crc32Ieee c bufSize n).2.2.map f) := by
  rw [spoolPeek, spoolPeek, map_ram]
  by_cases hr : n.ram.ready = false
  · rw [if_pos hr, if_pos hr]
  · rw [if_neg hr, if_neg hr]
    exact peekLoop_map crc32Ieee c h bufSize n.ram.recCount.toNat n

theorem spoolCommit_map (h : DiskHom drv drv' f) (n : Node D) :
    spoolCommit drv' c (n.map f)
      = ((spoolCommit drv c n).1, (spoolCommit drv c n).2.map f) := by
  rw [spoolCommit, spoolCommit, map_ram, map_disk]
  by_cases hr : n.ram.ready = false
  · rw [if_pos hr, if_pos hr]
  · rw [if_neg hr, if_neg hr]
    by_cases hc : n.ram.recCount > 0
    · rw [if_pos hc, if_pos hc, h.write]
      rfl
    · rw [if_neg hc, if_neg hc]

end Hom

/-! ## Runs with power cuts -/

/-- The sector of a record's header, and the operation that wrote it. -/
abbrev RecId := ℕ × ℕ

/-- A call of the spool; the start of the program, which runs `spool_init`; or a power cut, after
which `keep` says which pending writes reached the disk. -/
inductive PowerOp where
  | push (json : Bytes)
  | peek (bufSize : ℕ)
  | commit
  | boot
  | cut (keep : ℕ → Bool)

/-- What a run shows: the records that `spool_peek` returned, the records that `spool_commit`
committed with return value 0, and the boots. -/
inductive Event where
  | quiet
  | returned (id : RecId)
  | committed (id : RecId)
  | booted
  deriving DecidableEq

open CachedDisk (cached)

section Power

variable (crc32Ieee : Bytes → UInt32) (c : SpoolConfig)

/-- The record in the slot at the head of the window. -/
def frontId (s : Spool) (d : Disk) : RecId :=
  (slotOf c s.headSeq, (d.cell (slotOf c s.headSeq)).stamp)

/-- One operation; it gets the next operation number. -/
def powerStep (op : PowerOp) (n : Node CachedDisk) : Event × Node CachedDisk :=
  let m : Node CachedDisk := ⟨n.disk.tick, n.ram⟩
  match op with
  | .push json => (.quiet, (spoolPush cached crc32Ieee c json m).2)
  | .peek bufSize =>
      let (_, buf, n') := spoolPeek cached crc32Ieee c bufSize m
      (if buf.isSome then .returned (frontId c n'.ram n'.disk.view) else .quiet, n')
  | .commit =>
      let (ret, n') := spoolCommit cached c m
      -- the record committed is the one that was in front
      (if ret = 0 ∧ 0 < n.ram.recCount then .committed (frontId c n.ram n.disk.view) else .quiet,
        n')
  | .boot => (.booted, (spoolInit cached c ⟨m.disk, Spool.off⟩).2)
  | .cut keep => (.quiet, ⟨m.disk.cut keep, Spool.off⟩)

/-- No power cut of the run loses a pending write. -/
def NoLoss (ops : List PowerOp) (n : Node CachedDisk) : Prop :=
  ∀ i keep, ops[i]? = some (.cut keep) →
    ∀ k, k < (runState (powerStep crc32Ieee c) (ops.take i) n).disk.pending.length → keep k = true

/-- No record that was committed is returned after a later boot. -/
def NeverResent (events : List Event) : Prop :=
  ∀ id, ¬ List.Sublist [Event.committed id, .booted, .returned id] events

/-! ## Stamps only grow -/

/-- Between `d` and `d'` sectors were only written by the operation under way. -/
structure Fresh (d d' : Disk) : Prop where
  clock : d'.clock = d.clock
  cell : ∀ a, d'.cell a = d.cell a ∨ (d'.cell a).stamp = d.clock

theorem fresh_refl (d : Disk) : Fresh d d := ⟨rfl, fun _ => Or.inl rfl⟩

theorem fresh_writeSel (buf : Bytes) (start count : ℕ) (d : Disk) :
    Fresh d (d.writeSel (fun _ => true) buf start count) := by
  refine ⟨rfl, fun a => ?_⟩
  by_cases ha : start ≤ a ∧ a < start + count
  · have hcell := Disk.writeSel_cell_sel (fun _ => true) buf start d
      (show a - start < count by omega) rfl
    rw [Nat.add_sub_of_le ha.1] at hcell
    exact Or.inr (by rw [hcell])
  · exact Or.inl (Disk.writeSel_cell_other _ _ _ (by omega))

theorem spoolPush_fresh (json : Bytes) (n : Node Disk) :
    Fresh n.disk (spoolPush Disk.reliable crc32Ieee c json n).2.disk := by
  rcases Bool.eq_false_or_eq_true n.ram.ready with hr | hr
  · by_cases hj : json.length ≤ spoolPayloadMax
    · rw [spoolPush_eq crc32Ieee c hr hj]
      exact fresh_writeSel _ _ _ _
    · rw [spoolPush_long hr (by omega)]
      exact fresh_refl _
  · rw [spoolPush, if_pos hr]
    exact fresh_refl _

/-- A commit writes the header at the head of the window. -/
theorem spoolCommit_fresh (n : Node Disk) :
    Fresh n.disk (spoolCommit Disk.reliable c n).2.disk ∧
    ((spoolCommit Disk.reliable c n).1 = 0 → 0 < n.ram.recCount →
      ((spoolCommit Disk.reliable c n).2.disk.cell (slotOf c n.ram.headSeq)).stamp
        = n.disk.clock) := by
  rcases Bool.eq_false_or_eq_true n.ram.ready with hr | hr
  · by_cases hc : 0 < n.ram.recCount
    · rw [spoolCommit_eq c hr hc]
      refine ⟨fresh_writeSel _ _ _ _, fun _ _ => ?_⟩
      have hcell := Disk.writeSel_cell_sel (fun _ => true) blankSector
        (slotSector c (slotIdx c n.ram.headSeq)) n.disk (show 0 < 1 by decide) rfl
      rw [Nat.add_zero] at hcell
      rw [blanked, slotOf_eq, hcell]
    · rw [spoolCommit, if_neg (by simp [hr]), if_neg hc]
      exact ⟨fresh_refl _, fun _ h => absurd h hc⟩
  · rw [spoolCommit, if_pos hr]
    exact ⟨fresh_refl _, fun h => absurd h (by simp [ENODEV])⟩

/-! ## One operation, seen through the cache -/

theorem spoolPeek_view (bufSize : ℕ) (n : Node CachedDisk) :
    (spoolPeek cached crc32Ieee c bufSize n).2.2.disk.view = n.disk.view := by
  have hmap := spoolPeek_map crc32Ieee c CachedDisk.view_hom bufSize n
  have hdisk := spoolPeek_disk crc32Ieee c bufSize (Node.map CachedDisk.view n)
  rw [hmap] at hdisk
  exact hdisk

/-- Unless it is a cut that loses a write, an operation changes only sectors it writes, as the
program sees the disk. -/
theorem powerStep_fresh {op : PowerOp} {n : Node CachedDisk}
    (hkeep : ∀ keep, op = .cut keep → ∀ k, k < n.disk.pending.length → keep k = true) :
    Fresh n.disk.view.tick (powerStep crc32Ieee c op n).2.disk.view := by
  rw [← CachedDisk.view_tick]
  have hhom := CachedDisk.view_hom
  cases op with
  | push json =>
      have hmap := spoolPush_map crc32Ieee c hhom json ⟨n.disk.tick, n.ram⟩
      have hfresh := spoolPush_fresh crc32Ieee c json (Node.map CachedDisk.view ⟨n.disk.tick, n.ram⟩)
      rw [hmap] at hfresh
      exact hfresh
  | peek bufSize =>
      show Fresh _ (spoolPeek cached crc32Ieee c bufSize ⟨n.disk.tick, n.ram⟩).2.2.disk.view
      rw [spoolPeek_view]
      exact fresh_refl _
  | commit =>
      have hmap := spoolCommit_map c hhom ⟨n.disk.tick, n.ram⟩
      have hfresh := (spoolCommit_fresh c (Node.map CachedDisk.view ⟨n.disk.tick, n.ram⟩)).1
      rw [hmap] at hfresh
      exact hfresh
  | boot =>
      have hmap := spoolInit_map c hhom ⟨n.disk.tick, Spool.off⟩
      have hdisk := congrArg (fun r => r.2.disk)
        (spoolInit_eq c (Node.map CachedDisk.view ⟨n.disk.tick, Spool.off⟩))
      rw [hmap] at hdisk
      change (spoolInit cached c ⟨n.disk.tick, Spool.off⟩).2.disk.view = n.disk.tick.view at hdisk
      show Fresh _ (spoolInit cached c ⟨n.disk.tick, Spool.off⟩).2.disk.view
      rw [hdisk]
      exact fresh_refl _
  | cut keep =>
      show Fresh n.disk.tick.view (n.disk.tick.cut keep).view
      rw [CachedDisk.view_cut (d := n.disk.tick) (hkeep keep rfl)]
      exact fresh_refl _

/-- A returned record is in the slot it was returned from. -/
theorem powerStep_returned {op : PowerOp} {n : Node CachedDisk} {id : RecId}
    (h : (powerStep crc32Ieee c op n).1 = .returned id) :
    (n.disk.view.cell id.1).stamp = id.2 := by
  cases op with
  | push json => exact absurd h (by simp [powerStep])
  | peek bufSize =>
      change (if (spoolPeek cached crc32Ieee c bufSize ⟨n.disk.tick, n.ram⟩).2.1.isSome then
        Event.returned (frontId c _
          (spoolPeek cached crc32Ieee c bufSize ⟨n.disk.tick, n.ram⟩).2.2.disk.view)
        else Event.quiet) = .returned id at h
      rw [spoolPeek_view, CachedDisk.view_tick] at h
      split at h
      · rw [← Event.returned.inj h]
        rfl
      · exact absurd h (by simp)
  | commit =>
      simp only [powerStep] at h
      split at h <;> exact absurd h (by simp)
  | boot => exact absurd h (by simp [powerStep])
  | cut keep => exact absurd h (by simp [powerStep])

/-- After a commit with return value 0 the record's header sector belongs to the commit. -/
theorem powerStep_committed {op : PowerOp} {n : Node CachedDisk} {id : RecId}
    (h : (powerStep crc32Ieee c op n).1 = .committed id) :
    (n.disk.view.cell id.1).stamp = id.2 ∧
    ((powerStep crc32Ieee c op n).2.disk.view.cell id.1).stamp = n.disk.view.clock + 1 := by
  cases op with
  | push json => exact absurd h (by simp [powerStep])
  | peek bufSize =>
      simp only [powerStep] at h
      split at h <;> exact absurd h (by simp)
  | commit =>
      have hmap := spoolCommit_map c CachedDisk.view_hom ⟨n.disk.tick, n.ram⟩
      have hfresh := (spoolCommit_fresh c (Node.map CachedDisk.view ⟨n.disk.tick, n.ram⟩)).2
      rw [hmap] at hfresh
      change (if (spoolCommit cached c ⟨n.disk.tick, n.ram⟩).1 = 0 ∧ 0 < n.ram.recCount then
        Event.committed (frontId c n.ram n.disk.view) else .quiet) = .committed id at h
      split at h
      · rename_i hok
        rw [← Event.committed.inj h]
        refine ⟨rfl, (hfresh hok.1 hok.2).trans ?_⟩
        show n.disk.tick.view.clock = _
        rw [CachedDisk.view_tick, Disk.tick_clock]
      · exact absurd h (by simp)
  | boot => exact absurd h (by simp [powerStep])
  | cut keep => exact absurd h (by simp [powerStep])

/-! ## Whole runs -/

variable {crc32Ieee c}

theorem NoLoss.head {op : PowerOp} {ops : List PowerOp} {n : Node CachedDisk}
    (h : NoLoss crc32Ieee c (op :: ops) n) :
    ∀ keep, op = .cut keep → ∀ k, k < n.disk.pending.length → keep k = true := by
  rintro keep rfl
  exact h 0 keep rfl

theorem NoLoss.tail {op : PowerOp} {ops : List PowerOp} {n : Node CachedDisk}
    (h : NoLoss crc32Ieee c (op :: ops) n) :
    NoLoss crc32Ieee c ops (powerStep crc32Ieee c op n).2 := by
  intro i keep hi
  exact h (i + 1) keep hi

/-- No sector carries a stamp from the future. -/
def Stamped (d : Disk) : Prop := ∀ a, (d.cell a).stamp ≤ d.clock

/-- The header of the record has been overwritten since. -/
def Spent (id : RecId) (d : Disk) : Prop := id.2 < (d.cell id.1).stamp

theorem Stamped.fresh {d d' : Disk} (h : Stamped d) (hf : Fresh d.tick d') : Stamped d' := by
  intro a
  rw [hf.clock, Disk.tick_clock]
  rcases hf.cell a with ha | ha
  · rw [ha]
    exact Nat.le_succ_of_le (h a)
  · rw [ha, Disk.tick_clock]

theorem Spent.fresh {d d' : Disk} {id : RecId} (h : Spent id d) (hs : Stamped d)
    (hf : Fresh d.tick d') : Spent id d' := by
  unfold Spent at h ⊢
  have hle := hs id.1
  rcases hf.cell id.1 with ha | ha
  · rw [ha]
    exact h
  · rw [ha, Disk.tick_clock]
    omega

/-- A record whose header has been overwritten is not returned any more. -/
theorem spent_not_returned {ops : List PowerOp} {n : Node CachedDisk} {id : RecId}
    (hs : Stamped n.disk.view) (hid : Spent id n.disk.view) (hloss : NoLoss crc32Ieee c ops n) :
    Event.returned id ∉ (run (powerStep crc32Ieee c) ops n).1 := by
  induction ops generalizing n with
  | nil => exact List.not_mem_nil
  | cons op ops ih =>
      have hf := powerStep_fresh crc32Ieee c hloss.head
      intro hmem
      rcases List.mem_cons.mp hmem with hhead | htail
      · have := powerStep_returned crc32Ieee c hhead.symm
        unfold Spent at hid
        omega
      · exact ih (hs.fresh hf) (hid.fresh hs hf) hloss.tail htail

theorem neverResent_run {ops : List PowerOp} {n : Node CachedDisk} (hs : Stamped n.disk.view)
    (hloss : NoLoss crc32Ieee c ops n) :
    NeverResent (run (powerStep crc32Ieee c) ops n).1 := by
  induction ops generalizing n with
  | nil =>
      intro id h
      exact absurd (List.sublist_nil.mp h) (by simp)
  | cons op ops ih =>
      have hf := powerStep_fresh crc32Ieee c hloss.head
      intro id h
      rcases List.cons_sublist_cons'.mp h with h | ⟨hcommit, h⟩
      · exact ih (hs.fresh hf) hloss.tail id h
      · -- from the commit on, the header of the record is newer than the record
        obtain ⟨hold, hnew⟩ := powerStep_committed crc32Ieee c hcommit.symm
        have hspent : Spent id (powerStep crc32Ieee c op n).2.disk.view := by
          unfold Spent
          have hle := hs id.1
          omega
        refine spent_not_returned (hs.fresh hf) hspent hloss.tail ?_
        exact h.subset (by simp)

/-- **Drained records are not sent again**, from any disk image, in any run of pushes, peeks,
commits, boots and power cuts in which no power cut loses a write still in the cache. -/
theorem drained_never_resent (crc32Ieee : Bytes → UInt32) (c : SpoolConfig) (img : ℕ → Sector)
    (ops : List PowerOp)
    (hloss : NoLoss crc32Ieee c ops ⟨CachedDisk.ofImage img, Spool.off⟩) :
    NeverResent
      (run (powerStep crc32Ieee c) ops ⟨CachedDisk.ofImage img, Spool.off⟩).1 :=
  neverResent_run (fun _ => Nat.le_refl _) hloss

/-- A disk of zeros with an empty cache. -/
def zeroDisk : CachedDisk := CachedDisk.ofImage fun _ => Sector.ofBytes []

/-- The push after the commit flushes the cleared header: the cut finds an empty cache. -/
theorem drained_never_resent_flushed :
    let ops : List PowerOp := [.boot, .push [97], .peek 1520, .commit, .push [98],
      .cut fun _ => false, .boot, .peek 1520]
    NoLoss Crc32.ieee oneSlot ops ⟨zeroDisk, Spool.off⟩ ∧
    NeverResent (run (powerStep Crc32.ieee oneSlot) ops ⟨zeroDisk, Spool.off⟩).1 := by
  intro ops
  have hloss : NoLoss Crc32.ieee oneSlot ops ⟨zeroDisk, Spool.off⟩ := by
    intro i keep hi
    have hpending : (runState (powerStep Crc32.ieee oneSlot) (ops.take 5)
        ⟨zeroDisk, Spool.off⟩).disk.pending.length = 0 := by
      decide +kernel
    -- the only cut is operation 5, and nothing is pending there
    match i, hi with
    | 5, _ =>
        intro k hk
        rw [hpending] at hk
        exact absurd hk (Nat.not_lt_zero k)
    | 0, hi | 1, hi | 2, hi | 3, hi | 4, hi | 6, hi | 7, hi => simp [ops] at hi
    | i + 8, hi => simp [ops] at hi
  exact ⟨hloss, drained_never_resent Crc32.ieee oneSlot (fun _ => Sector.ofBytes []) ops hloss⟩

/-- Power goes right after a commit, and the cleared header was still in the cache: the record
that was committed with return value 0 is returned again. -/
theorem drained_is_resent :
    let events := (run (powerStep Crc32.ieee oneSlot) [.boot, .push [97], .peek 1520, .commit,
      .cut fun _ => false, .boot, .peek 1520] ⟨zeroDisk, Spool.off⟩).1
    events = [.booted, .quiet, .returned (0, 2), .committed (0, 2), .quiet, .booted,
      .returned (0, 2)] ∧
    ¬ NeverResent events := by
  intro events
  have hevents : events = [.booted, .quiet, .returned (0, 2), .committed (0, 2), .quiet, .booted,
      .returned (0, 2)] := by
    decide +kernel
  refine ⟨hevents, fun hnever => hnever (0, 2) ?_⟩
  rw [hevents]
  decide

end Power

end IotcDemos
