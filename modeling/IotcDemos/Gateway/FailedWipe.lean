import IotcDemos.Gateway.Refill
import IotcDemos.Gateway.Main
import IotcDemos.Lib.FaultyDisk

set_option autoImplicit false

/-! # A wipe that fails

`spool_wipe` stops at the first header it cannot clear, but restarts the numbering in any case. The
old headers that survive meet the new ones in the next `spool_init`. The records pushed after the
wipe survive a reboot exactly when `RestartSafe` holds and none of them is empty
(`failed_wipe_iff`): the ring has been refilled, or no surviving header has a number from `NSLOTS`
on.
-/

namespace IotcDemos

section FailedWipe

variable (crc32Ieee : Bytes → UInt32) (c : SpoolConfig)

/-! ## The spool on a faulty disk -/

/-- One call on a disk with faults; the call gets the next operation number. -/
def faultyCall (op : SpoolOp) (n : Node FaultyDisk) : Answer × Node FaultyDisk :=
  spoolStep FaultyDisk.faulty crc32Ieee c op { n with disk := n.disk.tick }

def faultyStep : RebootOp → Node FaultyDisk → Answer × Node FaultyDisk
  | .call op, n => faultyCall crc32Ieee c op n
  | .reboot, n =>
      let (ret, n') := spoolInit FaultyDisk.faulty c ⟨n.disk, Spool.off⟩
      ((ret, none), n')

/-- Before the first start: a disk with the sectors `image`, on which accesses fail by `plan`. -/
def powerOn (image : ℕ → Sector) (plan : ℕ → Option Fault) : Node FaultyDisk :=
  ⟨⟨Disk.holding image, plan, 0⟩, Spool.off⟩

/-- A wipe that starts on `d` clears the header of slot `i`: the writes before have succeeded, and
this one reaches its sector. -/
def wipeClears : (i : ℕ) → FaultyDisk → Bool
  | 0, d => d.reached 0
  | i + 1, d => decide (d.status = 0) && wipeClears i d.next

/-- The records `jsons` pushed one after the other, the first by operation `t`. -/
def stamped : ℕ → List Bytes → List Entry
  | _, [] => []
  | t, json :: jsons => (t, json) :: stamped (t + 1) jsons

/-- After a wipe in the state `n` and `m` pushes, the records in the ring have the numbers that
`spool_init` expects. -/
def RestartSafe (n : Node FaultyDisk) (m : ℕ) : Prop :=
  m % 2 ^ 32 = 0 ∨ c.nslots ≤ m % 2 ^ 32 ∨
  (m < c.nslots ∧ ∀ i, m ≤ i → i < c.nslots → wipeClears i n.disk = false →
    (hdrAt c n.disk.disk i).counts = true → (hdrAt c n.disk.disk i).seq.toNat < c.nslots)

variable {crc32Ieee c}

theorem length_stamped (t : ℕ) (jsons : List Bytes) : (stamped t jsons).length = jsons.length := by
  induction jsons generalizing t with
  | nil => rfl
  | cons json jsons ih => rw [stamped, List.length_cons, ih, List.length_cons]

theorem map_snd_stamped (t : ℕ) (jsons : List Bytes) : (stamped t jsons).map Prod.snd = jsons := by
  induction jsons generalizing t with
  | nil => rfl
  | cons json jsons ih => rw [stamped, List.map_cons, ih]

/-! ## What a wipe leaves -/

/-- The disk after the write of one header, as far as it went. -/
def headerWrite (c : SpoolConfig) (i : ℕ) (d : FaultyDisk) : FaultyDisk :=
  { d.next with disk := d.disk.writeSel d.reached blankSector (slotSector c i) 1 }

theorem wipeSlots_succ (k i : ℕ) (d : FaultyDisk) :
    wipeSlots FaultyDisk.faulty c (k + 1) i d
      = if d.status = 0 then wipeSlots FaultyDisk.faulty c k (i + 1) (headerWrite c i d)
        else (d.status, headerWrite c i d) := rfl

/-- Whether a wipe clears a header depends on the faults to come only. -/
theorem wipeClears_congr (d d' : FaultyDisk) (hplan : d'.plan = d.plan) (hused : d'.used = d.used)
    (i : ℕ) : wipeClears i d' = wipeClears i d := by
  have hfault : ∀ {e e' : FaultyDisk}, e'.plan = e.plan → e'.used = e.used → e'.fault = e.fault :=
    fun hp hu => by rw [FaultyDisk.fault, FaultyDisk.fault, hp, hu]
  induction i generalizing d d' with
  | zero => rw [wipeClears, wipeClears, FaultyDisk.reached, FaultyDisk.reached, hfault hplan hused]
  | succ i ih =>
      have hnext : wipeClears i d'.next = wipeClears i d.next :=
        ih d.next d'.next hplan (congrArg Nat.succ hused)
      rw [wipeClears, wipeClears, FaultyDisk.status, FaultyDisk.status, hfault hplan hused, hnext]

theorem wipeClears_succ (i j : ℕ) (d : FaultyDisk) :
    wipeClears (i + 1) d = (decide (d.status = 0) && wipeClears i (headerWrite c j d)) := by
  rw [wipeClears, wipeClears_congr d.next (headerWrite c j d) rfl rfl]

/-- A header the wipe does not clear is as it was. -/
theorem hdrAt_wipeSlots_kept {k i : ℕ} {d : FaultyDisk} (hk : i + k ≤ c.nslots) {j : ℕ}
    (hj : j < c.nslots) (h : j < i ∨ wipeClears (j - i) d = false) :
    hdrAt c (wipeSlots FaultyDisk.faulty c k i d).2.disk j = hdrAt c d.disk j := by
  induction k generalizing i d with
  | zero => rfl
  | succ k ih =>
      have hwrite : hdrAt c (headerWrite c i d).disk j = hdrAt c d.disk j := by
        by_cases hij : i = j
        · subst hij
          rw [Nat.sub_self] at h
          -- the write did not reach the sector
          have hsel : d.reached 0 = false := h.resolve_left (Nat.lt_irrefl i)
          have hcell : (d.disk.writeSel d.reached blankSector (slotSector c i) 1).cell
              (slotSector c i + 0) = d.disk.cell (slotSector c i + 0) :=
            Disk.writeSel_cell_unsel _ _ hsel
          rw [Nat.add_zero] at hcell
          rw [hdrAt_eq, hdrAt_eq, headerWrite, hcell]
        · rw [headerWrite, hdrAt_of_ne c _ _ _ (by omega) (by omega) hj hij]
      rw [wipeSlots_succ]
      by_cases hs : d.status = 0
      · rw [if_pos hs, ← hwrite]
        apply ih (by omega)
        by_cases hij : j < i + 1
        · exact Or.inl hij
        · right
          have hclear := h.resolve_left (by omega)
          obtain ⟨l, hl⟩ : ∃ l, j - i = l + 1 := Nat.exists_eq_succ_of_ne_zero (by omega)
          rw [hl, wipeClears_succ l i, hs] at hclear
          rw [show j - (i + 1) = l by omega]
          simpa using hclear
      · -- the wipe stops here
        rw [if_neg hs]
        exact hwrite

/-- A header the wipe clears does not count. -/
theorem counts_wipeSlots {k i : ℕ} {d : FaultyDisk} (hk : i + k ≤ c.nslots) {j : ℕ} (hij : i ≤ j)
    (hj : j < i + k) (h : wipeClears (j - i) d = true) :
    (hdrAt c (wipeSlots FaultyDisk.faulty c k i d).2.disk j).counts = false := by
  induction k generalizing i d with
  | zero => omega
  | succ k ih =>
      rw [wipeSlots_succ]
      rcases Nat.eq_or_lt_of_le hij with rfl | hlt
      · rw [Nat.sub_self] at h
        have hblank : hdrAt c (headerWrite c i d).disk i = RecHdr.ofBytes blankSector :=
          hdrAt_cleared c h i d.disk
        split
        · rw [hdrAt_wipeSlots_kept (by omega) (by omega) (Or.inl (by omega)), hblank, blank_counts]
        · show (hdrAt c (headerWrite c i d).disk i).counts = false
          rw [hblank, blank_counts]
      · obtain ⟨l, hl⟩ : ∃ l, j - i = l + 1 := Nat.exists_eq_succ_of_ne_zero (by omega)
        rw [hl, wipeClears_succ l i, Bool.and_eq_true, decide_eq_true_eq] at h
        rw [if_pos h.1]
        apply ih (by omega) (by omega) (by omega)
        rw [show j - (i + 1) = l by omega]
        exact h.2

/-! ## What every access of the disk keeps, every call keeps -/

section Keeps

variable {D : Type} {drv : DiskAccess D} {P : D → Prop} (h : drv.Keeps P)

include h

theorem keeps_scanSlots (k i : ℕ) {d : D} (hd : P d) (a : Scan) :
    P (scanSlots drv c k i d a).2 := by
  induction k generalizing i d a with
  | zero => exact hd
  | succ k ih =>
      have hread := h.read (slotSector c i) 1 d hd
      unfold scanSlots readHdr
      generalize drv.read (slotSector c i) 1 d = r at hread
      obtain ⟨_ | buf, d'⟩ := r
      · exact hread
      · exact ih (i + 1) hread _

theorem keeps_spoolInit {n : Node D} (hn : P n.disk) : P (spoolInit drv c n).2.disk := by
  have hinit := h.init n.disk hn
  unfold spoolInit
  generalize drv.init n.disk = r at hinit
  obtain ⟨ret, d⟩ := r
  dsimp only
  split
  · exact hinit
  · have hscan := keeps_scanSlots (c := c) h c.nslots 0 hinit Scan.start
    generalize scanSlots drv c c.nslots 0 d Scan.start = q at hscan
    obtain ⟨_ | a, d'⟩ := q
    · exact hscan
    · exact hscan

theorem keeps_peekLoop (bufSize k : ℕ) {n : Node D} (hn : P n.disk) :
    P (peekLoop drv crc32Ieee c bufSize k n).2.2.disk := by
  induction k generalizing n with
  | zero => exact hn
  | succ k ih =>
      have hread := h.read (slotOf c n.ram.headSeq) spoolSlotSectors n.disk hn
      unfold peekLoop
      generalize drv.read (slotOf c n.ram.headSeq) spoolSlotSectors n.disk = r at hread
      obtain ⟨_ | buf, d⟩ := r
      · exact hread
      · dsimp only
        split
        · exact hread
        · exact ih hread

theorem keeps_wipeSlots (k i : ℕ) {d : D} (hd : P d) : P (wipeSlots drv c k i d).2 := by
  induction k generalizing i d with
  | zero => exact hd
  | succ k ih =>
      have hwrite := h.write blankSector (slotSector c i) 1 d hd
      unfold wipeSlots
      generalize drv.write blankSector (slotSector c i) 1 d = r at hwrite
      obtain ⟨ret, d'⟩ := r
      dsimp only
      split
      · exact ih (i + 1) hwrite
      · exact hwrite

theorem keeps_spoolStep (op : SpoolOp) {n : Node D} (hn : P n.disk) :
    P (spoolStep drv crc32Ieee c op n).2.disk := by
  cases op with
  | push json =>
      show P (spoolPush drv crc32Ieee c json n).2.disk
      unfold spoolPush
      split
      · exact hn
      · split
        · exact hn
        · dsimp only
          split
          · exact h.sync _ (h.write _ _ _ _ hn)
          · exact h.write _ _ _ _ hn
  | peek bufSize =>
      show P (spoolPeek drv crc32Ieee c bufSize n).2.2.disk
      unfold spoolPeek
      split
      · exact hn
      · exact keeps_peekLoop h bufSize _ hn
  | commit =>
      show P (spoolCommit drv c n).2.disk
      unfold spoolCommit
      split
      · exact hn
      · split
        · exact h.write _ _ _ _ hn
        · exact hn
  | wipe =>
      show P (spoolWipe drv c n).2.disk
      unfold spoolWipe
      split
      · exact hn
      · exact keeps_wipeSlots h c.nslots 0 hn

end Keeps

theorem faulty_keeps_dated : FaultyDisk.faulty.Keeps fun d => d.disk.Dated :=
  ⟨fun _ hd => hd, fun _ _ _ hd => hd, fun _ _ _ _ hd => hd.writeSel _ _ _ _, fun _ hd => hd⟩

theorem dated_faultyCall (op : SpoolOp) {n : Node FaultyDisk} (hn : n.disk.disk.Dated) :
    (faultyCall crc32Ieee c op n).2.disk.disk.Dated :=
  keeps_spoolStep faulty_keeps_dated op hn.tick

theorem dated_run (image : ℕ → Sector) (plan : ℕ → Option Fault) (ops : List RebootOp) :
    (runState (faultyStep crc32Ieee c) ops (powerOn image plan)).disk.disk.Dated := by
  apply run_inv (P := fun n : Node FaultyDisk => n.disk.disk.Dated)
  · intro op _ n hn
    cases op with
    | call op => exact dated_faultyCall op hn
    | reboot => exact keeps_spoolInit (n := ⟨n.disk, Spool.off⟩) faulty_keeps_dated hn
  · exact fun _ => Nat.le_refl 0

/-! ## The pushes after the wipe -/

/-- A push that returns 0 has written its slot. -/
theorem faultyPush_ok {json : Bytes} {n : Node FaultyDisk} (hr : n.ram.ready = true)
    (h : (faultyCall crc32Ieee c (.push json) n).1.1 = 0) :
    json.length ≤ spoolPayloadMax ∧
    (faultyCall crc32Ieee c (.push json) n).2.disk.disk
      = pushed crc32Ieee c n.ram.tailSeq json n.disk.disk.tick ∧
    (faultyCall crc32Ieee c (.push json) n).2.ram = (n.ram.makeRoom c).appended := by
  have hr' : (Node.mk n.disk.tick n.ram).ram.ready = true := hr
  change (spoolPush FaultyDisk.faulty crc32Ieee c json ⟨n.disk.tick, n.ram⟩).1 = 0 at h
  show _ ∧ (spoolPush FaultyDisk.faulty crc32Ieee c json ⟨n.disk.tick, n.ram⟩).2.disk.disk = _ ∧
    (spoolPush FaultyDisk.faulty crc32Ieee c json ⟨n.disk.tick, n.ram⟩).2.ram = _
  by_cases hj : json.length ≤ spoolPayloadMax
  · rcases hw : slotWrite FaultyDisk.faulty crc32Ieee c json ⟨n.disk.tick, n.ram⟩ with ⟨ret, d⟩
    have hstatus : n.disk.tick.status = ret := congrArg Prod.fst hw
    by_cases hret : ret = 0
    · subst hret
      rw [spoolPush_written hr' hj hw]
      refine ⟨hj, ?_, rfl⟩
      have hdisk : d.disk = n.disk.disk.tick.writeSel n.disk.tick.reached _ _ _ :=
        (congrArg (fun r => r.2.disk) hw).symm
      show d.disk = _
      rw [hdisk, FaultyDisk.reached_of_status hstatus]
      rfl
    · -- the error of the write is what the push returns
      rw [spoolPush_failed hr' hj hw hret] at h
      exact absurd h hret
  · rw [spoolPush_long hr' (by omega)] at h
    have hne : (-EMSGSIZE : Int) ≠ 0 := by decide
    exact absurd h hne

/-- Successful pushes refill the ring. -/
theorem refilled_run {dw : Disk} {es : List Entry} {jsons : List Bytes} {n : Node FaultyDisk}
    (hr : n.ram.ready = true) (htail : n.ram.tailSeq = UInt32.ofNat es.length)
    (h : Refilled crc32Ieee c dw es n.disk.disk)
    (hok : ∀ a ∈ (run (faultyCall crc32Ieee c) (jsons.map .push) n).1, a.1 = 0) :
    Refilled crc32Ieee c dw (es ++ stamped (n.disk.disk.clock + 1) jsons)
      (runState (faultyCall crc32Ieee c) (jsons.map .push) n).disk.disk := by
  induction jsons generalizing es n with
  | nil =>
      rw [stamped, List.append_nil]
      exact h
  | cons json jsons ih =>
      rw [List.map_cons, run_cons] at hok
      obtain ⟨hj, hdisk, hram⟩ := faultyPush_ok hr (hok _ List.mem_cons_self)
      have hlen : (es ++ [(n.disk.disk.clock + 1, json)]).length = es.length + 1 := by
        rw [List.length_append, List.length_singleton]
      have hnext : Refilled crc32Ieee c dw (es ++ [(n.disk.disk.clock + 1, json)])
          (faultyCall crc32Ieee c (.push json) n).2.disk.disk := by
        rw [hdisk, htail]
        exact h.push hj
      have hclock : (faultyCall crc32Ieee c (.push json) n).2.disk.disk.clock
          = n.disk.disk.clock + 1 := by rw [hdisk, pushed_clock, Disk.tick_clock]
      have htail' : (faultyCall crc32Ieee c (.push json) n).2.ram.tailSeq
          = UInt32.ofNat (es ++ [(n.disk.disk.clock + 1, json)]).length := by
        rw [hram, hlen, ofNat_succ32, ← htail]
        show (n.ram.makeRoom c).tailSeq + 1 = _
        rw [makeRoom_tailSeq]
      have hready : (faultyCall crc32Ieee c (.push json) n).2.ram.ready = true := by
        rw [hram]
        show (n.ram.makeRoom c).ready = true
        rw [makeRoom_ready, hr]
      have hrest := ih hready htail' hnext fun a ha => hok a (List.mem_cons_of_mem _ ha)
      rw [hclock, List.append_assoc, List.singleton_append] at hrest
      rw [List.map_cons, runState_cons]
      exact hrest

/-! ## The wipe, the pushes and the reboot together -/

/-- The wipe restarts the numbering, whatever it returns. -/
theorem faultyWipe_eq {n : Node FaultyDisk} (hr : n.ram.ready = true) :
    (faultyCall crc32Ieee c .wipe n).2
      = ⟨(wipeSlots FaultyDisk.faulty c c.nslots 0 n.disk.tick).2, n.ram.cleared⟩ := by
  show (spoolWipe FaultyDisk.faulty c ⟨n.disk.tick, n.ram⟩).2 = _
  rw [spoolWipe, if_neg (by simp [hr])]

section Wiped

variable {n : Node FaultyDisk} (hr : n.ram.ready = true) {i : ℕ} (hi : i < c.nslots)

include hr

variable (crc32Ieee) in
theorem wiped_disk : (faultyCall crc32Ieee c .wipe n).2.disk
    = (wipeSlots FaultyDisk.faulty c c.nslots 0 n.disk.tick).2 := by rw [faultyWipe_eq hr]

include hi

variable (crc32Ieee) in
/-- A header that the wipe does not clear. -/
theorem hdrAt_wiped (h : wipeClears i n.disk = false) :
    hdrAt c (faultyCall crc32Ieee c .wipe n).2.disk.disk i = hdrAt c n.disk.disk i := by
  rw [wiped_disk crc32Ieee hr]
  apply hdrAt_wipeSlots_kept (by omega) hi
  right
  rw [Nat.sub_zero, wipeClears_congr n.disk n.disk.tick rfl rfl, h]

variable (crc32Ieee) in
/-- A header that counts after the wipe is one that the wipe has not cleared. -/
theorem wipeClears_of_counts
    (h : (hdrAt c (faultyCall crc32Ieee c .wipe n).2.disk.disk i).counts = true) :
    wipeClears i n.disk = false := by
  rw [← Bool.not_eq_true]
  intro hclear
  rw [wiped_disk crc32Ieee hr, counts_wipeSlots (by omega) (Nat.zero_le i) (by omega)
    (by rw [Nat.sub_zero, wipeClears_congr n.disk n.disk.tick rfl rfl, hclear])] at h
  exact absurd h (by decide)

end Wiped

variable (crc32Ieee) in
/-- `RestartSafe` is a condition on the state before the wipe for what the wipe leaves. -/
theorem restartSafe_iff {n : Node FaultyDisk} (hr : n.ram.ready = true) (m : ℕ) :
    RestartSafe c n m ↔ NumbersFit c (faultyCall crc32Ieee c .wipe n).2.disk.disk m := by
  unfold RestartSafe NumbersFit
  refine or_congr Iff.rfl (or_congr Iff.rfl (and_congr Iff.rfl ?_))
  constructor
  · intro h i hm hi hcounts
    have hclear := wipeClears_of_counts crc32Ieee hr hi hcounts
    rw [hdrAt_wiped crc32Ieee hr hi hclear] at hcounts ⊢
    exact h i hm hi hclear hcounts
  · intro h i hm hi hclear hcounts
    rw [← hdrAt_wiped crc32Ieee hr hi hclear] at hcounts ⊢
    exact h i hm hi hcounts

variable (crc32Ieee c)

/-- **What survives a wipe that stops early.** From any disk image, in any run of calls and reboots
and under any pattern of failing accesses, let the spool be wiped (the wipe may fail at any slot)
and the records `jsons` be pushed successfully. After a reboot, a drain delivers all of those that
a full ring has not evicted, in push order, exactly when `RestartSafe` holds and none of them is
empty; and then nothing comes before them. -/
theorem failed_wipe_iff (image : ℕ → Sector) (plan : ℕ → Option Fault) (ops : List RebootOp)
    (jsons : List Bytes) (rounds : ℕ) (hrounds : c.nslots ≤ rounds) :
    let n := runState (faultyStep crc32Ieee c) ops (powerOn image plan)
    let w := (faultyCall crc32Ieee c .wipe n).2
    let pushes := jsons.map SpoolOp.push
    let kept := (stamped (w.disk.disk.clock + 1) jsons).drop (jsons.length - c.nslots)
    let delivered := drain crc32Ieee c rounds
      (boot c (runState (faultyCall crc32Ieee c) pushes w).disk.disk).2
    let safe := RestartSafe c n jsons.length ∧
      ∀ json ∈ jsons.drop (jsons.length - c.nslots), json ≠ []
    n.ram.ready = true → (∀ a ∈ (run (faultyCall crc32Ieee c) pushes w).1, a.1 = 0) →
    (kept.Sublist delivered ↔ safe) ∧ (safe → kept <+: delivered) := by
  intro n w pushes kept delivered safe hr hok
  have hdated : w.disk.disk.Dated := dated_faultyCall .wipe (dated_run image plan ops)
  have hw : w.ram = n.ram.cleared := by
    show (faultyCall crc32Ieee c .wipe n).2.ram = _
    rw [faultyWipe_eq hr]
  have hready : w.ram.ready = true := by rw [hw]; exact hr
  have htail : w.ram.tailSeq = UInt32.ofNat ([] : List Entry).length := by rw [hw]; rfl
  have hrefilled := refilled_run hready htail (Refilled.start hdated) hok
  rw [List.nil_append] at hrefilled
  have hlen := length_stamped (w.disk.disk.clock + 1) jsons
  have hkept : kept = (stamped (w.disk.disk.clock + 1) jsons).drop
      ((stamped (w.disk.disk.clock + 1) jsons).length - c.nslots) := by rw [hlen]
  have hdelivered : delivered = (bootEntries crc32Ieee c
      (runState (faultyCall crc32Ieee c) pushes w).disk.disk).takeWhile Entry.nonempty :=
    drain_boot _ hrounds
  -- the payloads of the records kept
  have hpayloads : jsons.drop (jsons.length - c.nslots) = kept.map Prod.snd := by
    rw [List.map_drop, map_snd_stamped]
  have hfull : (∀ json ∈ jsons.drop (jsons.length - c.nslots), json ≠ []) ↔
      ∀ e ∈ kept, Entry.nonempty e = true := by
    rw [hpayloads, List.forall_mem_map]
    simp [Entry.nonempty]
  have hfit : RestartSafe c n jsons.length ↔
      NumbersFit c w.disk.disk (stamped (w.disk.disk.clock + 1) jsons).length := by
    rw [hlen]
    exact restartSafe_iff crc32Ieee hr jsons.length
  have hsafe : safe → kept <+: delivered := by
    rintro ⟨hrestart, hjsons⟩
    obtain ⟨rest, hrest⟩ := hrefilled.kept_prefix (hfit.mp hrestart)
    rw [← hkept] at hrest
    rw [hdelivered, ← hrest, List.takeWhile_append_of_pos (hfull.mp hjsons)]
    exact List.prefix_append _ _
  refine ⟨⟨fun hsub => ⟨?_, ?_⟩, fun h => (hsafe h).sublist⟩, hsafe⟩
  · by_contra hnot
    obtain ⟨e, hmem, hlost⟩ := hrefilled.kept_lost fun h => hnot (hfit.mpr h)
    rw [← hkept] at hmem
    have hdrained := hsub.subset hmem
    rw [hdelivered] at hdrained
    exact hlost ((List.takeWhile_sublist _).subset hdrained)
  · refine hfull.mpr fun e he => ?_
    have hdrained := hsub.subset he
    rw [hdelivered] at hdrained
    exact List.all_eq_true.mp List.all_takeWhile e hdrained

/-- A disk of zeros on which access `k` fails with `-EIO` and reaches nothing. -/
def failingOnce (k : ℕ) : Node FaultyDisk :=
  powerOn (fun _ => Sector.ofBytes []) fun i => if i = k then some Fault.eio else none

/-- Four pushes on a ring of two slots, a wipe that fails at its first header, one push, a reboot:
the drain delivers a record from before the wipe and not the new one. -/
theorem failed_wipe_loses_record :
    let n := runState (faultyStep Crc32.ieee twoSlots) [.reboot, .call (.push [65]),
      .call (.push [66]), .call (.push [67]), .call (.push [68])] (failingOnce 11)
    let w := faultyCall Crc32.ieee twoSlots .wipe n
    let r := run (faultyCall Crc32.ieee twoSlots) [.push [69]] w.2
    let kept := (stamped (w.2.disk.disk.clock + 1) [[69]]).drop (1 - twoSlots.nslots)
    let delivered := drain Crc32.ieee twoSlots 2 (boot twoSlots r.2.disk.disk).2
    n.ram.ready = true ∧ w.1.1 = - EIO ∧ r.1 = [(0, none)] ∧
    kept = [(6, [69])] ∧ delivered = [(4, [68])] ∧ ¬ kept.Sublist delivered := by
  intro n w r kept delivered
  have hkept : kept = [(6, [69])] := by decide +kernel
  have hdelivered : delivered = [(4, [68])] := by decide +kernel
  refine ⟨by decide +kernel, by decide +kernel, by decide +kernel, hkept, hdelivered, ?_⟩
  rw [hkept, hdelivered]
  decide

/-- The same with two pushes after the wipe: they refill the ring. -/
theorem failed_wipe_iff_refilled :
    let n := runState (faultyStep Crc32.ieee twoSlots) [.reboot, .call (.push [65]),
      .call (.push [66]), .call (.push [67]), .call (.push [68])] (failingOnce 11)
    let w := (faultyCall Crc32.ieee twoSlots .wipe n).2
    let r := runState (faultyCall Crc32.ieee twoSlots) [.push [69], .push [70]] w
    RestartSafe twoSlots n 2 ∧
    [(w.disk.disk.clock + 1, [69]), (w.disk.disk.clock + 2, [70])] <+:
      drain Crc32.ieee twoSlots 2 (boot twoSlots r.disk.disk).2 := by
  intro n w r
  have hready : n.ram.ready = true := by decide +kernel
  have hok : ∀ a ∈ (run (faultyCall Crc32.ieee twoSlots) [.push [69], .push [70]] w).1,
      a.1 = 0 := by decide +kernel
  have hsafe : RestartSafe twoSlots n 2 := Or.inr (Or.inl (by decide))
  exact ⟨hsafe, (failed_wipe_iff Crc32.ieee twoSlots _ _ _ [[69], [70]] 2 (Nat.le_refl _) hready
    hok).2 ⟨hsafe, by decide⟩⟩

end FailedWipe

end IotcDemos
