import IotcDemos.Gateway.Queue

set_option autoImplicit false

/-! # Reboots of the gateway

A reboot loses the RAM and runs `spool_init` on the same disk. `spool_init` sees nothing but the
headers, so the window it recovers is the old one because the headers that count are exactly
those of the queued records (`Live.only`). Every operation keeps that true as long as
`spool_peek` is given a buffer that takes every record, and the sequence numbers have not
wrapped: then a reboot is no operation on the queue (`reboot_keeps_queue`).
-/

namespace IotcDemos

/-- A call of the spool's interface, or a reboot. -/
inductive RebootOp where
  | call (op : SpoolOp)
  | reboot
  deriving DecidableEq

/-- The pushes among the operations. -/
def RebootOp.cost : RebootOp → ℕ
  | .call (.push _) => 1
  | _ => 0

section Reboot

variable (crc32Ieee : Bytes → UInt32) (c : SpoolConfig)

/-- The program starts: RAM is as new, and `spool_init` runs. -/
def boot (d : Disk) : Answer × Node Disk :=
  let (ret, n) := spoolInit Disk.reliable c ⟨d, Spool.off⟩
  ((ret, none), n)

def rebootStep : RebootOp → Node Disk → Answer × Node Disk
  | .call op, n => diskStep crc32Ieee c op n
  | .reboot, n => boot c n.disk

/-- The queue does not notice a reboot. -/
def rebootQueueStep (cap : ℕ) : RebootOp → List Bytes → Answer × List Bytes
  | .call op, q => queueStep cap op q
  | .reboot, q => ((0, none), q)

/-- The spool holds `q`, the headers that count are those of its records, and the sequence
numbers used lie below `k`, the number of pushes so far. -/
structure Live (k : ℕ) (n : Node Disk) (q : List Bytes) : Prop where
  holds : Holds crc32Ieee c n q
  only : ∀ i, i < c.nslots → (hdrAt c n.disk i).counts = true →
    ∃ j, j < q.length ∧ (hdrAt c n.disk i).seq = n.ram.seqAt j ∧ slotIdx c (n.ram.seqAt j) = i
  early : n.ram.headSeq.toNat + q.length ≤ k

variable {crc32Ieee c}

/-- The sequence numbers of the window do not wrap. -/
theorem seqAt_toNat {s : Spool} {j : ℕ} (h : s.headSeq.toNat + j < 2 ^ 32) :
    (s.seqAt j).toNat = s.headSeq.toNat + j :=
  add_ofNat_toNat_of_lt h

/-- The header of a queued record counts, in the record's slot. -/
theorem Holds.counts {n : Node Disk} {q : List Bytes} (h : Holds crc32Ieee c n q) {j : ℕ}
    (hj : j < q.length) :
    (hdrAt c n.disk (slotIdx c (n.ram.seqAt j))).counts = true ∧
    (hdrAt c n.disk (slotIdx c (n.ram.seqAt j))).seq = n.ram.seqAt j := by
  obtain ⟨es, hw, rfl⟩ := h
  rw [List.length_map] at hj
  have hrec := (hw.getElem_map_some (List.getElem?_eq_getElem hj)).1
  exact counts_of_acceptable crc32Ieee c ((recordAt_eq_some crc32Ieee c).mp hrec).1

theorem Holds.tail_eq {n : Node Disk} {q : List Bytes} (h : Holds crc32Ieee c n q) :
    n.ram.tailSeq = n.ram.seqAt q.length := by
  obtain ⟨es, hw, rfl⟩ := h
  have htail := hw.tail
  rwa [List.length_map] at htail ⊢

theorem Live.tailFree {k : ℕ} {n : Node Disk} {q : List Bytes} (h : Live crc32Ieee c k n q)
    (hk : k < 2 ^ 32) : TailFree c n.ram := by
  have hearly := h.early
  intro j hj hlt
  rw [← h.holds.length_le.1] at hj hlt
  rw [h.holds.tail_eq]
  exact slotIdx_ne_of_lt c hj hlt (by omega)

/-- A full ring overwrites the slot of its oldest record. -/
theorem slotIdx_tail_of_full {s : Spool} (h : s.headSeq.toNat + c.nslots < 2 ^ 32) :
    slotIdx c (s.seqAt c.nslots) = slotIdx c s.headSeq := by
  rw [slotIdx, seqAt_toNat h, Nat.add_mod_right, slotIdx]

/-! ## One operation -/

theorem Live.tick {k : ℕ} {n : Node Disk} {q : List Bytes} (h : Live crc32Ieee c k n q) :
    Live crc32Ieee c k { n with disk := n.disk.tick } q :=
  ⟨h.holds.tick, h.only, h.early⟩

/-- The record pushed brings its own header, in the slot of the evicted record if there is
one; every other header stays. -/
theorem Live.push {k : ℕ} {n : Node Disk} {q : List Bytes} {json : Bytes}
    (h : Live crc32Ieee c k n q) (hk : k + 1 < 2 ^ 32) (hj : json.length ≤ spoolPayloadMax) :
    Live crc32Ieee c (k + 1) (spoolPush Disk.reliable crc32Ieee c json n).2
      (Fifo.push c.nslots json q) := by
  have hearly := h.early
  obtain ⟨hlen, hcap⟩ := h.holds.length_le
  have htail := h.holds.tail_eq
  have hready := h.holds.ready
  have hnext := (h.holds.push (h.tailFree (by omega)) hj).2
  rw [spoolPush_eq crc32Ieee c hready hj] at hnext ⊢
  -- the window of the new state, place by place
  have hseq : ∀ j, (n.ram.makeRoom c).appended.seqAt j
      = n.ram.seqAt (if q.length = c.nslots then j + 1 else j) := by
    intro j
    by_cases hfull : q.length = c.nslots
    · rw [if_pos hfull, Spool.makeRoom, if_pos (by rw [← hlen, hfull])]
      exact seqAt_next rfl j
    · rw [if_neg hfull, Spool.makeRoom, if_neg (by rw [← hlen]; exact hfull)]
      rfl
  have hqlen := Fifo.length_push c.pos json q
  refine ⟨hnext, ?_, ?_⟩
  · intro i hi hcounts
    show ∃ j, _ ∧ (hdrAt c (pushed crc32Ieee c n.ram.tailSeq json n.disk) i).seq = _ ∧ _
    change (hdrAt c (pushed crc32Ieee c n.ram.tailSeq json n.disk) i).counts = true at hcounts
    simp only [hseq]
    rw [hqlen]
    by_cases hslot : slotIdx c n.ram.tailSeq = i
    · -- the slot written
      subst hslot
      rw [hdrAt_pushed crc32Ieee c n.disk hj, pushHdr_seq, htail]
      by_cases hfull : q.length = c.nslots
      · have hpos := c.pos
        refine ⟨q.length - 1, by rw [if_pos hfull]; omega, ?_⟩
        rw [if_pos hfull, Nat.sub_add_cancel (by omega)]
        exact ⟨rfl, rfl⟩
      · refine ⟨q.length, by rw [if_neg hfull]; omega, ?_⟩
        rw [if_neg hfull]
        exact ⟨rfl, rfl⟩
    · -- any other slot
      rw [pushed, slotOf_eq, hdrAt_of_ne c _ _ _ (by decide) (slotIdx_lt c _) hi hslot]
        at hcounts ⊢
      obtain ⟨j, hjlt, hjseq, hjslot⟩ := h.only i hi hcounts
      by_cases hfull : q.length = c.nslots
      -- the header of place 0 is the one overwritten
      · have hj0 : j ≠ 0 := by
          rintro rfl
          apply hslot
          rw [htail, hfull, slotIdx_tail_of_full (by omega), ← hjslot, seqAt_zero]
        refine ⟨j - 1, by rw [if_pos hfull]; omega, ?_⟩
        rw [if_pos hfull, Nat.sub_add_cancel (by omega)]
        exact ⟨hjseq, hjslot⟩
      · refine ⟨j, by rw [if_neg hfull]; omega, ?_⟩
        rw [if_neg hfull]
        exact ⟨hjseq, hjslot⟩
  · have hhead := hseq 0
    rw [seqAt_zero] at hhead
    show (n.ram.makeRoom c).appended.headSeq.toNat + _ ≤ k + 1
    rw [hhead, hqlen]
    split
    · rw [seqAt_toNat (by omega)]
      omega
    · rw [seqAt_toNat (by omega)]
      omega

/-- With a buffer that takes every record, `spool_peek` changes nothing. -/
theorem Holds.peek_big {n : Node Disk} {q : List Bytes} (h : Holds crc32Ieee c n q)
    {bufSize : ℕ} (hb : spoolPayloadMax < bufSize) :
    (spoolStep Disk.reliable crc32Ieee c (.peek bufSize) n).2 = n := by
  obtain ⟨es, hw, -⟩ := h
  have hcount := hw.count
  rw [List.length_map] at hcount
  obtain ⟨j, hp⟩ := spoolPeek_spec crc32Ieee c bufSize hw.ready
  have hj : j = 0 := by
    by_contra hne
    have hle := hp.le crc32Ieee c
    have hpos : 0 < es.length := by omega
    have hrec := (hw.getElem_map_some (List.getElem?_eq_getElem hpos)).1
    have hlen := (recordAt_length crc32Ieee c hrec).2
    have := hp.passed 0 _ (by omega) hrec
    omega
  have hnode := hp.node
  rw [hj] at hnode
  exact hnode

theorem Live.commit {k : ℕ} {n : Node Disk} {q : List Bytes} (h : Live crc32Ieee c k n q)
    (hk : k < 2 ^ 32) :
    Live crc32Ieee c k (spoolCommit Disk.reliable c n).2 q.tail := by
  have hnext := h.holds.commit.2
  have hearly := h.early
  obtain ⟨hlen, hcap⟩ := h.holds.length_le
  have hready := h.holds.ready
  cases q with
  | nil =>
      rw [spoolCommit_empty hready (UInt32.toNat_inj.mp hlen.symm)] at hnext ⊢
      exact ⟨hnext, h.only, h.early⟩
  | cons b q =>
      have hpos : 0 < n.ram.recCount := by
        rw [UInt32.lt_iff_toNat_lt, ← hlen]
        exact Nat.succ_pos _
      rw [spoolCommit_eq c hready hpos] at hnext ⊢
      rw [List.length_cons] at hearly
      have hseq : ∀ j, n.ram.committed.seqAt j = n.ram.seqAt (j + 1) := seqAt_next rfl
      refine ⟨hnext, ?_, ?_⟩
      · intro i hi hcounts
        change (hdrAt c (blanked c (slotIdx c n.ram.headSeq) n.disk) i).counts = true at hcounts
        show ∃ j, _ ∧ (hdrAt c (blanked c (slotIdx c n.ram.headSeq) n.disk) i).seq = _ ∧ _
        simp only [hseq]
        have hne : slotIdx c n.ram.headSeq ≠ i := by
          rintro rfl
          rw [counts_blanked] at hcounts
          exact absurd hcounts (by decide)
        rw [blanked, hdrAt_of_ne c _ _ _ (by omega) (slotIdx_lt c _) hi hne] at hcounts ⊢
        obtain ⟨j, hjlt, hjseq, hjslot⟩ := h.only i hi hcounts
        -- the header of place 0 is the one cleared
        have hj0 : j ≠ 0 := by
          rintro rfl
          rw [seqAt_zero] at hjslot
          exact hne hjslot
        rw [List.length_cons] at hjlt
        refine ⟨j - 1, by rw [List.tail_cons]; omega, ?_⟩
        rw [Nat.sub_add_cancel (by omega)]
        exact ⟨hjseq, hjslot⟩
      · have hhead := hseq 0
        rw [seqAt_zero] at hhead
        show n.ram.committed.headSeq.toNat + _ ≤ k
        rw [hhead, seqAt_toNat (by omega), List.tail_cons]
        omega

theorem live_nil {k : ℕ} {n : Node Disk} (h : Holds crc32Ieee c n [])
    (hhead : n.ram.headSeq = 0) (hnone : ∀ i, i < c.nslots → (hdrAt c n.disk i).counts = false) :
    Live crc32Ieee c k n [] := by
  refine ⟨h, ?_, ?_⟩
  · intro i hi hcounts
    rw [hnone i hi] at hcounts
    exact absurd hcounts (by decide)
  · rw [hhead]
    exact Nat.zero_le _

theorem Live.wipe {k : ℕ} {n : Node Disk} {q : List Bytes} (h : Live crc32Ieee c k n q) :
    Live crc32Ieee c k (spoolWipe Disk.reliable c n).2 [] := by
  have hnext := h.holds.wipe.2
  rw [spoolWipe_eq c h.holds.ready] at hnext ⊢
  refine live_nil hnext rfl fun i hi => ?_
  exact counts_blankedAll c (by omega) hi (Or.inl (by omega))

/-! ## The reboot -/

theorem boot_eq (d : Disk) :
    boot c d = ((0, none), ⟨d, Spool.off.recover c (scanAll c d)⟩) := by
  rw [boot, spoolInit_eq]

/-- The scan finds the bounds of the window. -/
theorem Live.scan {k : ℕ} {n : Node Disk} {q : List Bytes} (h : Live crc32Ieee c k n q)
    (hk : k < 2 ^ 32) (hq : 0 < q.length) :
    (scanAll c n.disk).valid ≠ 0 ∧ (scanAll c n.disk).minSeq = n.ram.headSeq ∧
    (scanAll c n.disk).maxSeq.toNat = n.ram.headSeq.toNat + (q.length - 1) := by
  have hearly := h.early
  obtain ⟨hc0, hs0⟩ := h.holds.counts hq
  obtain ⟨hcl, hsl⟩ := h.holds.counts (Nat.sub_lt hq Nat.one_pos)
  obtain ⟨hvalid, hbounds, ⟨imax, himax, hcmax, hmax⟩, ⟨imin, himin, hcmin, hmin⟩⟩ :=
    scanAll_spec c ⟨_, slotIdx_lt c _, hc0⟩
  have hlow := (hbounds _ (slotIdx_lt c _) hc0).1
  have hhigh := (hbounds _ (slotIdx_lt c _) hcl).2
  rw [hs0, seqAt_zero, UInt32.le_iff_toNat_le] at hlow
  rw [hsl, UInt32.le_iff_toNat_le, seqAt_toNat (by omega)] at hhigh
  -- the extreme headers are headers of the window
  obtain ⟨jmin, hjmin, hemin, -⟩ := h.only imin himin hcmin
  obtain ⟨jmax, hjmax, hemax, -⟩ := h.only imax himax hcmax
  have hmin' := congrArg UInt32.toNat (hmin.symm.trans hemin)
  have hmax' := congrArg UInt32.toNat (hmax.symm.trans hemax)
  rw [seqAt_toNat (by omega)] at hmin' hmax'
  exact ⟨hvalid, UInt32.toNat_inj.mp (by omega), by omega⟩

/-- The clamp of `spool_init` does not cut into a window of at most `NSLOTS` records. -/
theorem Live.recover {k : ℕ} {n : Node Disk} {q : List Bytes} (h : Live crc32Ieee c k n q)
    (hk : k < 2 ^ 32) (hq : 0 < q.length) (s : Spool) :
    (s.recover c (scanAll c n.disk)).headSeq = n.ram.headSeq ∧
    (s.recover c (scanAll c n.disk)).tailSeq = n.ram.tailSeq ∧
    (s.recover c (scanAll c n.disk)).recCount = n.ram.recCount := by
  have hearly := h.early
  obtain ⟨hlen, hcap⟩ := h.holds.length_le
  have htailNat : n.ram.tailSeq.toNat = (n.ram.headSeq.toNat + q.length) % 2 ^ 32 := by
    rw [h.holds.tail_eq, Spool.seqAt, add_ofNat_toNat]
  obtain ⟨hvalid, hmin, hmax⟩ := h.scan hk hq
  have hhead : clampedHead c (scanAll c n.disk) = n.ram.headSeq := by
    apply UInt32.toNat_inj.mp
    rw [clampedHead_toNat, hmin, hmax]
    omega
  have htail : (scanAll c n.disk).maxSeq + 1 = n.ram.tailSeq := by
    apply UInt32.toNat_inj.mp
    rw [htailNat, UInt32.toNat_add, hmax, UInt32.toNat_one]
    omega
  have hcount : n.ram.tailSeq - n.ram.headSeq = n.ram.recCount := by
    apply UInt32.toNat_inj.mp
    rw [UInt32.toNat_sub_of_le _ _ (UInt32.le_iff_toNat_le.mpr (by omega)), htailNat, ← hlen]
    omega
  rw [recover_of_valid c s hvalid, hhead, htail, hcount]
  exact ⟨rfl, rfl, rfl⟩

/-- **A reboot keeps the queue.** -/
theorem Live.reboot {k : ℕ} {n : Node Disk} {q : List Bytes} (h : Live crc32Ieee c k n q)
    (hk : k < 2 ^ 32) : (boot c n.disk).1 = (0, none) ∧ Live crc32Ieee c k (boot c n.disk).2 q := by
  rw [boot_eq]
  refine ⟨rfl, ?_⟩
  rcases Nat.eq_zero_or_pos q.length with hq | hq
  · obtain rfl := List.length_eq_zero_iff.mp hq
    have hnone : ∀ i, i < c.nslots → (hdrAt c n.disk i).counts = false := by
      intro i hi
      rw [← Bool.not_eq_true]
      intro hcounts
      obtain ⟨j, hj, -⟩ := h.only i hi hcounts
      exact absurd hj (Nat.not_lt_zero _)
    rw [recover_empty c _ hnone]
    exact live_nil (holds_nil rfl rfl rfl rfl) rfl hnone
  · obtain ⟨hhead, htail, hcount⟩ := h.recover hk hq Spool.off
    have hseq : ∀ j, (Spool.off.recover c (scanAll c n.disk)).seqAt j = n.ram.seqAt j := by
      intro j
      rw [Spool.seqAt, hhead, Spool.seqAt]
    obtain ⟨es, hw, rfl⟩ := h.holds
    refine ⟨⟨es, ⟨rfl, ?_, ?_, hw.cap, rfl, ?_⟩, rfl⟩, ?_, ?_⟩
    · rw [hcount]
      exact hw.count
    · rw [htail, hseq]
      exact hw.tail
    · intro j e he
      rw [hseq]
      exact hw.held j e he
    · simp only [hseq]
      exact h.only
    · rw [hhead]
      exact h.early

/-- **One operation.** -/
theorem Live.step {k : ℕ} {n : Node Disk} {q : List Bytes} (h : Live crc32Ieee c k n q)
    (op : RebootOp) (hk : k + op.cost < 2 ^ 32)
    (hpeek : ∀ bufSize, op = .call (.peek bufSize) → spoolPayloadMax < bufSize) :
    (rebootStep crc32Ieee c op n).1 = (rebootQueueStep c.nslots op q).1 ∧
    Live crc32Ieee c (k + op.cost) (rebootStep crc32Ieee c op n).2
      (rebootQueueStep c.nslots op q).2 := by
  cases op with
  | reboot => exact h.reboot (by omega)
  | call op =>
      obtain ⟨hout, hholds⟩ := h.holds.step (h.tailFree (by omega)) op
      refine ⟨hout, ?_⟩
      have ht := h.tick
      cases op with
      | push json =>
          change k + 1 < 2 ^ 32 at hk
          show Live crc32Ieee c (k + 1) (diskStep crc32Ieee c (.push json) n).2
            (queueStep c.nslots (.push json) q).2
          rw [queueStep] at hholds ⊢
          by_cases hj : spoolPayloadMax < json.length
          · rw [if_pos hj] at hholds ⊢
            rw [diskStep_push_long h.holds.ready hj] at hholds ⊢
            exact ⟨hholds, h.only, Nat.le_succ_of_le h.early⟩
          · rw [if_neg hj]
            exact ht.push hk (Nat.le_of_not_lt hj)
      | peek bufSize =>
          have hbig := ht.holds.peek_big (hpeek bufSize rfl)
          have hq : (queueStep c.nslots (.peek bufSize) q).2 = q := by
            rw [queueStep, if_pos (hpeek bufSize rfl)]
            cases q <;> rfl
          show Live crc32Ieee c k (diskStep crc32Ieee c (.peek bufSize) n).2
            (queueStep c.nslots (.peek bufSize) q).2
          rw [hq, diskStep, hbig]
          exact ht
      | commit => exact ht.commit (by omega)
      | wipe => exact ht.wipe

/-- The pushes of a run. -/
def pushes (ops : List RebootOp) : ℕ := (ops.map RebootOp.cost).sum

/-- **Reboots keep the queue.** Start on a region with no valid record, with buffers that take
every record and fewer than `2 ^ 32 - 1` pushes: after any run, also one with reboots in it, a
reboot recovers the records that were queued before it, in order, and they are those of the
queue that knows no reboots. -/
theorem reboot_keeps_queue (crc32Ieee : Bytes → UInt32) (c : SpoolConfig) (d : Disk)
    (hnone : ∀ i, i < c.nslots → (hdrAt c d i).counts = false) (ops : List RebootOp)
    (hpeek : ∀ bufSize, RebootOp.call (.peek bufSize) ∈ ops → spoolPayloadMax < bufSize)
    (hpush : pushes ops < 2 ^ 32 - 1) :
    let before := runState (rebootStep crc32Ieee c) ops (boot c d).2
    let queue := runState (rebootQueueStep c.nslots) ops []
    let after := boot c before.disk
    after.1 = (0, none) ∧
    spooled crc32Ieee c after.2 = spooled crc32Ieee c before ∧
    after.2.ram.recCount.toNat = (spooled crc32Ieee c before).length ∧
    spooled crc32Ieee c before = queue ∧
    (run (rebootStep crc32Ieee c) ops (boot c d).2).1
      = (run (rebootQueueStep c.nslots) ops []).1 := by
  intro before queue after
  have hstart : Live crc32Ieee c 0 (boot c d).2 [] := by
    rw [boot_eq, recover_empty c _ hnone]
    exact live_nil (holds_nil rfl rfl rfl rfl) rfl hnone
  have hbudget : 0 + (ops.map RebootOp.cost).sum ≤ 2 ^ 32 - 2 := by
    rw [pushes] at hpush
    omega
  obtain ⟨hout, hend⟩ :
      (run (rebootStep crc32Ieee c) ops (boot c d).2).1
        = (run (rebootQueueStep c.nslots) ops []).1 ∧
      Live crc32Ieee c (0 + (ops.map RebootOp.cost).sum) before queue := by
    refine run_refines_count ?_ hbudget hstart
    rintro op hop k n q hk hlive
    refine hlive.step op (by omega) ?_
    rintro bufSize rfl
    exact hpeek bufSize hop
  obtain ⟨hret, hafter⟩ := hend.reboot (by omega)
  have hbefore := hend.holds.spooled
  refine ⟨hret, ?_, ?_, hbefore, hout⟩
  · rw [hafter.holds.spooled, hbefore]
  · rw [hbefore, hafter.holds.length_le.1]

theorem reboot_keeps_queue_default :
    let ops : List RebootOp :=
      [.call (.push [65]), .reboot, .call (.push [66]), .call (.peek 1520), .call .commit]
    (∀ i, i < 2048 → (hdrAt defaultSpool Disk.blank i).counts = false) ∧
    (∀ bufSize, RebootOp.call (.peek bufSize) ∈ ops → spoolPayloadMax < bufSize) ∧
    pushes ops < 2 ^ 32 - 1 ∧
    spooled Crc32.ieee defaultSpool (boot defaultSpool
      (runState (rebootStep Crc32.ieee defaultSpool) ops
        (boot defaultSpool Disk.blank).2).disk).2 = [[66]] := by
  intro ops
  have hnone : ∀ i, i < 2048 → (hdrAt defaultSpool Disk.blank i).counts = false :=
    fun i _ => counts_blank defaultSpool i
  have hpeek : ∀ bufSize, RebootOp.call (.peek bufSize) ∈ ops → spoolPayloadMax < bufSize := by
    intro bufSize hmem
    obtain rfl : bufSize = 1520 := by simpa [ops] using hmem
    decide
  obtain ⟨-, hsame, -, hqueue, -⟩ :=
    reboot_keeps_queue Crc32.ieee defaultSpool Disk.blank hnone ops hpeek (by decide)
  exact ⟨hnone, hpeek, by decide, hsame.trans (hqueue.trans rfl)⟩

/-- A record that `spool_peek` skipped because the buffer was too small is queued again after a
reboot: the skip leaves its header on the disk. -/
theorem reboot_revives_skipped :
    let before := runState (rebootStep Crc32.ieee oneSlot)
      [.call (.push [65]), .call (.peek 1)] (boot oneSlot Disk.blank).2
    (∀ i, i < 1 → (hdrAt oneSlot Disk.blank i).counts = false) ∧
    spooled Crc32.ieee oneSlot before = [] ∧
    spooled Crc32.ieee oneSlot (boot oneSlot before.disk).2 = [[65]] := by
  decide +kernel

end Reboot

end IotcDemos
