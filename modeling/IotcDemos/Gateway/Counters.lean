import IotcDemos.Gateway.Accounting
import IotcDemos.Gateway.Recovery
import IotcDemos.Lib.FaultyDisk

set_option autoImplicit false

/-! # The counters of the spool when the disk fails

Every operation updates `head_seq`, `tail_seq`, `rec_count` and the published copy `stats.count`
on several branches. On an arbitrary disk, from the start of the program on, the window is never
wider than the ring and `rec_count` is its width (`spanned_run`). The published count is the same,
with one exception: a push that has made room in a full ring and then meets a failing slot write
leaves `stats.count` behind (`counters_consistent_iff`).
-/

namespace IotcDemos

section Counters

variable {D : Type} (drv : DiskAccess D) (crc32Ieee : Bytes → UInt32) (c : SpoolConfig)

/-- `rec_count` is the width of the window, and the window fits the ring. -/
structure Spanned (s : Spool) : Prop where
  width : s.tailSeq - s.headSeq = s.recCount
  cap : s.recCount.toNat ≤ c.nslots

/-- The count other threads are shown is the count of the window. -/
structure Consistent (s : Spool) : Prop extends Spanned c s where
  published : s.stats.count = s.recCount

/-! ## The counters under each update -/

theorem spanned_off : Spanned c Spool.off := ⟨rfl, Nat.zero_le _⟩

variable {c}

/-- The oldest record leaves the window. -/
theorem Spanned.leave {s : Spool} (s' : Spool) (h : Spanned c s) (hpos : 0 < s.recCount.toNat)
    (htail : s'.tailSeq = s.tailSeq) (hhead : s'.headSeq = s.headSeq + 1)
    (hcount : s'.recCount = s.recCount - 1) :
    Spanned c s' ∧ s'.recCount.toNat + 1 = s.recCount.toNat := by
  have hcap := h.cap
  -- there is a record to leave
  obtain ⟨k, hk⟩ : ∃ k, s.recCount.toNat = k + 1 := Nat.exists_eq_add_of_lt hpos |>.imp (by simp)
  have hpred : s'.recCount.toNat = k := by
    rw [hcount]
    exact toNat_pred hk
  refine ⟨⟨?_, by omega⟩, by omega⟩
  calc s'.tailSeq - s'.headSeq = s.tailSeq - s.headSeq - 1 := by rw [htail, hhead]; grind
    _ = s.recCount - 1 := by rw [h.width]
    _ = s'.recCount := hcount.symm

theorem Spanned.makeRoom {s : Spool} (h : Spanned c s) :
    Spanned c (s.makeRoom c) ∧ (s.makeRoom c).recCount.toNat < c.nslots := by
  have hcap := h.cap
  unfold Spool.makeRoom
  split
  · have hpos := c.pos
    obtain ⟨hspan, hcount⟩ := h.leave s.sacrifice (by omega) rfl rfl rfl
    exact ⟨hspan, by omega⟩
  · exact ⟨h, by omega⟩

theorem Spanned.appended {s : Spool} (h : Spanned c s) (hroom : s.recCount.toNat < c.nslots) :
    Spanned c s.appended := by
  have hn := nslots_lt c
  refine ⟨?_, ?_⟩
  · calc s.tailSeq + 1 - s.headSeq = s.tailSeq - s.headSeq + 1 := by grind
      _ = s.recCount + 1 := by rw [h.width]
  · show (s.recCount + 1).toNat ≤ c.nslots
    rw [toNat_succ (by omega)]
    exact hroom

/-! ## The recovery scan on an arbitrary disk -/

variable {drv crc32Ieee}

/-- A complete scan has seen one header for each slot. -/
theorem scanSlots_some {k i : ℕ} {d d' : D} {a a' : Scan}
    (h : scanSlots drv c k i d a = (some a', d')) :
    ∃ hs : List RecHdr, hs.length = k ∧ a' = hs.foldl Scan.see a := by
  induction k generalizing i d a with
  | zero =>
      cases h
      exact ⟨[], rfl, rfl⟩
  | succ k ih =>
      unfold scanSlots at h
      generalize readHdr drv (slotSector c i) d = r at h
      obtain ⟨_ | hdr, d1⟩ := r
      · cases h
      · obtain ⟨hs, hlen, rfl⟩ := ih h
        exact ⟨hdr :: hs, by rw [List.length_cons, hlen], rfl⟩

/-- The recovered window is at most as wide as the ring, whatever the headers are. -/
theorem consistent_recover (s : Spool) {hs : List RecHdr} (hlen : hs.length = c.nslots) :
    Consistent c (s.recover c (hs.foldl Scan.see Scan.start)) := by
  have hpos := c.pos
  have hn := nslots_lt c
  have hseen : Seen hs (hs.foldl Scan.see Scan.start) := seen_foldl (by omega)
  generalize hs.foldl Scan.see Scan.start = a at hseen
  by_cases hany : ∃ h ∈ hs, h.counts = true
  · have hsome : 0 < (hs.filter RecHdr.counts).length := by
      obtain ⟨h, hmem, hc⟩ := hany
      exact List.length_pos_of_mem (List.mem_filter.mpr ⟨hmem, hc⟩)
    -- a header that counts was counted
    have hvalid : a.valid ≠ 0 := by
      intro hzero
      have hlen0 := hseen.valid
      rw [hzero, UInt32.toNat_zero] at hlen0
      omega
    rw [recover_of_valid c s hvalid]
    refine ⟨⟨rfl, ?_⟩, rfl⟩
    -- the clamp leaves at most `NSLOTS` numbers up to the greatest
    have hhead := clampedHead_toNat c a
    have hmin : a.minSeq.toNat ≤ a.maxSeq.toNat := by
      obtain ⟨h, hmem, hc⟩ := hany
      obtain ⟨hlo, hhi⟩ := hseen.bounds h hmem hc
      exact UInt32.le_iff_toNat_le.mp (UInt32.le_trans hlo hhi)
    have hmax := a.maxSeq.toNat_lt
    show (a.maxSeq + 1 - clampedHead c a).toNat ≤ c.nslots
    rw [UInt32.toNat_sub, UInt32.toNat_add, UInt32.toNat_one]
    omega
  · have hstart : a = Scan.start := hseen.start fun h hmem => by
      rw [← Bool.not_eq_true]
      exact fun hc => hany ⟨h, hmem, hc⟩
    rw [hstart]
    exact ⟨⟨UInt32.sub_self 0, Nat.zero_le _⟩, rfl⟩

/-! ## The functions

`Keeps` is what every update does to the counters, but for the push that fails on a full ring. -/

variable (c) in
/-- An update that keeps the counters together. -/
structure Keeps (s s' : Spool) : Prop where
  spanned : Spanned c s → Spanned c s'
  published : s.stats.count = s.recCount → s'.stats.count = s'.recCount

theorem Keeps.refl (s : Spool) : Keeps c s s := ⟨id, id⟩

theorem Keeps.trans {s s' s'' : Spool} (h : Keeps c s s') (h' : Keeps c s' s'') :
    Keeps c s s'' :=
  ⟨h'.spanned ∘ h.spanned, h'.published ∘ h.published⟩

theorem Keeps.of_spanned {s s' : Spool} (hspan : Spanned c s → Spanned c s')
    (hcount : s'.stats.count = s'.recCount) : Keeps c s s' := ⟨hspan, fun _ => hcount⟩

theorem spoolInit_keeps (n : Node D) : Keeps c n.ram (spoolInit drv c n).2.ram := by
  unfold spoolInit
  generalize drv.init n.disk = r
  obtain ⟨ret, d⟩ := r
  by_cases hret : ret = 0
  · simp only [hret, ne_eq, not_true_eq_false, if_false]
    rcases hscan : scanSlots drv c c.nslots 0 d Scan.start with ⟨_ | a, d'⟩
    · exact Keeps.refl _
    · -- what was in RAM before does not matter
      obtain ⟨hs, hlen, rfl⟩ := scanSlots_some hscan
      have hrec := consistent_recover n.ram hlen
      exact Keeps.of_spanned (fun _ => hrec.toSpanned) hrec.published
  · simp only [ne_eq, hret, not_false_eq_true, if_true]
    exact Keeps.refl _

theorem keeps_skip {s : Spool} (hpos : 0 < s.recCount.toNat) : Keeps c s s.skip :=
  Keeps.of_spanned (fun h => (h.leave s.skip hpos rfl rfl rfl).1) rfl

theorem peekLoop_keeps (bufSize : ℕ) {k : ℕ} {n : Node D} (hk : k ≤ n.ram.recCount.toNat) :
    Keeps c n.ram (peekLoop drv crc32Ieee c bufSize k n).2.2.ram := by
  induction k generalizing n with
  | zero => exact Keeps.refl _
  | succ k ih =>
      unfold peekLoop
      generalize drv.read (slotOf c n.ram.headSeq) spoolSlotSectors n.disk = r
      obtain ⟨_ | buf, d⟩ := r
      · exact Keeps.refl _
      · by_cases hacc : acceptable crc32Ieee buf n.ram.headSeq bufSize
        · simp only [hacc, if_true]
          exact Keeps.refl _
        · simp only [hacc, Bool.false_eq_true, if_false]
          obtain ⟨m, hm⟩ : ∃ m, n.ram.recCount.toNat = m + 1 :=
            Nat.exists_eq_succ_of_ne_zero (by omega)
          have hskip : n.ram.skip.recCount.toNat = m := toNat_pred hm
          -- the record is passed over, and the loop goes on
          apply (keeps_skip (by omega)).trans
          exact ih (n := ⟨d, n.ram.skip⟩) (by show k ≤ n.ram.skip.recCount.toNat; omega)

theorem spoolPeek_keeps (bufSize : ℕ) (n : Node D) :
    Keeps c n.ram (spoolPeek drv crc32Ieee c bufSize n).2.2.ram := by
  unfold spoolPeek
  split
  · exact Keeps.refl _
  · exact peekLoop_keeps bufSize (Nat.le_refl _)

theorem spoolCommit_keeps (n : Node D) : Keeps c n.ram (spoolCommit drv c n).2.ram := by
  unfold spoolCommit
  split
  · exact Keeps.refl _
  · split
    · rename_i hpos
      have hpos' : 0 < n.ram.recCount.toNat := UInt32.lt_iff_toNat_lt.mp hpos
      exact Keeps.of_spanned (fun h => (h.leave n.ram.committed hpos' rfl rfl rfl).1) rfl
    · exact Keeps.refl _

theorem spoolWipe_keeps (n : Node D) : Keeps c n.ram (spoolWipe drv c n).2.ram := by
  unfold spoolWipe
  split
  · exact Keeps.refl _
  · apply Keeps.of_spanned
    · intro _
      exact ⟨UInt32.sub_self 0, Nat.zero_le _⟩
    · rfl

/-! ## The push -/

variable (drv crc32Ieee c) in
/-- A push gives up the oldest record of a full ring, and its slot write fails. -/
def evictsUnwritten (json : Bytes) (n : Node D) : Bool :=
  n.ram.ready && decide (n.ram.recCount.toNat = c.nslots) &&
    slotWriteFails drv crc32Ieee c (.push json) n

variable (drv crc32Ieee) in
theorem spoolPush_spanned (json : Bytes) {n : Node D} (h : Spanned c n.ram) :
    Spanned c (spoolPush drv crc32Ieee c json n).2.ram := by
  unfold spoolPush
  split
  · exact h
  · split
    · exact ⟨h.width, h.cap⟩
    · obtain ⟨hroom, hlt⟩ := h.makeRoom
      dsimp only
      split
      · exact hroom.appended hlt
      · exact hroom

variable (drv crc32Ieee) in
/-- The published count stays right unless the push evicts a record and is not written. -/
theorem spoolPush_published (json : Bytes) {n : Node D} (h : Consistent c n.ram) :
    (spoolPush drv crc32Ieee c json n).2.ram.stats.count
        = (spoolPush drv crc32Ieee c json n).2.ram.recCount ↔
      evictsUnwritten drv crc32Ieee c json n = false := by
  unfold evictsUnwritten slotWriteFails
  cases hr : n.ram.ready with
  | false =>
      have hnode : spoolPush drv crc32Ieee c json n = (-ENODEV, n) := by
        rw [spoolPush, if_pos hr]
      simp [hnode, h.published]
  | true =>
      by_cases hj : json.length ≤ spoolPayloadMax
      · rcases hw : slotWrite drv crc32Ieee c json n with ⟨ret, d⟩
        by_cases hret : ret = 0
        · subst hret
          rw [spoolPush_written hr hj hw]
          simp [Spool.appended, hw]
        · rw [spoolPush_failed hr hj hw hret]
          by_cases hfull : n.ram.recCount.toNat = c.nslots
          · -- `rec_count` has gone down by one and `stats.count` has not
            have hroom : n.ram.makeRoom c = n.ram.sacrifice := by rw [Spool.makeRoom, if_pos hfull]
            have hne : ¬ n.ram.stats.count = n.ram.recCount - 1 := by
              rw [h.published]
              grind
            simp [hroom, Spool.sacrifice, hne, hfull, hj, hw, hret]
          · have hroom : n.ram.makeRoom c = n.ram := by rw [Spool.makeRoom, if_neg hfull]
            simp [hroom, h.published, hfull]
      · rw [spoolPush_long hr (by omega)]
        simp [h.published, hj]

/-! ## Runs

A run starts when the program does, with the RAM as new: `spool_init` is one of its calls. -/

/-- A call of the spool, `spool_init` included. -/
inductive SpoolCall where
  | init
  | call (op : SpoolOp)
  deriving DecidableEq

variable (drv crc32Ieee c)

def callStep : SpoolCall → Node D → Answer × Node D
  | .init, n => (((spoolInit drv c n).1, none), (spoolInit drv c n).2)
  | .call op, n => spoolStep drv crc32Ieee c op n

/-- The one call that moves `rec_count` and not `stats.count`. -/
def desyncs : SpoolCall → Node D → Bool
  | .call (.push json), n => evictsUnwritten drv crc32Ieee c json n
  | _, _ => false

variable {drv crc32Ieee c}

/-- What a call does to the counters, in a state where they are consistent. -/
theorem callStep_counters (call : SpoolCall) {n : Node D} (h : Consistent c n.ram) :
    Consistent c (callStep drv crc32Ieee c call n).2.ram ↔
      desyncs drv crc32Ieee c call n = false := by
  have hkeeps : ∀ {n' : Node D}, Keeps c n.ram n'.ram → (Consistent c n'.ram ↔ false = false) :=
    fun hk => ⟨fun _ => rfl, fun _ => ⟨hk.spanned h.toSpanned, hk.published h.published⟩⟩
  cases call with
  | init => exact hkeeps (spoolInit_keeps n)
  | call op =>
      cases op with
      | push json =>
          have hspan := spoolPush_spanned drv crc32Ieee json h.toSpanned
          have hpub := spoolPush_published drv crc32Ieee json h
          exact ⟨fun hc => hpub.mp hc.published, fun hd => ⟨hspan, hpub.mpr hd⟩⟩
      | peek bufSize => exact hkeeps (spoolPeek_keeps bufSize n)
      | commit => exact hkeeps (spoolCommit_keeps n)
      | wipe => exact hkeeps (spoolWipe_keeps n)

theorem callStep_spanned (call : SpoolCall) {n : Node D} (h : Spanned c n.ram) :
    Spanned c (callStep drv crc32Ieee c call n).2.ram := by
  cases call with
  | init => exact (spoolInit_keeps n).spanned h
  | call op =>
      cases op with
      | push json => exact spoolPush_spanned drv crc32Ieee json h
      | peek bufSize => exact (spoolPeek_keeps bufSize n).spanned h
      | commit => exact (spoolCommit_keeps n).spanned h
      | wipe => exact (spoolWipe_keeps n).spanned h

variable (drv crc32Ieee c)

/-- **The window is always as wide as `rec_count` says, and fits the ring.** -/
theorem spanned_run (d : D) (calls : List SpoolCall) :
    Spanned c (runState (callStep drv crc32Ieee c) calls ⟨d, Spool.off⟩).ram :=
  run_inv (P := fun n : Node D => Spanned c n.ram) (fun call _ _ h => callStep_spanned call h)
    (spanned_off c)

/-- **When all counters agree.** From any disk image, under any pattern of disk failures, the
counters are consistent after every call of a run exactly when no push of the run gives up the
oldest record of a full ring and then meets a failing slot write. -/
theorem counters_consistent_iff (d : D) (calls : List SpoolCall) :
    let at' := fun pre => runState (callStep drv crc32Ieee c) pre ⟨d, Spool.off⟩
    (∀ pre, pre <+: calls → Consistent c (at' pre).ram) ↔
      ∀ pre call, pre ++ [call] <+: calls → desyncs drv crc32Ieee c call (at' pre) = false := by
  intro at'
  have hnext : ∀ pre call, at' (pre ++ [call]) = (callStep drv crc32Ieee c call (at' pre)).2 := by
    intro pre call
    show runState _ (pre ++ [call]) _ = _
    rw [runState_append]
    rfl
  constructor
  · intro hall pre call hpre
    have hbefore := hall pre ((List.prefix_append _ _).trans hpre)
    have hafter := hall _ hpre
    rw [hnext] at hafter
    exact (callStep_counters call hbefore).mp hafter
  · intro hok pre
    induction pre using List.reverseRecOn with
    | nil =>
        intro _
        exact ⟨spanned_off c, rfl⟩
    | append_singleton pre call ih =>
        intro hpre
        have hbefore := ih ((List.prefix_append _ _).trans hpre)
        rw [hnext]
        exact (callStep_counters call hbefore).mpr (hok pre call hpre)

/-- The disk of zeros on which access `k` fails and reaches nothing. -/
def failingAt (k : ℕ) : FaultyDisk :=
  ⟨Disk.blank, fun i => if i = k then some Fault.eio else none, 0⟩

/-- On a ring of one slot the second push fails at its slot write: the ring is empty and one
record is still shown as queued. -/
theorem evicted_record_still_shown :
    let n : Node FaultyDisk := runState (callStep FaultyDisk.faulty Crc32.ieee oneSlot)
      [.init, .call (.push [65]), .call (.push [66])] ⟨failingAt 4, Spool.off⟩
    n.ram.ready = true ∧ n.ram.recCount = 0 ∧ n.ram.stats.count = 1 ∧
    n.ram.stats.pushed = 1 ∧ ¬ Consistent oneSlot n.ram := by
  intro n
  have hcount : n.ram.recCount = 0 ∧ n.ram.stats.count = 1 := by decide +kernel
  refine ⟨by decide +kernel, hcount.1, hcount.2, by decide +kernel, ?_⟩
  intro hcons
  have hpub := hcons.published
  rw [hcount.1, hcount.2] at hpub
  exact absurd hpub (by decide)

end Counters

end IotcDemos
