import IotcDemos.Gateway.Main

set_option autoImplicit false

/-! # The drain and the command thread

The main thread peeks, publishes and commits in three separate steps, and `spool_commit` names no
record. The command thread may run `spool_wipe` between any two of them. The main thread is the
only one that pushes, and it does not push between its peek and its commit; so between the two
the head of the window moves only to an empty window (`HeldForCommit`). Hence a commit removes
the record that was peeked and published, or nothing (`commit_removes_published`).
-/

namespace IotcDemos

/-- Where the main thread is in its drain. -/
inductive DrainPc where
  | idle
  /-- `spool_peek` has returned a record. -/
  | peeked
  /-- `publish_raw` has been called with it. -/
  | published
  deriving DecidableEq

/-- The spool and the main thread. -/
structure DrainState where
  node : Node Disk
  pc : DrainPc
  /-- The record of the last `spool_peek` that returned one. -/
  spoolOut : Option Entry
  /-- The records published, newest first. -/
  sent : List Entry

/-- The steps of the two threads. -/
inductive DrainEvent where
  | push (json : Bytes)
  | peek
  | publish
  | commit
  /-- `spool-wipe`, on the command thread. -/
  | wipe
  deriving DecidableEq

section Interleaving

variable (crc32Ieee : Bytes → UInt32) (c : SpoolConfig)

/-- `spool_peek` with a buffer of `SPOOL_PAYLOAD_MAX + 1` bytes; a number that is not positive ends
the drain. -/
def DrainState.peek (s : DrainState) : DrainState :=
  match spoolPeek Disk.reliable crc32Ieee c (spoolPayloadMax + 1) { s.node with
    disk := s.node.disk.tick } with
  | (n, some b, node) =>
      if n ≤ 0 then { s with node := node }
      else
        { s with
          node := node
          pc := .peeked
          spoolOut := some (stampAt c node.disk (slotIdx c node.ram.headSeq), b) }
  | (_, none, node) => { s with node := node }

/-- One step. The main thread does what its place in the program lets it do; the command thread
wipes at any time. -/
def drainStep : DrainEvent → DrainState → Unit × DrainState
  | .push json, s =>
      ((), if s.pc = .idle then { s with node := (diskStep crc32Ieee c (.push json) s.node).2 }
        else s)
  | .peek, s => ((), if s.pc = .idle then s.peek crc32Ieee c else s)
  | .publish, s =>
      ((), if s.pc = .peeked then
          { s with pc := .published, sent := s.spoolOut.toList ++ s.sent }
        else s)
  | .commit, s =>
      ((), if s.pc = .published then
          { s with pc := .idle, node := (diskStep crc32Ieee c .commit s.node).2 }
        else s)
  | .wipe, s => ((), { s with node := (diskStep crc32Ieee c .wipe s.node).2 })

/-- The program has started on the disk `d`. -/
def drainStart (d : Disk) : DrainState := ⟨(boot c d).2, .idle, none, []⟩

/-- The commit that is coming will find the record `e` at the head, or nothing at all. -/
def HeldForCommit (n : Node Disk) (e : Entry) : Prop :=
  n.ram.recCount = 0 ∨ (0 < n.ram.recCount ∧ entryOf crc32Ieee c n.disk n.ram.headSeq = some e)

/-- What holds between any two steps of the two threads. -/
structure DrainInv (s : DrainState) : Prop where
  ready : s.node.ram.ready = true
  peeked : s.pc ≠ .idle → ∃ e, s.spoolOut = some e ∧ HeldForCommit crc32Ieee c s.node e
  published : s.pc = .published → s.sent.head? = s.spoolOut

variable {crc32Ieee c}

/-! ## What a commit removes -/

/-- A commit takes the front entry off the queue and leaves the others. -/
theorem queued_commit {n : Node Disk} (hr : n.ram.ready = true) (hpos : 0 < n.ram.recCount)
    {e : Entry} (he : entryOf crc32Ieee c n.disk n.ram.headSeq = some e) :
    queued crc32Ieee c n = e :: queued crc32Ieee c (spoolCommit Disk.reliable c n).2 := by
  have hlt := n.ram.recCount.toNat_lt
  obtain ⟨m, hm⟩ : ∃ m, n.ram.recCount.toNat = m + 1 :=
    Nat.exists_eq_succ_of_ne_zero (Nat.ne_of_gt (UInt32.lt_iff_toNat_lt.mp hpos))
  have hcount : n.ram.committed.recCount.toNat = m := toNat_pred hm
  rw [spoolCommit_eq c hr hpos]
  unfold queued
  rw [hm, hcount]
  exact entriesFrom_commit (by omega) (entryOf_eq_some.mp he)

/-! ## The steps -/

variable (crc32Ieee c) in
/-- What `spool_peek` has returned is at the head. -/
theorem peek_heldForCommit {n : Node Disk} (hr : n.ram.ready = true) {b : Bytes}
    (hb : (spoolPeek Disk.reliable crc32Ieee c (spoolPayloadMax + 1) n).2.1 = some b) :
    let n' := (spoolPeek Disk.reliable crc32Ieee c (spoolPayloadMax + 1) n).2.2
    HeldForCommit crc32Ieee c n' (stampAt c n'.disk (slotIdx c n'.ram.headSeq), b) := by
  intro n'
  obtain ⟨j, hp⟩ := spoolPeek_spec crc32Ieee c (spoolPayloadMax + 1) hr
  have hnode : n' = ⟨n.disk, Spool.skip^[j] n.ram⟩ := hp.node
  rcases hp.found with ⟨-, hnone, -⟩ | ⟨b', -, hsome, hj, -, hrec⟩
  · rw [hnone] at hb
    exact absurd hb (by simp)
  · obtain rfl : b' = b := Option.some.inj (hsome.symm.trans hb)
    obtain ⟨m, hm⟩ : ∃ m, n.ram.recCount.toNat = j + (m + 1) := Nat.exists_eq_add_of_lt hj
    right
    rw [hnode]
    refine ⟨?_, entryOf_eq_some.mpr ⟨?_, rfl⟩⟩
    · apply UInt32.lt_iff_toNat_lt.mpr
      rw [skips_recCount hm]
      exact Nat.succ_pos m
    · show recordAt crc32Ieee c n.disk (Spool.skip^[j] n.ram).headSeq = some b'
      rw [skips_headSeq]
      exact hrec

variable (crc32Ieee c) in
theorem peek_ready {n : Node Disk} (hr : n.ram.ready = true) (bufSize : ℕ) :
    (spoolPeek Disk.reliable crc32Ieee c bufSize n).2.2.ram.ready = true := by
  obtain ⟨j, hp⟩ := spoolPeek_spec crc32Ieee c bufSize hr
  rw [hp.node, skips_ready, hr]

theorem DrainInv.peek {s : DrainState} (h : DrainInv crc32Ieee c s) (hpc : s.pc = .idle) :
    DrainInv crc32Ieee c (s.peek crc32Ieee c) := by
  have hr : (Node.mk s.node.disk.tick s.node.ram).ram.ready = true := h.ready
  have hready := peek_ready crc32Ieee c hr (spoolPayloadMax + 1)
  have hheld := fun b => peek_heldForCommit crc32Ieee c (b := b) hr
  unfold DrainState.peek
  generalize spoolPeek Disk.reliable crc32Ieee c (spoolPayloadMax + 1)
    (Node.mk s.node.disk.tick s.node.ram) = r at hready hheld
  obtain ⟨n, _ | b, node⟩ := r
  · exact ⟨hready, fun hne => absurd hpc hne, h.published⟩
  · by_cases hn : n ≤ 0
    · simp only [hn, if_true]
      exact ⟨hready, fun hne => absurd hpc hne, h.published⟩
    · simp only [hn, if_false]
      exact ⟨hready, fun _ => ⟨_, rfl, hheld b rfl⟩, fun hp => by cases hp⟩

theorem spoolPush_ready {n : Node Disk} (hr : n.ram.ready = true) (json : Bytes) :
    (spoolPush Disk.reliable crc32Ieee c json n).2.ram.ready = true := by
  by_cases hj : json.length ≤ spoolPayloadMax
  · rw [spoolPush_eq crc32Ieee c hr hj]
    show (n.ram.makeRoom c).ready = true
    rw [makeRoom_ready, hr]
  · rw [spoolPush_long hr (by omega)]
    exact hr

theorem spoolCommit_ready {n : Node Disk} (hr : n.ram.ready = true) :
    (spoolCommit Disk.reliable c n).2.ram.ready = true := by
  by_cases hc : n.ram.recCount = 0
  · rw [spoolCommit_empty hr hc]
    exact hr
  · rw [spoolCommit_eq c hr (UInt32.pos_iff_ne_zero.mpr hc)]
    exact hr

/-- A wipe leaves nothing to commit. -/
theorem HeldForCommit.wipe {n : Node Disk} (hr : n.ram.ready = true) (e : Entry) :
    HeldForCommit crc32Ieee c (diskStep crc32Ieee c .wipe n).2 e := by
  left
  show (spoolWipe Disk.reliable c ⟨n.disk.tick, n.ram⟩).2.ram.recCount = 0
  rw [spoolWipe_eq c (n := ⟨n.disk.tick, n.ram⟩) hr]
  rfl

/-- **Every step of either thread keeps the invariant.** -/
theorem DrainInv.step {s : DrainState} (h : DrainInv crc32Ieee c s) (ev : DrainEvent) :
    DrainInv crc32Ieee c (drainStep crc32Ieee c ev s).2 := by
  have hr : (Node.mk s.node.disk.tick s.node.ram).ram.ready = true := h.ready
  cases ev with
  | push json =>
      -- only the idle main thread pushes: nothing is held for a commit
      show DrainInv crc32Ieee c (if s.pc = .idle then _ else s)
      split
      · rename_i hpc
        exact ⟨spoolPush_ready hr json, fun hne => absurd hpc hne, h.published⟩
      · exact h
  | peek =>
      show DrainInv crc32Ieee c (if s.pc = .idle then _ else s)
      split
      · rename_i hpc
        exact h.peek hpc
      · exact h
  | publish =>
      show DrainInv crc32Ieee c (if s.pc = .peeked then _ else s)
      split
      · rename_i hpc
        obtain ⟨e, hout, hheld⟩ := h.peeked (by rw [hpc]; decide)
        refine ⟨h.ready, fun _ => ⟨e, hout, hheld⟩, fun _ => ?_⟩
        show (s.spoolOut.toList ++ s.sent).head? = s.spoolOut
        rw [hout]
        rfl
      · exact h
  | commit =>
      show DrainInv crc32Ieee c (if s.pc = .published then _ else s)
      split
      · exact ⟨spoolCommit_ready hr, fun hne => absurd rfl hne, fun hp => by cases hp⟩
      · exact h
  | wipe =>
      refine ⟨?_, ?_, h.published⟩
      · show (spoolWipe Disk.reliable c ⟨s.node.disk.tick, s.node.ram⟩).2.ram.ready = true
        rw [spoolWipe_eq c (n := ⟨s.node.disk.tick, s.node.ram⟩) hr]
        exact hr
      · intro hpc
        obtain ⟨e, hout, -⟩ := h.peeked hpc
        exact ⟨e, hout, HeldForCommit.wipe h.ready e⟩

theorem drainInv_start (d : Disk) : DrainInv crc32Ieee c (drainStart c d) := by
  refine ⟨?_, fun hne => absurd rfl hne, fun hp => by cases hp⟩
  show (boot c d).2.ram.ready = true
  rw [boot_eq]
  rfl

variable (crc32Ieee c)

/-- **A commit removes what was published, or nothing.** From any disk image, in every interleaving
of the main loop with the wipes of the command thread, every commit either changes nothing or
takes exactly one record out of the spool: the one that `spool_peek` returned last and that was
published last. -/
theorem commit_removes_published (d : Disk) (evs : List DrainEvent) :
    ∀ p ∈ trace (drainStep crc32Ieee c) evs (drainStart c d), p.1 = .commit →
      let s' := (drainStep crc32Ieee c p.1 p.2).2
      (s'.node.ram = p.2.node.ram ∧ s'.node.disk.cell = p.2.node.disk.cell) ∨
      ∃ e, p.2.spoolOut = some e ∧ p.2.sent.head? = some e ∧
        queued crc32Ieee c p.2.node = e :: queued crc32Ieee c s'.node := by
  intro p hp hcommit
  obtain ⟨pre, post, -, hstate⟩ := mem_trace.mp hp
  have hinv : DrainInv crc32Ieee c p.2 := by
    rw [hstate]
    exact run_inv (fun ev _ _ h => h.step ev) (drainInv_start d)
  have hr : (Node.mk p.2.node.disk.tick p.2.node.ram).ram.ready = true := hinv.ready
  rw [hcommit]
  by_cases hpc : p.2.pc = .published
  · obtain ⟨e, hout, hheld⟩ := hinv.peeked (by rw [hpc]; decide)
    have hnext : (drainStep crc32Ieee c .commit p.2).2.node
        = (spoolCommit Disk.reliable c ⟨p.2.node.disk.tick, p.2.node.ram⟩).2 := by
      show (if p.2.pc = .published then _ else p.2 : DrainState).node = _
      rw [if_pos hpc]
      rfl
    rcases hheld with hzero | ⟨hpos, hhead⟩
    · -- a wipe has come in between
      left
      rw [hnext, spoolCommit_empty hr hzero]
      exact ⟨rfl, rfl⟩
    · right
      refine ⟨e, hout, by rw [hinv.published hpc, hout], ?_⟩
      rw [hnext]
      calc queued crc32Ieee c p.2.node
          = queued crc32Ieee c ⟨p.2.node.disk.tick, p.2.node.ram⟩ :=
            entriesFrom_congr fun _ _ => rfl
        _ = e :: _ := queued_commit hr hpos hhead
  · -- the main thread is not at a commit
    left
    show (if p.2.pc = .published then _ else p.2 : DrainState).node.ram = _ ∧ _
    show _ ∧ (if p.2.pc = .published then _ else p.2 : DrainState).node.disk.cell = _
    rw [if_neg hpc]
    exact ⟨rfl, rfl⟩

/-- A record is published, the spool is wiped before the commit, and the next record is drained:
one commit removes nothing, the other the record it was meant for. -/
theorem commit_removes_published_wiped :
    let evs : List DrainEvent := [.push [65], .peek, .publish, .wipe, .commit, .push [66], .peek,
      .publish, .commit]
    let s := runState (drainStep Crc32.ieee oneSlot) evs.dropLast (drainStart oneSlot Disk.blank)
    let s' := (drainStep Crc32.ieee oneSlot .commit s).2
    (s'.node.ram = s.node.ram ∧ s'.node.disk.cell = s.node.disk.cell) ∨
    ∃ e, s.spoolOut = some e ∧ s.sent.head? = some e ∧
      queued Crc32.ieee oneSlot s.node = e :: queued Crc32.ieee oneSlot s'.node := by
  intro evs s
  have hlast : (DrainEvent.commit, s) ∈ trace (drainStep Crc32.ieee oneSlot) evs
      (drainStart oneSlot Disk.blank) :=
    mem_trace.mpr ⟨evs.dropLast, [], rfl, rfl⟩
  exact commit_removes_published Crc32.ieee oneSlot Disk.blank evs _ hlast rfl

end Interleaving

end IotcDemos
