import IotcDemos.Gateway.Shelf

set_option autoImplicit false

/-! # Power cuts

A run of the spool with power cuts, between two calls or in the middle of the slot write of a
push. Single-sector writes are atomic and a call that has returned is durable, so a cut in
`spool_commit` is one before or after it. After a cut the program starts again with `spool_init`.

The log says what happened to each record. A record is known by the number of the call
that pushed it, so that the order of the pushes is the order of the numbers. `crash_consistent`:
after any run, recovery and a drain deliver records in push order and byte for byte as pushed,
and miss no stored record but those the log accounts for, and those behind an empty record, which
ends the drain.
-/

namespace IotcDemos

/-- A call of the spool, or a power cut: between two calls, or in a push of which the sectors
`sel` reached the disk. -/
inductive CrashOp where
  | push (json : Bytes)
  | peek (bufSize : ℕ)
  | commit
  | cut
  | cutPush (json : Bytes) (sel : ℕ → Bool)

/-- The pushes among the operations. -/
def CrashOp.cost : CrashOp → ℕ
  | .push _ => 1
  | .cutPush _ _ => 1
  | _ => 0

/-- What happened to the records pushed, which are listed in push order. -/
structure CrashLog where
  /-- every push that was begun -/
  offered : List Entry
  /-- the pushes that returned 0 -/
  stored : List Entry
  /-- records removed by `spool_commit` -/
  committed : List ℕ
  /-- oldest records of a full ring, sacrificed by a push -/
  evicted : List ℕ
  /-- oldest records of a full ring whose slot a push was overwriting when the power was cut -/
  hit : List ℕ
  /-- records that `spool_peek` passed over because its buffer was too small -/
  skipped : List ℕ
  deriving DecidableEq

def CrashLog.empty : CrashLog := ⟨[], [], [], [], [], []⟩

/-- The records a drain may miss. -/
def CrashLog.Excused (l : CrashLog) (p : ℕ) : Prop :=
  p ∈ l.committed ∨ p ∈ l.evicted ∨ p ∈ l.hit ∨ p ∈ l.skipped

/-- The records that are no longer on the disk. -/
def CrashLog.Gone (l : CrashLog) (p : ℕ) : Prop := p ∈ l.committed ∨ p ∈ l.evicted

/-- The gateway and the log of its records. -/
structure Logged where
  node : Node Disk
  log : CrashLog

section Crash

variable (crc32Ieee : Bytes → UInt32) (c : SpoolConfig)

/-- The operation that pushed the record at `seq`, if there is a record. -/
def stampOf (d : Disk) (seq : UInt32) : List ℕ := (entryOf crc32Ieee c d seq).toList.map Prod.fst

/-- The record a push of `json` overwrites: the oldest of a full ring. -/
def overwritten (json : Bytes) (n : Node Disk) : List ℕ :=
  if json.length ≤ spoolPayloadMax ∧ n.ram.recCount.toNat = c.nslots then
    stampOf crc32Ieee c n.disk n.ram.headSeq
  else []

def crashNode : CrashOp → Node Disk → Answer × Node Disk
  | .push json, n => diskStep crc32Ieee c (.push json) n
  | .peek bufSize, n => diskStep crc32Ieee c (.peek bufSize) n
  | .commit, n => diskStep crc32Ieee c .commit n
  | .cut, n => boot c n.disk
  | .cutPush json sel, n =>
      -- what RAM had become is lost with the power
      boot c (spoolPush (Disk.torn sel) crc32Ieee c json { n with disk := n.disk.tick }).2.disk

/-- The records a peek passes over. -/
def passedOver (bufSize : ℕ) (n : Node Disk) : List ℕ :=
  let n' := (crashNode crc32Ieee c (.peek bufSize) n).2
  (List.range (n'.ram.headSeq - n.ram.headSeq).toNat).flatMap fun k =>
    stampOf crc32Ieee c n.disk (n.ram.seqAt k)

/-- The entries of an operation in the log. -/
def crashNote : CrashOp → Node Disk → CrashLog → CrashLog
  | .push json, n, l =>
      let e := (n.disk.tick.clock, json)
      { l with
        offered := l.offered ++ [e]
        stored := if (crashNode crc32Ieee c (.push json) n).1.1 = 0 then l.stored ++ [e]
          else l.stored
        evicted := l.evicted ++ overwritten crc32Ieee c json n }
  | .peek bufSize, n, l => { l with skipped := l.skipped ++ passedOver crc32Ieee c bufSize n }
  | .commit, n, l =>
      { l with
        committed := if n.ram.recCount = 0 then l.committed
          else l.committed ++ stampOf crc32Ieee c n.disk n.ram.headSeq }
  | .cut, _, l => l
  | .cutPush json _, n, l =>
      { l with
        offered := l.offered ++ [(n.disk.tick.clock, json)]
        hit := l.hit ++ overwritten crc32Ieee c json n }

def crashStep (op : CrashOp) (s : Logged) : Answer × Logged :=
  let (out, n) := crashNode crc32Ieee c op s.node
  (out, ⟨n, crashNote crc32Ieee c op s.node s.log⟩)

/-- The checksum finds the slot a power cut tore, unless the slot holds the record its header
was written for. -/
def TornDetected : CrashOp → Logged → Prop
  | .cutPush json sel, s =>
      let s' := (crashStep crc32Ieee c (.cutPush json sel) s).2
      Detected crc32Ieee c s'.log.offered s'.node.disk (slotIdx c s.node.ram.tailSeq)
  | _, _ => True

/-- What is true of the gateway and the log after `k` pushes, power cuts included. -/
structure Sound (k : ℕ) (n : Node Disk) (l : CrashLog) : Prop where
  ready : n.ram.ready = true
  count : n.ram.tailSeq.toNat = n.ram.headSeq.toNat + n.ram.recCount.toNat
  cap : n.ram.recCount.toNat ≤ c.nslots
  early : n.ram.tailSeq.toNat ≤ k
  shelf : Shelved crc32Ieee c n.ram.tailSeq.toNat l.offered n.disk
  kept : ∀ e ∈ l.stored, l.Excused e.1 ∨
    ∃ seq, n.ram.headSeq.toNat ≤ seq.toNat ∧ Held crc32Ieee c n.disk seq e

instance (op : CrashOp) (s : Logged) : Decidable (TornDetected crc32Ieee c op s) :=
  match op with
  | .push _ => inferInstanceAs (Decidable True)
  | .peek _ => inferInstanceAs (Decidable True)
  | .commit => inferInstanceAs (Decidable True)
  | .cut => inferInstanceAs (Decidable True)
  | .cutPush _ _ => inferInstanceAs (Decidable (Detected _ _ _ _ _))

variable {crc32Ieee c}

theorem mem_stampOf {d : Disk} {seq : UInt32} {e : Entry} (h : Held crc32Ieee c d seq e) :
    e.1 ∈ stampOf crc32Ieee c d seq := by
  rw [stampOf, entryOf_eq_some.mpr h]
  exact List.mem_singleton.mpr rfl

/-- A record that `spool_peek` finds has a header that counts. -/
theorem Held.counts {d : Disk} {seq : UInt32} {e : Entry} (h : Held crc32Ieee c d seq e) :
    (hdrAt c d (slotIdx c seq)).counts = true ∧ (hdrAt c d (slotIdx c seq)).seq = seq :=
  counts_of_acceptable crc32Ieee c ((recordAt_eq_some crc32Ieee c).mp h.1).1

section Step

variable {k : ℕ} {n : Node Disk} {l : CrashLog}

/-- A record of the window is within reach of the tail. -/
theorem Sound.reach (h : Sound crc32Ieee c k n l) {seq : UInt32} {e : Entry}
    (hheld : Held crc32Ieee c n.disk seq e) :
    seq.toNat < n.ram.tailSeq.toNat ∧ n.ram.tailSeq.toNat ≤ seq.toNat + c.nslots := by
  obtain ⟨hc, hseq⟩ := hheld.counts
  obtain ⟨-, hlow, hhigh⟩ := h.shelf.placed _ (slotIdx_lt c seq) hc
  rw [hseq] at hlow hhigh
  exact ⟨hlow, hhigh⟩

/-- Every record offered so far is older than the next call. -/
theorem Sound.fresh (h : Sound crc32Ieee c k n l) :
    ∀ e ∈ l.offered, e.1 < n.disk.tick.clock := by
  intro e he
  have := h.shelf.past e he
  rw [Disk.tick_clock]
  omega

/-- A slot write at the tail leaves the records of the window alone, but for the oldest of a
full ring. -/
theorem Sound.survives (h : Sound crc32Ieee c k n l) {seq : UInt32} {e : Entry} {json : Bytes}
    (hj : json.length ≤ spoolPayloadMax) (hheld : Held crc32Ieee c n.disk seq e)
    (hhead : n.ram.headSeq.toNat ≤ seq.toNat) :
    e.1 ∈ overwritten crc32Ieee c json n ∨ slotIdx c n.ram.tailSeq ≠ slotIdx c seq ∧
      (n.ram.recCount.toNat = c.nslots → n.ram.headSeq.toNat < seq.toNat) := by
  obtain ⟨hlow, hhigh⟩ := h.reach hheld
  have hcount := h.count
  have hcap := h.cap
  have hpos := c.pos
  -- a record `NSLOTS` behind the tail is the oldest of a full ring
  by_cases hlast : n.ram.tailSeq.toNat = seq.toNat + c.nslots
  · left
    have hfull : n.ram.recCount.toNat = c.nslots := by omega
    have holdest : n.ram.headSeq = seq := UInt32.toNat_inj.mp (by omega)
    rw [overwritten, if_pos ⟨hj, hfull⟩, holdest]
    exact mem_stampOf hheld
  · -- the record is less than `NSLOTS` behind the tail
    right
    exact ⟨(slotIdx_ne_of_near c hlow (by omega)).symm, by omega⟩

/-- A start of the program on a disk with the headers in order. -/
theorem sound_boot {tail : ℕ} {d : Disk} (hshelf : Shelved crc32Ieee c tail l.offered d)
    (htail : tail ≤ k) (hk : k < 2 ^ 32)
    (hkept : ∀ e ∈ l.stored, l.Excused e.1 ∨ ∃ seq, Held crc32Ieee c d seq e) :
    Sound crc32Ieee c k (boot c d).2 l := by
  obtain ⟨-, hdisk, hboot⟩ := hshelf.boot (by omega)
  refine ⟨hboot.ready, hboot.count, hboot.cap, hboot.early.trans htail, ?_, ?_⟩
  · rw [hdisk]
    exact hshelf.booted hboot
  · intro e he
    refine (hkept e he).imp_right ?_
    rintro ⟨seq, hheld⟩
    obtain ⟨hc, hseq⟩ := hheld.counts
    have hwindow := (hboot.window _ (slotIdx_lt c seq) hc).1
    rw [hseq] at hwindow
    rw [hdisk]
    exact ⟨seq, hwindow, hheld⟩

theorem Sound.tick (h : Sound crc32Ieee c k n l) :
    Sound crc32Ieee c k { n with disk := n.disk.tick } l :=
  ⟨h.ready, h.count, h.cap, h.early, h.shelf.tick, h.kept⟩

/-- RAM after a slot write at the tail: the ring has made room if it was full. -/
theorem appended_count (h : Sound crc32Ieee c k n l) (hk : k + 1 < 2 ^ 32) :
    (n.ram.makeRoom c).appended.tailSeq.toNat = n.ram.tailSeq.toNat + 1 ∧
      (n.ram.makeRoom c).appended.tailSeq.toNat = (n.ram.makeRoom c).appended.headSeq.toNat
        + (n.ram.makeRoom c).appended.recCount.toNat ∧
      (n.ram.makeRoom c).appended.recCount.toNat ≤ c.nslots ∧
      (n.ram.makeRoom c).appended.headSeq.toNat
        = if n.ram.recCount.toNat = c.nslots then n.ram.headSeq.toNat + 1
          else n.ram.headSeq.toNat := by
  have hcount := h.count
  have hcap := h.cap
  have hearly := h.early
  have hpos := c.pos
  have hn := nslots_lt c
  have htail : (n.ram.tailSeq + 1).toNat = n.ram.tailSeq.toNat + 1 := toNat_succ (by omega)
  by_cases hfull : n.ram.recCount.toNat = c.nslots
  · have hroom : n.ram.makeRoom c = n.ram.sacrifice := by rw [Spool.makeRoom, if_pos hfull]
    have hhead : (n.ram.headSeq + 1).toNat = n.ram.headSeq.toNat + 1 := toNat_succ (by omega)
    have hless : (n.ram.recCount - 1).toNat = c.nslots - 1 := toNat_pred (by omega)
    have hmore : (n.ram.recCount - 1 + 1).toNat = c.nslots := by
      rw [toNat_succ (by omega), hless]
      omega
    rw [hroom, if_pos hfull]
    refine ⟨htail, ?_, ?_, hhead⟩
    · show (n.ram.tailSeq + 1).toNat = (n.ram.headSeq + 1).toNat + (n.ram.recCount - 1 + 1).toNat
      omega
    · exact Nat.le_of_eq hmore
  · have hroom : n.ram.makeRoom c = n.ram := by rw [Spool.makeRoom, if_neg hfull]
    have hmore : (n.ram.recCount + 1).toNat = n.ram.recCount.toNat + 1 :=
      toNat_succ (by omega)
    rw [hroom, if_neg hfull]
    refine ⟨htail, ?_, ?_, rfl⟩
    · show (n.ram.tailSeq + 1).toNat = n.ram.headSeq.toNat + (n.ram.recCount + 1).toNat
      omega
    · show (n.ram.recCount + 1).toNat ≤ c.nslots
      omega

/-- A record survives a slot write, torn or not, or the log says that it was overwritten. -/
theorem Sound.overwrite (h : Sound crc32Ieee c k n l) (sel : ℕ → Bool) {json : Bytes}
    (hj : json.length ≤ spoolPayloadMax) {e : Entry} (he : e ∈ l.stored) :
    l.Excused e.1 ∨ e.1 ∈ overwritten crc32Ieee c json n ∨
      ∃ seq, (if n.ram.recCount.toNat = c.nslots then n.ram.headSeq.toNat + 1
          else n.ram.headSeq.toNat) ≤ seq.toNat ∧
        Held crc32Ieee c (tornPush crc32Ieee c sel n.ram.tailSeq json n.disk.tick) seq e := by
  rcases h.kept e he with hgone | ⟨seq, hseq, hheld⟩
  · exact Or.inl hgone
  · rcases h.survives hj hheld hseq with hover | ⟨hslot, hnext⟩
    · exact Or.inr (Or.inl hover)
    · have htick : Held crc32Ieee c n.disk.tick seq e := hheld
      refine Or.inr (Or.inr ⟨seq, ?_, htick.tornPush hslot⟩)
      -- the head moves on only when the ring is full
      by_cases hfull : n.ram.recCount.toNat = c.nslots
      · rw [if_pos hfull]
        exact hnext hfull
      · rw [if_neg hfull]
        exact hseq

theorem Sound.stored (h : Sound crc32Ieee c k n l) (hk : k + 1 < 2 ^ 32) {json : Bytes}
    (hj : json.length ≤ spoolPayloadMax) :
    Sound crc32Ieee c (k + 1)
      ⟨pushed crc32Ieee c n.ram.tailSeq json n.disk.tick, (n.ram.makeRoom c).appended⟩
      { l with
        offered := l.offered ++ [(n.disk.tick.clock, json)]
        stored := l.stored ++ [(n.disk.tick.clock, json)]
        evicted := l.evicted ++ overwritten crc32Ieee c json n } := by
  have hearly := h.early
  have hcount := h.count
  have hpos := c.pos
  obtain ⟨htail, hcount', hcap', hhead⟩ := appended_count h hk
  have hshelf : Shelved crc32Ieee c (n.ram.tailSeq.toNat + 1)
      (l.offered ++ [(n.disk.tick.clock, json)])
      (pushed crc32Ieee c n.ram.tailSeq json n.disk.tick) :=
    h.tick.shelf.tornPush h.fresh hj (detected_pushed h.fresh hj)
  constructor
  · show (n.ram.makeRoom c).ready = true
    rw [makeRoom_ready, h.ready]
  · exact hcount'
  · exact hcap'
  · dsimp only
    omega
  · dsimp only
    rw [htail]
    exact hshelf
  · dsimp only
    intro e he
    rw [hhead]
    rcases List.mem_append.mp he with he | he
    · rcases h.overwrite (fun _ => true) hj he with hgone | hover | hkept
      · left
        exact hgone.imp_right (Or.imp_left (List.mem_append_left _))
      · left
        exact Or.inr (Or.inl (List.mem_append_right _ hover))
      · right
        exact hkept
    · -- the record just stored
      right
      rw [List.mem_singleton.mp he]
      refine ⟨n.ram.tailSeq, ?_, recordAt_pushed crc32Ieee c _ hj, stampAt_pushed crc32Ieee c _ _ _⟩
      split <;> omega

theorem crashNode_push (hr : n.ram.ready = true) {json : Bytes}
    (hj : json.length ≤ spoolPayloadMax) :
    crashNode crc32Ieee c (.push json) n = ((0, none),
      ⟨pushed crc32Ieee c n.ram.tailSeq json n.disk.tick, (n.ram.makeRoom c).appended⟩) := by
  show diskStep crc32Ieee c (.push json) n = _
  rw [diskStep, spoolStep, spoolPush_eq crc32Ieee c (n := ⟨n.disk.tick, n.ram⟩) hr hj]

theorem crashNode_push_long (hr : n.ram.ready = true) {json : Bytes}
    (hj : ¬ json.length ≤ spoolPayloadMax) :
    crashNode crc32Ieee c (.push json) n = ((-EMSGSIZE, none), ⟨n.disk.tick,
      { n.ram with stats := { n.ram.stats with drops := n.ram.stats.drops + 1 } }⟩) :=
  diskStep_push_long hr (by omega)

theorem Sound.push (h : Sound crc32Ieee c k n l) (hk : k + 1 < 2 ^ 32) (json : Bytes) :
    Sound crc32Ieee c (k + 1) (crashNode crc32Ieee c (.push json) n).2
      (crashNote crc32Ieee c (.push json) n l) := by
  by_cases hj : json.length ≤ spoolPayloadMax
  · rw [crashNote, crashNode_push h.ready hj]
    exact h.stored hk hj
  · have hret : ¬ (-EMSGSIZE : Int) = 0 := by decide
    rw [crashNote, crashNode_push_long h.ready hj, if_neg hret]
    refine ⟨h.ready, h.count, h.cap, Nat.le_succ_of_le h.early,
      h.tick.shelf.offer json h.fresh, ?_⟩
    intro e he
    refine (h.kept e he).imp_left fun hgone => ?_
    exact hgone.imp_right (Or.imp_left (List.mem_append_left _))

/-- The slot write of a push that a power cut stops. -/
theorem spoolPush_torn (sel : ℕ → Bool) {json : Bytes} (hr : n.ram.ready = true)
    (hj : json.length ≤ spoolPayloadMax) :
    (spoolPush (Disk.torn sel) crc32Ieee c json n).2.disk
      = tornPush crc32Ieee c sel n.ram.tailSeq json n.disk := by
  rw [spoolPush_written hr hj rfl]
  rfl

theorem crashNode_cutPush (hr : n.ram.ready = true) {json : Bytes} (sel : ℕ → Bool)
    (hj : json.length ≤ spoolPayloadMax) :
    crashNode crc32Ieee c (.cutPush json sel) n
      = boot c (tornPush crc32Ieee c sel n.ram.tailSeq json n.disk.tick) := by
  rw [crashNode, spoolPush_torn (n := ⟨n.disk.tick, n.ram⟩) sel hr hj]

theorem crashNode_cutPush_long (hr : n.ram.ready = true) {json : Bytes} (sel : ℕ → Bool)
    (hj : ¬ json.length ≤ spoolPayloadMax) :
    crashNode crc32Ieee c (.cutPush json sel) n = boot c n.disk.tick := by
  rw [crashNode, spoolPush_long (n := ⟨n.disk.tick, n.ram⟩) hr (by omega)]

theorem Sound.cutPush (h : Sound crc32Ieee c k n l) (hk : k + 1 < 2 ^ 32) (json : Bytes)
    (sel : ℕ → Bool) (hdet : TornDetected crc32Ieee c (.cutPush json sel) ⟨n, l⟩) :
    Sound crc32Ieee c (k + 1) (crashNode crc32Ieee c (.cutPush json sel) n).2
      (crashNote crc32Ieee c (.cutPush json sel) n l) := by
  have hearly := h.early
  have hexcused : ∀ p, l.Excused p →
      (crashNote crc32Ieee c (.cutPush json sel) n l).Excused p := fun p hgone =>
    hgone.imp_right (Or.imp_right (Or.imp_left (List.mem_append_left _)))
  by_cases hj : json.length ≤ spoolPayloadMax
  · have hnode : crashNode crc32Ieee c (.cutPush json sel) n
        = boot c (tornPush crc32Ieee c sel n.ram.tailSeq json n.disk.tick) :=
      crashNode_cutPush h.ready sel hj
    have hdet' : Detected crc32Ieee c (l.offered ++ [(n.disk.tick.clock, json)])
        (tornPush crc32Ieee c sel n.ram.tailSeq json n.disk.tick) (slotIdx c n.ram.tailSeq) := by
      have hslot : Detected crc32Ieee c (l.offered ++ [(n.disk.tick.clock, json)])
          (crashNode crc32Ieee c (.cutPush json sel) n).2.disk (slotIdx c n.ram.tailSeq) := hdet
      rw [hnode, boot_eq] at hslot
      exact hslot
    have hshelf := h.tick.shelf.tornPush h.fresh hj hdet'
    rw [hnode]
    refine sound_boot hshelf ?_ hk ?_
    · dsimp only
      split <;> omega
    · intro e he
      rcases h.overwrite sel hj he with hgone | hover | ⟨seq, -, hheld⟩
      · exact Or.inl (hexcused _ hgone)
      · exact Or.inl (Or.inr (Or.inr (Or.inl (List.mem_append_right _ hover))))
      · exact Or.inr ⟨seq, hheld⟩
  · -- the push is rejected before it writes
    rw [crashNode_cutPush_long h.ready sel hj]
    refine sound_boot (h.tick.shelf.offer json h.fresh) (Nat.le_succ_of_le hearly) hk ?_
    intro e he
    rcases h.kept e he with hgone | ⟨seq, -, hheld⟩
    · exact Or.inl (hexcused _ hgone)
    · exact Or.inr ⟨seq, hheld⟩

theorem Sound.cut (h : Sound crc32Ieee c k n l) (hk : k < 2 ^ 32) :
    Sound crc32Ieee c k (crashNode crc32Ieee c .cut n).2 (crashNote crc32Ieee c .cut n l) := by
  refine sound_boot h.shelf h.early hk fun e he => ?_
  exact (h.kept e he).imp_right fun ⟨seq, _, hheld⟩ => ⟨seq, hheld⟩

/-- The window from a later head on. -/
theorem Sound.peek (h : Sound crc32Ieee c k n l) (hk : k < 2 ^ 32) (bufSize : ℕ) :
    Sound crc32Ieee c k (crashNode crc32Ieee c (.peek bufSize) n).2
      (crashNote crc32Ieee c (.peek bufSize) n l) := by
  have hcount := h.count
  have hearly := h.early
  obtain ⟨j, hp⟩ := spoolPeek_spec crc32Ieee c bufSize h.tick.ready
  have hj : j ≤ n.ram.recCount.toNat := hp.le crc32Ieee c
  obtain ⟨m, hm⟩ := Nat.exists_eq_add_of_le hj
  have hhead : (n.ram.seqAt j).toNat = n.ram.headSeq.toNat + j := seqAt_toNat (by omega)
  have hnode : (crashNode crc32Ieee c (.peek bufSize) n).2
      = ⟨n.disk.tick, Spool.skip^[j] n.ram⟩ := hp.node
  -- the records passed over are in the log
  have hpassed : ∀ seq e, Held crc32Ieee c n.disk seq e → n.ram.headSeq.toNat ≤ seq.toNat →
      seq.toNat < n.ram.headSeq.toNat + j → e.1 ∈ passedOver crc32Ieee c bufSize n := by
    intro seq e hheld hlow hhigh
    have hmoved : (n.ram.seqAt j - n.ram.headSeq).toNat = j := by
      rw [UInt32.toNat_sub_of_le _ _ (UInt32.le_iff_toNat_le.mpr (by omega)), hhead]
      omega
    have hplace : n.ram.seqAt (seq.toNat - n.ram.headSeq.toNat) = seq := add_ofNat_sub hlow
    unfold passedOver
    simp only [hnode, skips_headSeq, hmoved]
    refine List.mem_flatMap.mpr ⟨seq.toNat - n.ram.headSeq.toNat, ?_, ?_⟩
    · exact List.mem_range.mpr (by omega)
    · rw [hplace]
      exact mem_stampOf hheld
  rw [hnode]
  constructor
  · rw [skips_ready, h.ready]
  · rw [skips_tailSeq, skips_headSeq, skips_recCount hm, hhead]
    omega
  · rw [skips_recCount hm]
    have := h.cap
    omega
  · rw [skips_tailSeq]
    exact hearly
  · rw [skips_tailSeq]
    exact h.tick.shelf
  · dsimp only
    intro e he
    rw [skips_headSeq, hhead]
    rcases h.kept e he with hgone | ⟨seq, hseq, hheld⟩
    · exact Or.inl (hgone.imp_right (Or.imp_right (Or.imp_right (List.mem_append_left _))))
    · by_cases hlow : seq.toNat < n.ram.headSeq.toNat + j
      · have := hpassed seq e hheld hseq hlow
        exact Or.inl (Or.inr (Or.inr (Or.inr (List.mem_append_right _ this))))
      · exact Or.inr ⟨seq, by omega, hheld⟩

theorem crashNode_commit_empty (hr : n.ram.ready = true) (hempty : n.ram.recCount = 0) :
    crashNode crc32Ieee c .commit n = ((0, none), ⟨n.disk.tick, n.ram⟩) := by
  show diskStep crc32Ieee c .commit n = _
  rw [diskStep, spoolStep, spoolCommit_empty (n := ⟨n.disk.tick, n.ram⟩) hr hempty]

theorem crashNode_commit (hr : n.ram.ready = true) (hsome : n.ram.recCount ≠ 0) :
    crashNode crc32Ieee c .commit n = ((0, none),
      ⟨blanked c (slotIdx c n.ram.headSeq) n.disk.tick, n.ram.committed⟩) := by
  show diskStep crc32Ieee c .commit n = _
  rw [diskStep, spoolStep, spoolCommit_eq c (n := ⟨n.disk.tick, n.ram⟩) hr
    (UInt32.pos_iff_ne_zero.mpr hsome)]

theorem Sound.commit (h : Sound crc32Ieee c k n l) (hk : k < 2 ^ 32) :
    Sound crc32Ieee c k (crashNode crc32Ieee c .commit n).2
      (crashNote crc32Ieee c .commit n l) := by
  have hcount := h.count
  have hcap := h.cap
  have hearly := h.early
  by_cases hempty : n.ram.recCount = 0
  · rw [crashNote, crashNode_commit_empty h.ready hempty, if_pos hempty]
    exact h.tick
  · have hcountPos : 0 < n.ram.recCount.toNat := by
      rcases Nat.eq_zero_or_pos n.ram.recCount.toNat with hzero | hpos
      · exact absurd (UInt32.toNat_inj.mp hzero) hempty
      · exact hpos
    have hhead : (n.ram.headSeq + 1).toNat = n.ram.headSeq.toNat + 1 := toNat_succ (by omega)
    have hless : (n.ram.recCount - 1).toNat = n.ram.recCount.toNat - 1 := toNat_pred (by omega)
    rw [crashNote, crashNode_commit h.ready hempty, if_neg hempty]
    constructor
    · exact h.ready
    · show n.ram.tailSeq.toNat = (n.ram.headSeq + 1).toNat + (n.ram.recCount - 1).toNat
      omega
    · show (n.ram.recCount - 1).toNat ≤ c.nslots
      omega
    · exact hearly
    · exact h.tick.shelf.blanked (slotIdx_lt c _)
    · intro e he
      show _ ∨ ∃ seq : UInt32, (n.ram.headSeq + 1).toNat ≤ seq.toNat ∧ _
      rcases h.kept e he with hgone | ⟨seq, hseq, hheld⟩
      · exact Or.inl (hgone.imp_left (List.mem_append_left _))
      · by_cases hfront : n.ram.headSeq = seq
        · left
          rw [hfront]
          exact Or.inl (List.mem_append_right _ (mem_stampOf hheld))
        · right
          obtain ⟨hlow, -⟩ := h.reach hheld
          have hne : n.ram.headSeq.toNat ≠ seq.toNat := fun heq =>
            hfront (UInt32.toNat_inj.mp heq)
          have hslot : slotIdx c n.ram.headSeq ≠ slotIdx c seq :=
            slotIdx_ne_of_near c (by omega) (by omega)
          have htick : Held crc32Ieee c n.disk.tick seq e := hheld
          exact ⟨seq, by omega, htick.blanked crc32Ieee c (slotIdx_lt c _) hslot⟩

/-- **One operation.** -/
theorem Sound.step (h : Sound crc32Ieee c k n l) (op : CrashOp) (hk : k + op.cost < 2 ^ 32)
    (hdet : TornDetected crc32Ieee c op ⟨n, l⟩) :
    Sound crc32Ieee c (k + op.cost) (crashNode crc32Ieee c op n).2
      (crashNote crc32Ieee c op n l) := by
  cases op with
  | push json => exact h.push hk json
  | peek bufSize => exact h.peek hk bufSize
  | commit => exact h.commit hk
  | cut => exact h.cut hk
  | cutPush json sel => exact h.cutPush hk json sel hdet

/-! ### The records that are gone -/

/-- The headers that count are those of records neither committed nor evicted. -/
structure Present (c : SpoolConfig) (d : Disk) (l : CrashLog) : Prop where
  past : ∀ p, l.Gone p → p ≤ d.clock
  present : ∀ i, i < c.nslots → (hdrAt c d i).counts = true → ¬ l.Gone (stampAt c d i)

/-- Each header that counts is an old one or later than any before, and the records that go have
none. -/
theorem Present.next {d d' : Disk} {l' : CrashLog} (h : Present c d l) (hclock : d.clock ≤ d'.clock)
    (hgone : ∀ p, l'.Gone p → l.Gone p ∨ p ≤ d.clock ∧
      ∀ i, i < c.nslots → (hdrAt c d' i).counts = true → stampAt c d' i ≠ p)
    (hheaders : ∀ i, i < c.nslots → (hdrAt c d' i).counts = true → d.clock < stampAt c d' i ∨
      hdrAt c d' i = hdrAt c d i ∧ stampAt c d' i = stampAt c d i) : Present c d' l' := by
  constructor
  · intro p hp
    rcases hgone p hp with hbefore | ⟨hpast, -⟩
    · exact (h.past p hbefore).trans hclock
    · exact hpast.trans hclock
  · intro i hi hc hp
    rcases hgone _ hp with hbefore | ⟨-, hnone⟩
    · rcases hheaders i hi hc with hnew | ⟨hhdr, hstamp⟩
      · exact absurd (h.past _ hbefore) (Nat.not_le_of_lt hnew)
      · rw [hhdr] at hc
        rw [hstamp] at hbefore
        exact h.present i hi hc hbefore
    · exact hnone i hi hc rfl

/-- The headers are as they were, and nothing goes. -/
theorem Present.same {d' : Disk} {l' : CrashLog} (h : Present c n.disk l)
    (hclock : n.disk.clock ≤ d'.clock) (hgone : ∀ p, l'.Gone p → l.Gone p)
    (hhdr : ∀ i, hdrAt c d' i = hdrAt c n.disk i)
    (hstamp : ∀ i, stampAt c d' i = stampAt c n.disk i) : Present c d' l' :=
  h.next hclock (fun p hp => Or.inl (hgone p hp)) fun i _ _ => Or.inr ⟨hhdr i, hstamp i⟩

/-- A stamp tells the slot. -/
theorem Sound.stamp_inj (h : Sound crc32Ieee c k n l) {i j : ℕ} (hi : i < c.nslots)
    (hj : j < c.nslots) (hci : (hdrAt c n.disk i).counts = true)
    (hcj : (hdrAt c n.disk j).counts = true) (heq : stampAt c n.disk i = stampAt c n.disk j) :
    i = j := by
  have hseq : (hdrAt c n.disk i).seq.toNat = (hdrAt c n.disk j).seq.toNat := by
    rcases Nat.lt_trichotomy (hdrAt c n.disk i).seq.toNat (hdrAt c n.disk j).seq.toNat with
      hlt | heq' | hgt
    · exact absurd heq (Nat.ne_of_lt (h.shelf.ordered i j hi hj hci hcj hlt))
    · exact heq'
    · exact absurd heq.symm (Nat.ne_of_lt (h.shelf.ordered j i hj hi hcj hci hgt))
  rw [← (h.shelf.placed i hi hci).1, ← (h.shelf.placed j hj hcj).1, hseq]

/-- The record at `seq` goes, and with it the header of its slot. -/
theorem Sound.goes {d' : Disk} {seq : UInt32} (hs : Sound crc32Ieee c k n l) {p : ℕ}
    (hp : p ∈ stampOf crc32Ieee c n.disk seq)
    (hslot : (hdrAt c d' (slotIdx c seq)).counts = true →
      n.disk.clock < stampAt c d' (slotIdx c seq))
    (hother : ∀ i, i < c.nslots → slotIdx c seq ≠ i →
      hdrAt c d' i = hdrAt c n.disk i ∧ stampAt c d' i = stampAt c n.disk i) :
    p ≤ n.disk.clock ∧ ∀ i, i < c.nslots → (hdrAt c d' i).counts = true → stampAt c d' i ≠ p := by
  obtain ⟨e, he, rfl⟩ := List.mem_map.mp hp
  have hheld := entryOf_eq_some.mp (Option.mem_toList.mp he)
  have hpast := hs.shelf.past e (hs.shelf.held_offered hheld)
  refine ⟨hpast, fun i hi hc heq => ?_⟩
  by_cases hne : slotIdx c seq = i
  · subst hne
    have hnew := hslot hc
    omega
  · obtain ⟨hhdr, hstamp⟩ := hother i hi hne
    rw [hhdr] at hc
    refine hne (hs.stamp_inj (slotIdx_lt c seq) hi hheld.counts.1 hc ?_)
    rw [hheld.2, ← heq, hstamp]

theorem Present.push (h : Present c n.disk l) (hs : Sound crc32Ieee c k n l) (json : Bytes) :
    Present c (crashNode crc32Ieee c (.push json) n).2.disk
      (crashNote crc32Ieee c (.push json) n l) := by
  have hcount := hs.count
  by_cases hj : json.length ≤ spoolPayloadMax
  · rw [crashNote, crashNode_push hs.ready hj]
    have hnew : n.disk.clock < stampAt c (pushed crc32Ieee c n.ram.tailSeq json n.disk.tick)
        (slotIdx c n.ram.tailSeq) := by
      rw [stampAt_pushed]
      exact Nat.lt_succ_self _
    have hother : ∀ i, i < c.nslots → slotIdx c n.ram.tailSeq ≠ i →
        hdrAt c (pushed crc32Ieee c n.ram.tailSeq json n.disk.tick) i = hdrAt c n.disk i ∧
          stampAt c (pushed crc32Ieee c n.ram.tailSeq json n.disk.tick) i
            = stampAt c n.disk i := by
      intro i hi hne
      obtain ⟨hhdr, hstamp, -⟩ :=
        tornPush_other crc32Ieee c (fun _ => true) json n.disk.tick hi hne
      exact ⟨hhdr, hstamp⟩
    refine h.next (Nat.le_succ _) ?_ ?_
    · rintro p (hp | hp)
      · exact Or.inl (Or.inl hp)
      · rcases List.mem_append.mp hp with hp | hp
        · exact Or.inl (Or.inr hp)
        · right
          -- the oldest record of a full ring is in the slot that is written
          rw [overwritten] at hp
          split at hp
          · next hfull =>
              have hslot : slotIdx c n.ram.tailSeq = slotIdx c n.ram.headSeq := by
                rw [slotIdx, slotIdx, hcount, hfull.2, Nat.add_mod_right]
              rw [hslot] at hnew hother
              exact hs.goes hp (fun _ => hnew) hother
          · cases hp
    · intro i hi _
      by_cases hne : slotIdx c n.ram.tailSeq = i
      · exact Or.inl (hne ▸ hnew)
      · exact Or.inr (hother i hi hne)
  · have hnone : overwritten crc32Ieee c json n = [] := if_neg fun hfull => hj hfull.1
    rw [crashNote, crashNode_push_long hs.ready hj, hnone]
    refine h.same (Nat.le_succ _) (fun p hp => ?_) (fun _ => rfl) fun _ => rfl
    exact hp.imp_right fun hp => by rwa [List.append_nil] at hp

theorem Present.cutPush (h : Present c n.disk l) (hs : Sound crc32Ieee c k n l) (json : Bytes)
    (sel : ℕ → Bool) : Present c (crashNode crc32Ieee c (.cutPush json sel) n).2.disk
      (crashNote crc32Ieee c (.cutPush json sel) n l) := by
  by_cases hj : json.length ≤ spoolPayloadMax
  · rw [crashNode_cutPush hs.ready sel hj, boot_eq]
    refine h.next (Nat.le_succ _) (fun _ hp => Or.inl hp) fun i hi _ => ?_
    by_cases hne : slotIdx c n.ram.tailSeq = i
    · subst hne
      -- the header is new if the first sector was written, and old otherwise
      cases hsel : sel 0 with
      | true =>
          left
          rw [(tornPush_new crc32Ieee c hsel hj n.disk.tick).2]
          exact Nat.lt_succ_self _
      | false => exact Or.inr (tornPush_old crc32Ieee c hsel n.ram.tailSeq json n.disk.tick)
    · obtain ⟨hhdr, hstamp, -⟩ := tornPush_other crc32Ieee c sel json n.disk.tick hi hne
      exact Or.inr ⟨hhdr, hstamp⟩
  · rw [crashNode_cutPush_long hs.ready sel hj, boot_eq]
    exact h.same (Nat.le_succ _) (fun _ hp => hp) (fun _ => rfl) fun _ => rfl

theorem Present.commit (h : Present c n.disk l) (hs : Sound crc32Ieee c k n l) :
    Present c (crashNode crc32Ieee c .commit n).2.disk (crashNote crc32Ieee c .commit n l) := by
  by_cases hempty : n.ram.recCount = 0
  · rw [crashNote, crashNode_commit_empty hs.ready hempty, if_pos hempty]
    exact h.same (Nat.le_succ _) (fun _ hp => hp) (fun _ => rfl) fun _ => rfl
  · rw [crashNote, crashNode_commit hs.ready hempty, if_neg hempty]
    have hcleared := counts_blanked c (slotIdx c n.ram.headSeq) n.disk.tick
    have hother : ∀ i, i < c.nslots → slotIdx c n.ram.headSeq ≠ i →
        hdrAt c (blanked c (slotIdx c n.ram.headSeq) n.disk.tick) i = hdrAt c n.disk i ∧
          stampAt c (blanked c (slotIdx c n.ram.headSeq) n.disk.tick) i = stampAt c n.disk i :=
      fun i hi hne => ⟨hdrAt_of_ne c _ _ _ (by omega) (slotIdx_lt c _) hi hne,
        stampAt_of_ne c _ _ _ (by omega) (slotIdx_lt c _) hi hne⟩
    refine h.next (Nat.le_succ _) ?_ ?_
    · rintro p (hp | hp)
      · rcases List.mem_append.mp hp with hp | hp
        · exact Or.inl (Or.inl hp)
        · refine Or.inr (hs.goes hp (fun hc => ?_) hother)
          exact absurd (hcleared.symm.trans hc) (by decide)
      · exact Or.inl (Or.inr hp)
    · intro i hi hc
      by_cases hne : slotIdx c n.ram.headSeq = i
      · subst hne
        exact absurd (hcleared.symm.trans hc) (by decide)
      · exact Or.inr (hother i hi hne)

theorem Present.step (h : Present c n.disk l) (hs : Sound crc32Ieee c k n l) (op : CrashOp) :
    Present c (crashNode crc32Ieee c op n).2.disk (crashNote crc32Ieee c op n l) := by
  cases op with
  | push json => exact h.push hs json
  | peek bufSize =>
      obtain ⟨j, hp⟩ := spoolPeek_spec crc32Ieee c bufSize hs.tick.ready
      have hnode : (crashNode crc32Ieee c (.peek bufSize) n).2
          = ⟨n.disk.tick, Spool.skip^[j] n.ram⟩ := hp.node
      rw [hnode]
      exact h.same (Nat.le_succ _) (fun _ hp => hp) (fun _ => rfl) fun _ => rfl
  | commit => exact h.commit hs
  | cut =>
      rw [crashNode, boot_eq]
      exact h.same (Nat.le_refl _) (fun _ hp => hp) (fun _ => rfl) fun _ => rfl
  | cutPush json sel => exact h.cutPush hs json sel

end Step

end Crash

end IotcDemos
