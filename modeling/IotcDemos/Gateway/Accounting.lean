import IotcDemos.Gateway.Spool
import IotcDemos.Lib.Crc32
import IotcDemos.Lib.Run

set_option autoImplicit false

/-! # The books of the spool

Every record offered to the spool should be queued, drained, counted in `drops`, or wiped.
`Spool.books` is the sum of the three counters. On an arbitrary disk, with any pattern of failing
accesses, every operation moves it by exactly the records offered and wiped, with one exception:
a push whose slot write fails moves no counter at all (`spoolPush_books`). So the books balance
at every boundary of a run exactly when no slot write of the run fails (`books_balance_iff`).
-/

namespace IotcDemos

/-- Queued, drained and dropped records. -/
def Spool.books (s : Spool) : UInt32 := s.recCount + s.stats.drained + s.stats.drops

section Accounting

variable {D : Type} (drv : DiskAccess D) (crc32Ieee : Bytes → UInt32) (c : SpoolConfig)

/-! ## The counters under each operation -/

@[simp] theorem books_sacrifice (s : Spool) : s.sacrifice.books = s.books := by
  show s.recCount - 1 + s.stats.drained + (s.stats.drops + 1) = _
  unfold Spool.books
  grind

@[simp] theorem books_makeRoom (s : Spool) : (s.makeRoom c).books = s.books := by
  unfold Spool.makeRoom
  split
  · exact books_sacrifice s
  · rfl

@[simp] theorem books_appended (s : Spool) : s.appended.books = s.books + 1 := by
  show s.recCount + 1 + s.stats.drained + s.stats.drops = _
  unfold Spool.books
  grind

@[simp] theorem books_skip (s : Spool) : s.skip.books = s.books := by
  show s.recCount - 1 + s.stats.drained + (s.stats.drops + 1) = _
  unfold Spool.books
  grind

@[simp] theorem books_committed (s : Spool) : s.committed.books = s.books := by
  show s.recCount - 1 + (s.stats.drained + 1) + s.stats.drops = _
  unfold Spool.books
  grind

@[simp] theorem books_cleared (s : Spool) : s.cleared.books + s.recCount = s.books := by
  show 0 + s.stats.drained + s.stats.drops + s.recCount = _
  unfold Spool.books
  grind

/-! ## The operations on an arbitrary disk -/

/-- The disk fails to write the slot a push is about to write. -/
def slotWriteFails : SpoolOp → Node D → Bool
  | .push json, n =>
      decide (json.length ≤ spoolPayloadMax) && (slotWrite drv crc32Ieee c json n).1 != 0
  | _, _ => false

/-- A push adds one to the books, unless its slot write fails. -/
theorem spoolPush_books (json : Bytes) {n : Node D} (hr : n.ram.ready = true) :
    (spoolPush drv crc32Ieee c json n).2.ram.ready = true ∧
    (spoolPush drv crc32Ieee c json n).2.ram.books
      + (if slotWriteFails drv crc32Ieee c (.push json) n then 1 else 0) = n.ram.books + 1 := by
  unfold slotWriteFails
  by_cases hj : json.length ≤ spoolPayloadMax
  · rcases hw : slotWrite drv crc32Ieee c json n with ⟨ret, d⟩
    by_cases hret : ret = 0
    · subst hret
      rw [spoolPush_written hr hj hw]
      refine ⟨by simpa [Spool.appended] using hr, ?_⟩
      simp [hw]
    · rw [spoolPush_failed hr hj hw hret]
      refine ⟨by simpa using hr, ?_⟩
      simp [hj, hw, hret]
  · -- an oversized record is counted in `drops`
    rw [spoolPush_long hr (by omega)]
    simp only [hj, decide_false, Bool.false_and, Bool.false_eq_true, if_false]
    refine ⟨hr, ?_⟩
    show n.ram.recCount + n.ram.stats.drained + (n.ram.stats.drops + 1) + 0 = n.ram.books + 1
    unfold Spool.books
    grind

/-- `spool_peek` turns queued records into counted drops. -/
theorem peekLoop_books (bufSize k : ℕ) (n : Node D) :
    (peekLoop drv crc32Ieee c bufSize k n).2.2.ram.ready = n.ram.ready ∧
    (peekLoop drv crc32Ieee c bufSize k n).2.2.ram.books = n.ram.books := by
  induction k generalizing n with
  | zero => exact ⟨rfl, rfl⟩
  | succ k ih =>
      unfold peekLoop
      generalize drv.read (slotOf c n.ram.headSeq) spoolSlotSectors n.disk = r
      obtain ⟨_ | buf, d⟩ := r
      · exact ⟨rfl, rfl⟩
      · by_cases hacc : acceptable crc32Ieee buf n.ram.headSeq bufSize
        · simp [hacc]
        · simp only [hacc, Bool.false_eq_true, if_false]
          have hskip := ih ⟨d, n.ram.skip⟩
          rw [books_skip] at hskip
          exact hskip

theorem spoolPeek_books (bufSize : ℕ) {n : Node D} (hr : n.ram.ready = true) :
    (spoolPeek drv crc32Ieee c bufSize n).2.2.ram.ready = true ∧
    (spoolPeek drv crc32Ieee c bufSize n).2.2.ram.books = n.ram.books := by
  unfold spoolPeek
  rw [if_neg (by simp [hr])]
  obtain ⟨hready, hbooks⟩ := peekLoop_books drv crc32Ieee c bufSize n.ram.recCount.toNat n
  exact ⟨hready.trans hr, hbooks⟩

theorem spoolCommit_books {n : Node D} (hr : n.ram.ready = true) :
    (spoolCommit drv c n).2.ram.ready = true ∧
    (spoolCommit drv c n).2.ram.books = n.ram.books := by
  by_cases hc : n.ram.recCount = 0
  · rw [spoolCommit_empty hr hc]
    exact ⟨hr, rfl⟩
  · have hpos : 0 < n.ram.recCount := UInt32.pos_iff_ne_zero.mpr hc
    rw [spoolCommit_some hr hpos rfl]
    exact ⟨hr, books_committed n.ram⟩

theorem spoolWipe_books {n : Node D} (hr : n.ram.ready = true) :
    (spoolWipe drv c n).2.ram.ready = true ∧
    (spoolWipe drv c n).2.ram.books + n.ram.recCount = n.ram.books := by
  unfold spoolWipe
  rw [if_neg (by simp [hr])]
  exact ⟨hr, books_cleared n.ram⟩

/-! ## Runs with a ledger -/

/-- The spool, with what was offered to it, what wipes removed, and the pushes whose slot write
failed. -/
structure Ledger (D : Type) where
  node : Node D
  offered : UInt32
  wiped : UInt32
  unwritten : UInt32

def Ledger.open (n : Node D) : Ledger D := ⟨n, 0, 0, 0⟩

def offers : SpoolOp → UInt32
  | .push _ => 1
  | _ => 0

/-- The records an operation wipes. -/
def wipes : SpoolOp → Spool → UInt32
  | .wipe, s => s.recCount
  | _, _ => 0

def ledgerStep (op : SpoolOp) (l : Ledger D) : Answer × Ledger D :=
  let (a, n) := spoolStep drv crc32Ieee c op l.node
  (a, ⟨n, l.offered + offers op, l.wiped + wipes op l.node.ram,
    l.unwritten + if slotWriteFails drv crc32Ieee c op l.node then 1 else 0⟩)

/-- The books balance: what was there at first and what was offered is queued, drained, counted
in `drops`, or wiped. -/
def Balanced (count : UInt32) (l : Ledger D) : Prop :=
  count + l.offered
    = l.node.ram.recCount + l.node.ram.stats.drained + l.node.ram.stats.drops + l.wiped

/-- The law of the books on any disk. -/
structure Lawful (count : UInt32) (l : Ledger D) : Prop where
  ready : l.node.ram.ready = true
  law : count + l.offered = l.node.ram.books + l.wiped + l.unwritten

variable {drv crc32Ieee c}

/-- **One operation keeps the law**, whatever the disk does. -/
theorem Lawful.step {count : UInt32} {l : Ledger D} (h : Lawful count l) (op : SpoolOp) :
    Lawful count (ledgerStep drv crc32Ieee c op l).2 := by
  have hlaw := h.law
  cases op with
  | push json =>
      obtain ⟨hready, hbooks⟩ := spoolPush_books drv crc32Ieee c json h.ready
      refine ⟨hready, ?_⟩
      show count + (l.offered + 1) = (spoolPush drv crc32Ieee c json l.node).2.ram.books
        + (l.wiped + 0) + (l.unwritten
        + if slotWriteFails drv crc32Ieee c (.push json) l.node then 1 else 0)
      grind
  | peek bufSize =>
      obtain ⟨hready, hbooks⟩ := spoolPeek_books drv crc32Ieee c bufSize h.ready
      refine ⟨hready, ?_⟩
      show count + (l.offered + 0) = (spoolPeek drv crc32Ieee c bufSize l.node).2.2.ram.books
        + (l.wiped + 0) + (l.unwritten + 0)
      grind
  | commit =>
      obtain ⟨hready, hbooks⟩ := spoolCommit_books drv c h.ready
      refine ⟨hready, ?_⟩
      show count + (l.offered + 0) = (spoolCommit drv c l.node).2.ram.books
        + (l.wiped + 0) + (l.unwritten + 0)
      grind
  | wipe =>
      obtain ⟨hready, hbooks⟩ := spoolWipe_books drv c h.ready
      refine ⟨hready, ?_⟩
      show count + (l.offered + 0) = (spoolWipe drv c l.node).2.ram.books
        + (l.wiped + l.node.ram.recCount) + (l.unwritten + 0)
      grind

theorem Lawful.balanced_iff {count : UInt32} {l : Ledger D} (h : Lawful count l) :
    Balanced count l ↔ l.unwritten = 0 := by
  have hlaw := h.law
  unfold Spool.books at hlaw
  unfold Balanced
  constructor
  · intro hbal
    grind
  · intro hzero
    grind

/-- After a successful `spool_init` the law holds. -/
theorem lawful_init {d : D} (hinit : (spoolInit drv c ⟨d, Spool.off⟩).1 = 0) :
    Lawful (spoolInit drv c ⟨d, Spool.off⟩).2.ram.recCount
      (Ledger.open (spoolInit drv c ⟨d, Spool.off⟩).2) := by
  obtain ⟨a, d', hn⟩ := spoolInit_ok hinit
  rw [hn]
  refine ⟨rfl, ?_⟩
  show (Spool.off.recover c a).recCount + 0 = (Spool.off.recover c a).recCount + 0 + 0 + 0 + 0
  simp

theorem lawful_run {count : UInt32} {l : Ledger D} (h : Lawful count l) (ops : List SpoolOp) :
    Lawful count (runState (ledgerStep drv crc32Ieee c) ops l) :=
  run_inv (fun op _ _ hl => hl.step op) h

variable (drv crc32Ieee c)

/-- **When the books balance.** From any disk image, in any run and under any pattern of disk
failures, the books balance at every boundary exactly when no push of the run meets a failing
slot write. -/
theorem books_balance_iff (d : D) (hinit : (spoolInit drv c ⟨d, Spool.off⟩).1 = 0)
    (ops : List SpoolOp) :
    let n := (spoolInit drv c ⟨d, Spool.off⟩).2
    let at' := fun pre => runState (ledgerStep drv crc32Ieee c) pre (Ledger.open n)
    (∀ pre, pre <+: ops → Balanced n.ram.recCount (at' pre)) ↔
      ∀ pre op, pre ++ [op] <+: ops → slotWriteFails drv crc32Ieee c op (at' pre).node = false := by
  intro n at'
  have hlaw : ∀ pre, Lawful n.ram.recCount (at' pre) := fun pre => lawful_run (lawful_init hinit) pre
  have hnext : ∀ pre op, (at' (pre ++ [op])).unwritten = (at' pre).unwritten
      + if slotWriteFails drv crc32Ieee c op (at' pre).node then 1 else 0 := by
    intro pre op
    show Ledger.unwritten (runState _ (pre ++ [op]) _) = _
    rw [runState_append]
    rfl
  constructor
  · -- the first failing write would show up as an imbalance
    intro hbal pre op hpre
    have hbefore := (hlaw pre).balanced_iff.mp (hbal pre ((List.prefix_append _ _).trans hpre))
    have hafter := (hlaw (pre ++ [op])).balanced_iff.mp (hbal _ hpre)
    rw [hnext, hbefore] at hafter
    rw [← Bool.not_eq_true]
    intro hfail
    rw [if_pos hfail] at hafter
    exact absurd hafter (by decide)
  · intro hok pre
    induction pre using List.reverseRecOn with
    | nil =>
        intro _
        exact (hlaw []).balanced_iff.mpr rfl
    | append_singleton pre op ih =>
        intro hpre
        have hbefore := (hlaw pre).balanced_iff.mp (ih ((List.prefix_append _ _).trans hpre))
        apply (hlaw _).balanced_iff.mpr
        rw [hnext, hbefore, hok pre op hpre]
        rfl

/-- The disk whose writes fail. -/
def writeProtected : DiskAccess Disk := { Disk.reliable with write := fun _ _ _ d => (- EIO, d) }

/-- A push on a write-protected disk is in none of the counters. -/
theorem unwritten_push_unbalanced :
    let n := (spoolInit writeProtected oneSlot ⟨Disk.blank, Spool.off⟩).2
    let l := runState (ledgerStep writeProtected Crc32.ieee oneSlot) [.push [65]] (Ledger.open n)
    (spoolInit writeProtected oneSlot ⟨Disk.blank, Spool.off⟩).1 = 0 ∧
    l.offered = 1 ∧ n.ram.recCount = 0 ∧ l.node.ram.recCount = 0 ∧ l.node.ram.stats.drained = 0 ∧
    l.node.ram.stats.drops = 0 ∧ l.wiped = 0 ∧ ¬ Balanced n.ram.recCount l := by
  have hn : (spoolInit writeProtected oneSlot ⟨Disk.blank, Spool.off⟩).1 = 0 := by decide +kernel
  refine ⟨hn, ?_⟩
  unfold Balanced
  decide +kernel

theorem books_balance_blank :
    (spoolInit Disk.reliable oneSlot ⟨Disk.blank, Spool.off⟩).1 = 0 ∧
    Balanced 0 (runState (ledgerStep Disk.reliable Crc32.ieee oneSlot)
      [.push [65], .push [66], .wipe]
      (Ledger.open (spoolInit Disk.reliable oneSlot ⟨Disk.blank, Spool.off⟩).2)) := by
  have hinit : (spoolInit Disk.reliable oneSlot ⟨Disk.blank, Spool.off⟩).1 = 0 := by
    decide +kernel
  refine ⟨hinit, ?_⟩
  refine (books_balance_iff Disk.reliable Crc32.ieee oneSlot Disk.blank hinit
    [.push [65], .push [66], .wipe]).mpr ?_ _ (List.prefix_refl _)
  intro pre op _
  -- the writes of this disk never fail
  cases op with
  | push json =>
      show (_ && ((0 : Int) != 0)) = false
      simp
  | peek bufSize => rfl
  | commit => rfl
  | wipe => rfl

end Accounting

end IotcDemos
