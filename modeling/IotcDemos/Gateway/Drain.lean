import IotcDemos.Gateway.Reboot

set_option autoImplicit false

/-! # Draining the spool

The uplink drains the spool by peeking and committing until `spool_peek` returns a number that is
not positive: nothing is left, or the next record is empty. On a disk that works a drain delivers
the acceptable records of the window in sequence order, up to the first empty one (`drain_eq`),
whatever slots in between are corrupt.
-/

namespace IotcDemos

section Drain

variable (crc32Ieee : Bytes → UInt32) (c : SpoolConfig)

/-- The record `spool_peek` would find for `seq`, with the operation that wrote its header. -/
def entryOf (d : Disk) (seq : UInt32) : Option Entry :=
  (recordAt crc32Ieee c d seq).map fun b => (stampAt c d (slotIdx c seq), b)

/-- The records of `m` sequence numbers from `seq` on. -/
def entriesFrom (d : Disk) : (m : ℕ) → UInt32 → List Entry
  | 0, _ => []
  | m + 1, seq => (entryOf crc32Ieee c d seq).toList ++ entriesFrom d m (seq + 1)

/-- Peek with a buffer that takes every record, deliver, commit, for so many rounds or until a peek
returns a number that is not positive. -/
def drain : (rounds : ℕ) → Node Disk → List Entry
  | 0, _ => []
  | k + 1, n =>
      let r := spoolPeek Disk.reliable crc32Ieee c (spoolPayloadMax + 1) n
      if r.1 ≤ 0 then []
      else
        match r.2.1 with
        | none => []
        | some b =>
            (stampAt c r.2.2.disk (slotIdx c r.2.2.ram.headSeq), b)
              :: drain k (spoolCommit Disk.reliable c r.2.2).2

/-- The payload is not empty. -/
def Entry.nonempty (e : Entry) : Bool := !e.2.isEmpty

variable {crc32Ieee c}

theorem add_ofNat_zero (seq : UInt32) : seq + UInt32.ofNat 0 = seq := UInt32.add_zero seq

theorem add_ofNat_succ (seq : UInt32) (k : ℕ) :
    seq + UInt32.ofNat (k + 1) = seq + 1 + UInt32.ofNat k := by
  rw [ofNat_succ32]
  ac_rfl

theorem entryOf_eq_some {d : Disk} {seq : UInt32} {e : Entry} :
    entryOf crc32Ieee c d seq = some e ↔ Held crc32Ieee c d seq e := by
  obtain ⟨p, b⟩ := e
  unfold entryOf Held
  rw [Option.map_eq_some_iff]
  constructor
  · rintro ⟨b', hb, he⟩
    cases he
    exact ⟨hb, rfl⟩
  · rintro ⟨hb, rfl⟩
    exact ⟨b, hb, rfl⟩

theorem mem_entriesFrom {d : Disk} {m : ℕ} {seq : UInt32} {e : Entry} :
    e ∈ entriesFrom crc32Ieee c d m seq ↔
      ∃ k, k < m ∧ Held crc32Ieee c d (seq + UInt32.ofNat k) e := by
  induction m generalizing seq with
  | zero => simp [entriesFrom]
  | succ m ih =>
      rw [entriesFrom, List.mem_append, Option.mem_toList, entryOf_eq_some, ih]
      constructor
      · rintro (h | ⟨k, hk, h⟩)
        · exact ⟨0, by omega, by rwa [add_ofNat_zero]⟩
        · exact ⟨k + 1, by omega, by rwa [add_ofNat_succ]⟩
      · rintro ⟨k, hk, h⟩
        cases k with
        | zero => exact Or.inl (by rwa [add_ofNat_zero] at h)
        | succ k => exact Or.inr ⟨k, by omega, by rwa [← add_ofNat_succ]⟩

theorem entriesFrom_congr {d d' : Disk} {m : ℕ} {seq : UInt32}
    (h : ∀ k, k < m → entryOf crc32Ieee c d (seq + UInt32.ofNat k)
      = entryOf crc32Ieee c d' (seq + UInt32.ofNat k)) :
    entriesFrom crc32Ieee c d m seq = entriesFrom crc32Ieee c d' m seq := by
  induction m generalizing seq with
  | zero => rfl
  | succ m ih =>
      have hfront := h 0 (by omega)
      rw [add_ofNat_zero] at hfront
      rw [entriesFrom, entriesFrom, hfront]
      congr 1
      refine ih fun k hk => ?_
      have hlater := h (k + 1) (by omega)
      rwa [add_ofNat_succ] at hlater

/-- Sequence numbers without a record contribute nothing. -/
theorem entriesFrom_skip {d : Disk} {j m : ℕ} {seq : UInt32}
    (h : ∀ k, k < j → recordAt crc32Ieee c d (seq + UInt32.ofNat k) = none) :
    entriesFrom crc32Ieee c d (j + m) seq
      = entriesFrom crc32Ieee c d m (seq + UInt32.ofNat j) := by
  induction j generalizing seq with
  | zero =>
      rw [Nat.zero_add, add_ofNat_zero]
  | succ j ih =>
      have hfront := h 0 (by omega)
      rw [add_ofNat_zero] at hfront
      have hnone : entryOf crc32Ieee c d seq = none := by rw [entryOf, hfront, Option.map_none]
      rw [Nat.add_right_comm, entriesFrom, hnone, Option.toList_none, List.nil_append,
        add_ofNat_succ]
      exact ih fun k hk => by rw [← add_ofNat_succ]; exact h (k + 1) (by omega)

/-- With a buffer for every record, `spool_peek` skips only slots that fail its tests. -/
theorem Peeked.skips_rejected {bufSize m j : ℕ} {n : Node Disk}
    {r : Int × Option Bytes × Node Disk} (h : Peeked crc32Ieee c bufSize m n r j)
    (hsize : spoolPayloadMax < bufSize) {i : ℕ} (hi : i < j) :
    recordAt crc32Ieee c n.disk (n.ram.seqAt i) = none := by
  cases hrec : recordAt crc32Ieee c n.disk (n.ram.seqAt i) with
  | none => rfl
  | some b =>
      have hpassed := h.passed i b hi hrec
      have hlen := (recordAt_length crc32Ieee c hrec).2
      omega

/-! ## What a commit removes -/

/-- Clearing the slot of a record keeps the entry of every other number. -/
theorem entryOf_blanked_held {d : Disk} {head seq : UInt32} {e : Entry} (hne : head ≠ seq)
    (hhead : Held crc32Ieee c d head e) :
    entryOf crc32Ieee c (blanked c (slotIdx c head) d) seq = entryOf crc32Ieee c d seq := by
  by_cases hs : slotIdx c head = slotIdx c seq
  · -- the slot holds `head`, so it holds no `seq`, before or after
    have hbefore : recordAt crc32Ieee c d seq = none := by
      rw [Option.eq_none_iff_forall_ne_some]
      intro b hb
      exact hne (held_slotIdx_inj crc32Ieee c hhead.1 hb hs)
    have hafter : recordAt crc32Ieee c (blanked c (slotIdx c head) d) seq = none := by
      rw [Option.eq_none_iff_forall_ne_some]
      intro b hb
      have hcounts := (counts_of_acceptable crc32Ieee c ((recordAt_eq_some crc32Ieee c).mp hb).1).1
      rw [← hs, counts_blanked] at hcounts
      exact absurd hcounts (by decide)
    rw [entryOf, entryOf, hbefore, hafter, Option.map_none, Option.map_none]
  · unfold entryOf
    rw [blanked, recordAt_of_ne crc32Ieee c _ _ _ (by omega) (slotIdx_lt c _) hs,
      stampAt_of_ne c _ _ _ (by omega) (slotIdx_lt c _) (slotIdx_lt c _) hs]

/-- The record at the front is committed: its entry goes, the other entries of the window stay. -/
theorem entriesFrom_commit {d : Disk} {m : ℕ} {head : UInt32} {e : Entry} (hm : m + 1 < 2 ^ 32)
    (hhead : Held crc32Ieee c d head e) :
    entriesFrom crc32Ieee c d (m + 1) head
      = e :: entriesFrom crc32Ieee c (blanked c (slotIdx c head) d) m (head + 1) := by
  have hentry : entryOf crc32Ieee c d head = some e := entryOf_eq_some.mpr hhead
  rw [entriesFrom, hentry, Option.toList_some, List.singleton_append]
  congr 1
  apply entriesFrom_congr
  intro k hk
  apply (entryOf_blanked_held _ hhead).symm
  rw [← add_ofNat_succ]
  intro heq
  have hplace := add_ofNat_inj (i := 0) (by omega) (by omega) ((add_ofNat_zero _).trans heq)
  exact absurd hplace (Nat.succ_ne_zero k).symm

/-- **What a drain delivers**: the records of the window, in sequence order, up to the first empty
one. -/
theorem drain_eq {rounds : ℕ} {n : Node Disk} (hr : n.ram.ready = true)
    (hrounds : n.ram.recCount.toNat ≤ rounds) :
    drain crc32Ieee c rounds n
      = (entriesFrom crc32Ieee c n.disk n.ram.recCount.toNat n.ram.headSeq).takeWhile
          Entry.nonempty := by
  induction rounds generalizing n with
  | zero =>
      rw [Nat.le_zero.mp hrounds]
      rfl
  | succ k ih =>
      obtain ⟨j, hp⟩ := spoolPeek_spec crc32Ieee c (spoolPayloadMax + 1) hr
      unfold drain
      have hnode := hp.node
      have hskip : ∀ i, i < j → recordAt crc32Ieee c n.disk (n.ram.headSeq + UInt32.ofNat i)
          = none := fun i hi => hp.skips_rejected (Nat.lt_succ_self _) hi
      rcases hp.found with ⟨hret, -, hj⟩ | ⟨b, hret, hsome, hj, -, hrec⟩
      · -- every slot of the window was skipped
        simp only [hret, le_refl, if_true]
        rw [← hj]
        have hall := entriesFrom_skip (m := 0) hskip
        rw [Nat.add_zero] at hall
        rw [hall]
        rfl
      · -- the record at place `j` is the first one
        obtain ⟨m, hm⟩ : ∃ m, n.ram.recCount.toNat = j + (m + 1) := Nat.exists_eq_add_of_lt hj
        have hlt := n.ram.recCount.toNat_lt
        have hheld : Held crc32Ieee c n.disk (n.ram.seqAt j)
            (stampAt c n.disk (slotIdx c (n.ram.seqAt j)), b) := ⟨hrec, rfl⟩
        have hfront : entriesFrom crc32Ieee c n.disk (m + 1) (n.ram.headSeq + UInt32.ofNat j)
            = (stampAt c n.disk (slotIdx c (n.ram.seqAt j)), b)
              :: entriesFrom crc32Ieee c (blanked c (slotIdx c (n.ram.seqAt j)) n.disk) m
                (n.ram.seqAt j + 1) := entriesFrom_commit (by omega) hheld
        rw [hm, entriesFrom_skip hskip, hfront, List.takeWhile_cons]
        by_cases hempty : b = []
        · -- an empty one ends the drain
          simp [hret, hempty, Entry.nonempty]
        · -- it is delivered, and the drain goes on behind it
          have hlen : 0 < b.length := List.length_pos_of_ne_nil hempty
          have hpositive : ¬ (b.length : Int) ≤ 0 := by omega
          have hdelivered : Entry.nonempty (stampAt c n.disk (slotIdx c (n.ram.seqAt j)), b)
              = true := by simpa [Entry.nonempty] using hempty
          have hcount : (Spool.skip^[j] n.ram).recCount.toNat = m + 1 := skips_recCount hm
          have hpos : 0 < (Spool.skip^[j] n.ram).recCount := by
            rw [UInt32.lt_iff_toNat_lt, hcount]
            exact Nat.succ_pos m
          have hready : (Spool.skip^[j] n.ram).ready = true := by rw [skips_ready, hr]
          have hcommit : (Spool.skip^[j] n.ram).committed.recCount.toNat = m := toNat_pred hcount
          have hhead : (Spool.skip^[j] n.ram).committed.headSeq = n.ram.seqAt j + 1 := by
            show (Spool.skip^[j] n.ram).headSeq + 1 = _
            rw [skips_headSeq]
          rw [if_pos hdelivered, if_neg (by rwa [hret])]
          simp only [hsome, hnode]
          rw [spoolCommit_eq c hready hpos]
          simp only [skips_headSeq]
          rw [ih hready (by rw [hcommit]; omega), hcommit, hhead]

end Drain

end IotcDemos
