import IotcDemos.Gateway.Drain

set_option autoImplicit false

/-! # Progress of the drain

The main loop stops a drain when `spool_peek` returns a number that is not positive, so that
number should mean that nothing is queued. `spool_peek` skips exactly the slots that fail its
tests; but the length of a record is what it returns, and the empty string is a record as well.
`PeekProgress` holds exactly when the first record of the window is not empty
(`peek_progress_iff`).
-/

namespace IotcDemos

section Progress

variable (crc32Ieee : Bytes → UInt32) (c : SpoolConfig)

/-- What the main loop relies on: a call of `spool_peek` in the state `n`, answering `r`, has taken
slots that fail its tests off the front of the window and done nothing else, and a number that
is not positive says that the window is empty. -/
structure PeekProgress (n : Node Disk) (r : Int × Option Bytes × Node Disk) : Prop where
  skipped : ∃ j, j ≤ n.ram.recCount.toNat ∧ r.2.2 = ⟨n.disk, Spool.skip^[j] n.ram⟩ ∧
    ∀ i, i < j → recordAt crc32Ieee c n.disk (n.ram.seqAt i) = none
  stops : r.1 ≤ 0 → r.2.2.ram.recCount = 0

variable {crc32Ieee c}

/-- The first record of the window is behind slots that fail the tests. -/
theorem spooled_head?_eq_some {n : Node Disk} {j : ℕ} {b : Bytes} (hj : j < n.ram.recCount.toNat)
    (hskip : ∀ i, i < j → recordAt crc32Ieee c n.disk (n.ram.seqAt i) = none)
    (hb : recordAt crc32Ieee c n.disk (n.ram.seqAt j) = some b) :
    (spooled crc32Ieee c n).head? = some b := by
  rw [spooled, List.head?_filterMap, List.findSome?_eq_some_iff]
  obtain ⟨m, hm⟩ : ∃ m, n.ram.recCount.toNat = j + (m + 1) := Nat.exists_eq_add_of_lt hj
  refine ⟨List.range j, j, ((List.range m).map Nat.succ).map (j + ·), ?_, hb, ?_⟩
  · rw [hm, List.range_add, List.range_succ_eq_map, List.map_cons, Nat.add_zero]
  · intro i hi
    exact hskip i (List.mem_range.mp hi)

/-- No record, no first record. -/
theorem spooled_eq_nil {n : Node Disk}
    (hskip : ∀ i, i < n.ram.recCount.toNat →
      recordAt crc32Ieee c n.disk (n.ram.seqAt i) = none) : spooled crc32Ieee c n = [] := by
  rw [spooled, List.filterMap_eq_nil_iff]
  intro i hi
  exact hskip i (List.mem_range.mp hi)

variable (crc32Ieee c)

/-- **When a drain makes progress.** In every ready state and on every disk content, a call of
`spool_peek` with room for every record is what the main loop relies on exactly when the first
record of the window, if it has one, is not the empty string. -/
theorem peek_progress_iff {n : Node Disk} (hr : n.ram.ready = true) {bufSize : ℕ}
    (hsize : spoolPayloadMax < bufSize) :
    PeekProgress crc32Ieee c n (spoolPeek Disk.reliable crc32Ieee c bufSize n) ↔
      (spooled crc32Ieee c n).head? ≠ some [] := by
  obtain ⟨j, hp⟩ := spoolPeek_spec crc32Ieee c bufSize hr
  have hskip : ∀ i, i < j → recordAt crc32Ieee c n.disk (n.ram.seqAt i) = none :=
    fun i hi => hp.skips_rejected hsize hi
  have hleft : (spoolPeek Disk.reliable crc32Ieee c bufSize n).2.2.ram.recCount.toNat
      = n.ram.recCount.toNat - j := by
    have hle := hp.le
    rw [hp.node]
    exact skips_recCount (by omega)
  rcases hp.found with ⟨-, -, hj⟩ | ⟨b, hret, -, hj, -, hb⟩
  · -- the window is used up
    have hempty : (spoolPeek Disk.reliable crc32Ieee c bufSize n).2.2.ram.recCount = 0 := by
      apply UInt32.toNat_inj.mp
      rw [hleft, hj, Nat.sub_self, UInt32.toNat_zero]
    rw [spooled_eq_nil (by rwa [hj] at hskip)]
    exact ⟨fun _ => by simp, fun _ => ⟨⟨j, hp.le, hp.node, hskip⟩, fun _ => hempty⟩⟩
  · -- a record is returned, and stays queued
    rw [spooled_head?_eq_some hj hskip hb]
    constructor
    · intro h hnil
      obtain rfl : b = [] := Option.some.inj hnil
      have hzero := h.stops (by rw [hret]; exact Int.le_refl 0)
      rw [hzero, UInt32.toNat_zero] at hleft
      omega
    · intro hne
      refine ⟨⟨j, hp.le, hp.node, hskip⟩, fun hle => ?_⟩
      have hpos : 0 < b.length := List.length_pos_iff.mpr fun hnil => hne (by rw [hnil])
      rw [hret] at hle
      omega

/-- The empty string is accepted, and keeps the record behind it from being drained: `spool_peek`
returns 0 with two records queued. -/
theorem empty_record_blocks_drain :
    let n := runState (diskStep Crc32.ieee twoSlots) [.push [], .push [65]]
      (boot twoSlots Disk.blank).2
    let r := spoolPeek Disk.reliable Crc32.ieee twoSlots (spoolPayloadMax + 1) n
    n.ram.ready = true ∧ r.1 = 0 ∧ r.2.2.ram.recCount = 2 ∧
    ¬ PeekProgress Crc32.ieee twoSlots n r := by
  intro n r
  have hr : r.1 = 0 ∧ r.2.2.ram.recCount = 2 := by decide +kernel
  refine ⟨by decide +kernel, hr.1, hr.2, fun h => ?_⟩
  have hstop := h.stops (by rw [hr.1])
  rw [hr.2] at hstop
  exact absurd hstop (by decide)

theorem peek_progress_pushed :
    let n := (diskStep Crc32.ieee oneSlot (.push [65]) (boot oneSlot Disk.blank).2).2
    PeekProgress Crc32.ieee oneSlot n
      (spoolPeek Disk.reliable Crc32.ieee oneSlot (spoolPayloadMax + 1) n) :=
  (peek_progress_iff Crc32.ieee oneSlot (by decide +kernel) (by decide)).mpr (by decide +kernel)

end Progress

end IotcDemos
