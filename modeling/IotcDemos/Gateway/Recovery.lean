import IotcDemos.Gateway.Window

set_option autoImplicit false

/-! # The recovery scan of `spool_init`

`spool_init` looks at the headers only. `scanAll c d` is what its loop has computed at the end:
`scanAll_spec` says that `min_seq` and `max_seq` are the least and the greatest sequence number
among the headers that count. `spoolInit_eq` gives the recovered state.
-/

namespace IotcDemos

/-! ## The scan over a list of headers -/

/-- What the scan has computed after the headers `hs`. -/
structure Seen (hs : List RecHdr) (a : Scan) : Prop where
  valid : a.valid.toNat = (hs.filter RecHdr.counts).length
  bounds : ∀ h ∈ hs, h.counts = true → a.minSeq ≤ h.seq ∧ h.seq ≤ a.maxSeq
  attained : (∃ h ∈ hs, h.counts = true) →
    (∃ h ∈ hs, h.counts = true ∧ h.seq = a.maxSeq) ∧
    (∃ h ∈ hs, h.counts = true ∧ h.seq = a.minSeq)
  start : (∀ h ∈ hs, h.counts = false) → a = Scan.start

theorem seen_nil : Seen [] Scan.start :=
  ⟨rfl, by simp, by simp, fun _ => rfl⟩

theorem see_of_counts {a : Scan} {h : RecHdr} (hc : h.counts = true) :
    a.see h = ⟨if a.maxSeq > h.seq then a.maxSeq else h.seq,
      if a.minSeq < h.seq then a.minSeq else h.seq, a.valid + 1⟩ := by
  rw [Scan.see, if_pos hc]

theorem see_of_not_counts {a : Scan} {h : RecHdr} (hc : h.counts = false) : a.see h = a := by
  rw [Scan.see, if_neg (by simp [hc])]

/-- The first header that counts sets both bounds. -/
theorem see_start {h : RecHdr} (hc : h.counts = true) :
    Scan.start.see h = ⟨h.seq, h.seq, 1⟩ := by
  rw [see_of_counts hc]
  have hlt := h.seq.toNat_lt
  have h1 : ¬ Scan.start.maxSeq > h.seq := by
    show ¬ h.seq < 0
    rw [UInt32.lt_iff_toNat_lt]
    simp
  have h2 : ¬ Scan.start.minSeq < h.seq := by
    show ¬ (0xFFFFFFFF : UInt32) < h.seq
    rw [UInt32.lt_iff_toNat_lt]
    show ¬ 4294967295 < h.seq.toNat
    omega
  rw [if_neg h1, if_neg h2]
  rfl

/-- A further header that counts widens the bounds to it. -/
theorem see_bounds {a : Scan} {h : RecHdr} (hc : h.counts = true) :
    ((a.see h).minSeq ≤ a.minSeq ∧ a.maxSeq ≤ (a.see h).maxSeq) ∧
    ((a.see h).minSeq ≤ h.seq ∧ h.seq ≤ (a.see h).maxSeq) ∧
    ((a.see h).maxSeq = a.maxSeq ∨ (a.see h).maxSeq = h.seq) ∧
    ((a.see h).minSeq = a.minSeq ∨ (a.see h).minSeq = h.seq) := by
  rw [see_of_counts hc]
  simp only [gt_iff_lt, UInt32.lt_iff_toNat_lt, UInt32.le_iff_toNat_le]
  refine ⟨⟨?_, ?_⟩, ⟨?_, ?_⟩, ?_, ?_⟩
  · split <;> omega
  · split <;> omega
  · split <;> omega
  · split <;> omega
  · split
    · exact Or.inl rfl
    · exact Or.inr rfl
  · split
    · exact Or.inl rfl
    · exact Or.inr rfl

theorem Seen.see {hs : List RecHdr} {a : Scan} (ha : Seen hs a) (h : RecHdr)
    (hlen : hs.length < 2 ^ 32 - 1) : Seen (hs ++ [h]) (a.see h) := by
  cases hc : h.counts with
  | false =>
      -- nothing changes
      rw [see_of_not_counts hc]
      refine ⟨?_, ?_, ?_, ?_⟩
      · rw [ha.valid, List.filter_append, List.filter_cons_of_neg (by simp [hc])]
        simp
      · intro g hg hgc
        rcases List.mem_append.mp hg with hg | hg
        · exact ha.bounds g hg hgc
        · rw [List.mem_singleton.mp hg, hc] at hgc
          exact absurd hgc (by decide)
      · rintro ⟨g, hg, hgc⟩
        have hold : ∃ g ∈ hs, g.counts = true := by
          rcases List.mem_append.mp hg with hg | hg
          · exact ⟨g, hg, hgc⟩
          · rw [List.mem_singleton.mp hg, hc] at hgc
            exact absurd hgc (by decide)
        obtain ⟨⟨g1, h1, h1c, h1e⟩, ⟨g2, h2, h2c, h2e⟩⟩ := ha.attained hold
        exact ⟨⟨g1, List.mem_append_left _ h1, h1c, h1e⟩,
          ⟨g2, List.mem_append_left _ h2, h2c, h2e⟩⟩
      · intro hall
        exact ha.start fun g hg => hall g (List.mem_append_left _ hg)
  | true =>
      have hnew : h ∈ hs ++ [h] := List.mem_append_right _ (List.mem_singleton.mpr rfl)
      have hb := see_bounds (a := a) hc
      refine ⟨?_, ?_, ?_, ?_⟩
      · have hfl : (hs.filter RecHdr.counts).length ≤ hs.length := List.length_filter_le _ _
        rw [see_of_counts hc, List.filter_append, List.filter_cons_of_pos hc, List.filter_nil,
          List.length_append, List.length_singleton, ← ha.valid]
        show (a.valid + 1).toNat = a.valid.toNat + 1
        exact toNat_succ (by rw [ha.valid]; omega)
      · intro g hg hgc
        rcases List.mem_append.mp hg with hg | hg
        · have hold := ha.bounds g hg hgc
          exact ⟨UInt32.le_trans hb.1.1 hold.1, UInt32.le_trans hold.2 hb.1.2⟩
        · rw [List.mem_singleton.mp hg]
          exact hb.2.1
      · intro _
        -- an earlier header has set the bounds, or this one is the first
        by_cases hold : ∃ g ∈ hs, g.counts = true
        · obtain ⟨⟨g1, h1, h1c, h1e⟩, ⟨g2, h2, h2c, h2e⟩⟩ := ha.attained hold
          refine ⟨?_, ?_⟩
          · rcases hb.2.2.1 with he | he
            · exact ⟨g1, List.mem_append_left _ h1, h1c, by rw [h1e, he]⟩
            · exact ⟨h, hnew, hc, he.symm⟩
          · rcases hb.2.2.2 with he | he
            · exact ⟨g2, List.mem_append_left _ h2, h2c, by rw [h2e, he]⟩
            · exact ⟨h, hnew, hc, he.symm⟩
        · have hst : a = Scan.start := ha.start fun g hg => by
            rw [← Bool.not_eq_true]
            exact fun hgc => hold ⟨g, hg, hgc⟩
          rw [hst, see_start hc]
          exact ⟨⟨h, hnew, hc, rfl⟩, ⟨h, hnew, hc, rfl⟩⟩
      · intro hall
        have := hall h hnew
        rw [hc] at this
        exact absurd this (by decide)

theorem seen_foldl {hs : List RecHdr} (hlen : hs.length < 2 ^ 32) :
    Seen hs (hs.foldl Scan.see Scan.start) := by
  induction hs using List.reverseRecOn with
  | nil => exact seen_nil
  | append_singleton hs h ih =>
      rw [List.length_append, List.length_singleton] at hlen
      rw [List.foldl_append]
      exact (ih (by omega)).see h (by omega)

section Recovery

variable (c : SpoolConfig)

/-! ## The scan over the ring -/

/-- The headers of the ring in slot order. -/
def hdrs (d : Disk) : List RecHdr := (List.range c.nslots).map (hdrAt c d)

/-- What the loop of `spool_init` has computed at its end. -/
def scanAll (d : Disk) : Scan := (hdrs c d).foldl Scan.see Scan.start

theorem scanSlots_eq (k i : ℕ) (d : Disk) (a : Scan) :
    scanSlots Disk.reliable c k i d a
      = (some (((List.range' i k).map (hdrAt c d)).foldl Scan.see a), d) := by
  induction k generalizing i a with
  | zero => rfl
  | succ k ih =>
      rw [scanSlots, readHdr_reliable, List.range'_succ, List.map_cons, List.foldl_cons]
      exact ih (i + 1) _

/-- **`spool_init` on a disk that works.** -/
theorem spoolInit_eq (n : Node Disk) :
    spoolInit Disk.reliable c n = (0, ⟨n.disk, n.ram.recover c (scanAll c n.disk)⟩) := by
  have hscan := scanSlots_eq c c.nslots 0 n.disk Scan.start
  rw [← List.range_eq_range'] at hscan
  have hinit : Disk.reliable.init n.disk = (0, n.disk) := rfl
  rw [spoolInit, hinit]
  simp only [ne_eq, not_true_eq_false, if_false]
  rw [hscan]
  rfl

theorem mem_hdrs {d : Disk} {h : RecHdr} : h ∈ hdrs c d ↔ ∃ i, i < c.nslots ∧ hdrAt c d i = h := by
  simp [hdrs]

/-- Some header counts, or none does. -/
theorem counts_or_none (d : Disk) : (∃ i, i < c.nslots ∧ (hdrAt c d i).counts = true) ∨
    ∀ i, i < c.nslots → (hdrAt c d i).counts = false := by
  by_cases hany : ∃ i, i < c.nslots ∧ (hdrAt c d i).counts = true
  · exact Or.inl hany
  · right
    intro i hi
    rw [← Bool.not_eq_true]
    exact fun hc => hany ⟨i, hi, hc⟩

theorem seen_scanAll (d : Disk) : Seen (hdrs c d) (scanAll c d) := by
  apply seen_foldl
  rw [hdrs, List.length_map, List.length_range]
  exact nslots_lt c

/-- No header counts: the ring is empty and the numbering starts at 0. -/
theorem recover_empty {d : Disk} (s : Spool)
    (h : ∀ i, i < c.nslots → (hdrAt c d i).counts = false) :
    s.recover c (scanAll c d)
      = ⟨0, 0, 0, { s.stats with capacity := UInt32.ofNat c.nslots, count := 0 }, true⟩ := by
  have hst : scanAll c d = Scan.start := (seen_scanAll c d).start fun g hg => by
    obtain ⟨i, hi, rfl⟩ := (mem_hdrs c).mp hg
    exact h i hi
  rw [hst]
  rfl

/-- The head of the window recovered from a scan that saw a header: the least sequence number,
but not below the newest `NSLOTS`. -/
def clampedHead (a : Scan) : UInt32 :=
  let nm1 := UInt32.ofNat (c.nslots - 1)
  let clamp := if a.maxSeq ≥ nm1 then a.maxSeq - nm1 else 0
  if a.minSeq > clamp then a.minSeq else clamp

theorem clampedHead_toNat (a : Scan) :
    (clampedHead c a).toNat = max a.minSeq.toNat (a.maxSeq.toNat - (c.nslots - 1)) := by
  have hn := nslots_lt c
  have hnm1 : (UInt32.ofNat (c.nslots - 1)).toNat = c.nslots - 1 := by
    rw [UInt32.toNat_ofNat', Nat.mod_eq_of_lt (by omega)]
  have hclamp : (if a.maxSeq ≥ UInt32.ofNat (c.nslots - 1) then
      a.maxSeq - UInt32.ofNat (c.nslots - 1) else 0).toNat = a.maxSeq.toNat - (c.nslots - 1) := by
    -- the guard makes the subtraction one of natural numbers
    by_cases hge : a.maxSeq ≥ UInt32.ofNat (c.nslots - 1)
    · rw [if_pos hge, UInt32.toNat_sub_of_le _ _ hge, hnm1]
    · rw [if_neg hge, UInt32.toNat_zero]
      rw [ge_iff_le, UInt32.le_iff_toNat_le, hnm1] at hge
      omega
  unfold clampedHead
  simp only [gt_iff_lt, UInt32.lt_iff_toNat_lt, hclamp]
  split
  · omega
  · rw [hclamp]
    omega

theorem recover_of_valid {a : Scan} (s : Spool) (hv : a.valid ≠ 0) :
    s.recover c a = ⟨clampedHead c a, a.maxSeq + 1, a.maxSeq + 1 - clampedHead c a,
      { s.stats with
        capacity := UInt32.ofNat c.nslots
        count := a.maxSeq + 1 - clampedHead c a }, true⟩ := by
  unfold Spool.recover
  simp only [if_neg hv]
  rfl

theorem counts_blank (i : ℕ) : (hdrAt c Disk.blank i).counts = false := by
  have hzero : (Sector.ofBytes []).bytes = blankSector := by
    show ([] ++ List.replicate 512 (0 : UInt8)).take 512 = List.replicate 512 0
    rw [List.nil_append, List.take_of_length_le (Nat.le_of_eq List.length_replicate)]
  rw [hdrAt_eq, ← blank_counts, ← hzero]
  rfl

/-- Some header counts: the bounds are the least and greatest sequence numbers that do. -/
theorem scanAll_spec {d : Disk} (h : ∃ i, i < c.nslots ∧ (hdrAt c d i).counts = true) :
    (scanAll c d).valid ≠ 0 ∧
    (∀ i, i < c.nslots → (hdrAt c d i).counts = true →
      (scanAll c d).minSeq ≤ (hdrAt c d i).seq ∧ (hdrAt c d i).seq ≤ (scanAll c d).maxSeq) ∧
    (∃ i, i < c.nslots ∧ (hdrAt c d i).counts = true ∧
      (hdrAt c d i).seq = (scanAll c d).maxSeq) ∧
    (∃ i, i < c.nslots ∧ (hdrAt c d i).counts = true ∧
      (hdrAt c d i).seq = (scanAll c d).minSeq) := by
  have hseen := seen_scanAll c d
  obtain ⟨i, hi, hic⟩ := h
  have hmem : hdrAt c d i ∈ hdrs c d := (mem_hdrs c).mpr ⟨i, hi, rfl⟩
  obtain ⟨⟨g1, h1, h1c, h1e⟩, ⟨g2, h2, h2c, h2e⟩⟩ := hseen.attained ⟨_, hmem, hic⟩
  obtain ⟨i1, hi1, rfl⟩ := (mem_hdrs c).mp h1
  obtain ⟨i2, hi2, rfl⟩ := (mem_hdrs c).mp h2
  refine ⟨?_, fun j hj hjc => hseen.bounds _ ((mem_hdrs c).mpr ⟨j, hj, rfl⟩) hjc,
    ⟨i1, hi1, h1c, h1e⟩, ⟨i2, hi2, h2c, h2e⟩⟩
  intro hzero
  have hpos : 0 < ((hdrs c d).filter RecHdr.counts).length :=
    List.length_pos_of_mem (List.mem_filter.mpr ⟨hmem, hic⟩)
  rw [← hseen.valid, hzero] at hpos
  exact absurd hpos (by decide)

end Recovery

end IotcDemos
