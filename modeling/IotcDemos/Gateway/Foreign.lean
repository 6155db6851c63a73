import IotcDemos.Gateway.Reboot

set_option autoImplicit false

/-! # Slots that `spool_peek` would reject

`spool_init` counts every slot with the magic and a possible length; `spool_peek` also wants the
sequence number to belong to the slot and the checksum to be right. `acceptedAt` is the test of
`spool_peek`, and `clearRejected d` the image `d` with the headers of all other slots cleared.
A slot that only `spool_init` counts can move the window: `WindowSound` says that it does not, and
`window_sound_iff` says when that is so.
-/

namespace IotcDemos

section Foreign

variable (crc32Ieee : Bytes → UInt32) (c : SpoolConfig)

/-- `spool_peek` would accept slot `i`, in its place. -/
def acceptedAt (d : Disk) (i : ℕ) : Bool :=
  decide (slotIdx c (hdrAt c d i).seq = i) &&
    acceptable crc32Ieee (slotBuf c d i) (hdrAt c d i).seq (spoolPayloadMax + 1)

/-- Of the first `k` slots, those that `spool_peek` would reject get a cleared header. -/
def clearedUpTo (d : Disk) : (k : ℕ) → Disk
  | 0 => d
  | k + 1 => if acceptedAt crc32Ieee c d k then clearedUpTo d k else blanked c k (clearedUpTo d k)

def clearRejected (d : Disk) : Disk := clearedUpTo crc32Ieee c d c.nslots

/-- The window recovered from the image `d` is that of the slots `spool_peek` would accept. -/
structure WindowSound (d : Disk) : Prop where
  /-- Every acceptable slot is in the window, but for those a whole ring below another one. -/
  covers : ∀ i, i < c.nslots → acceptedAt crc32Ieee c d i = true →
    (∃ k, k < (boot c d).2.ram.recCount.toNat ∧ (boot c d).2.ram.seqAt k = (hdrAt c d i).seq) ∨
    ∃ j, j < c.nslots ∧ acceptedAt crc32Ieee c d j = true ∧
      (hdrAt c d i).seq.toNat + c.nslots ≤ (hdrAt c d j).seq.toNat
  /-- The other slots might as well not be there. -/
  unmoved : (boot c d).2.ram = (boot c (clearRejected crc32Ieee c d)).2.ram

/-- The sequence number of slot `i` moves neither bound of the window of the acceptable slots: it
is not above all of them, and it is below them only where the clamp is. -/
def Harmless (d : Disk) (i : ℕ) : Prop :=
  (∃ k, k < c.nslots ∧ acceptedAt crc32Ieee c d k = true ∧
    (hdrAt c d i).seq ≤ (hdrAt c d k).seq) ∧
  ((∃ j, j < c.nslots ∧ acceptedAt crc32Ieee c d j = true ∧
      (hdrAt c d j).seq ≤ (hdrAt c d i).seq) ∨
    ∃ j k, j < c.nslots ∧ k < c.nslots ∧ acceptedAt crc32Ieee c d j = true ∧
      acceptedAt crc32Ieee c d k = true ∧
      (hdrAt c d j).seq.toNat + (c.nslots - 1) ≤ (hdrAt c d k).seq.toNat)

variable {crc32Ieee c}

/-! ## The image without the rejected slots -/

theorem counts_of_acceptedAt {d : Disk} {i : ℕ} (h : acceptedAt crc32Ieee c d i = true) :
    (hdrAt c d i).counts = true := by
  unfold acceptedAt at h
  rw [Bool.and_eq_true] at h
  exact (counts_of_acceptable crc32Ieee c h.2).1

/-- A slot not yet reached keeps its header, and so does an accepted one. -/
theorem hdrAt_clearedUpTo_kept {d : Disk} {k i : ℕ} (hk : k ≤ c.nslots) (hi : i < c.nslots)
    (h : k ≤ i ∨ acceptedAt crc32Ieee c d i = true) :
    hdrAt c (clearedUpTo crc32Ieee c d k) i = hdrAt c d i := by
  induction k with
  | zero => rfl
  | succ k ih =>
      have hprev := ih (by omega) (h.imp_left (by omega))
      unfold clearedUpTo
      split
      · exact hprev
      · rename_i hrej
        have hne : k ≠ i := by
          rintro rfl
          rcases h with h | h
          · omega
          · exact hrej h
        rw [blanked, hdrAt_of_ne c _ _ _ (by omega) (by omega) hi hne, hprev]

/-- A rejected slot counts for nothing once it has been reached. -/
theorem counts_clearedUpTo {d : Disk} {k i : ℕ} (hk : k ≤ c.nslots) (hik : i < k)
    (h : acceptedAt crc32Ieee c d i = false) :
    (hdrAt c (clearedUpTo crc32Ieee c d k) i).counts = false := by
  induction k with
  | zero => omega
  | succ k ih =>
      unfold clearedUpTo
      by_cases hki : k = i
      · subst hki
        rw [if_neg (by simp [h])]
        exact counts_blanked c k _
      · have hprev := ih (by omega) (by omega)
        split
        · exact hprev
        · exact counts_blanked_of c (by omega) (by omega) hprev

theorem hdrAt_clearRejected {d : Disk} {i : ℕ} (hi : i < c.nslots)
    (h : acceptedAt crc32Ieee c d i = true) :
    hdrAt c (clearRejected crc32Ieee c d) i = hdrAt c d i :=
  hdrAt_clearedUpTo_kept (Nat.le_refl _) hi (Or.inr h)

/-- The headers that count in the cleared image are those of the accepted slots. -/
theorem counts_clearRejected {d : Disk} {i : ℕ} (hi : i < c.nslots) :
    (hdrAt c (clearRejected crc32Ieee c d) i).counts = acceptedAt crc32Ieee c d i := by
  cases hacc : acceptedAt crc32Ieee c d i with
  | true => rw [hdrAt_clearRejected hi hacc, counts_of_acceptedAt hacc]
  | false => exact counts_clearedUpTo (Nat.le_refl _) hi hacc

/-! ## When two scans recover the same window -/

theorem recover_eq_iff {a a' : Scan} (s : Spool) (hv : a.valid ≠ 0) (hv' : a'.valid ≠ 0) :
    s.recover c a = s.recover c a' ↔
      a.maxSeq = a'.maxSeq ∧ clampedHead c a = clampedHead c a' := by
  rw [recover_of_valid c s hv, recover_of_valid c s hv']
  constructor
  · intro h
    have htail : a.maxSeq + 1 = a'.maxSeq + 1 := congrArg Spool.tailSeq h
    have hhead : clampedHead c a = clampedHead c a' := congrArg Spool.headSeq h
    exact ⟨(UInt32.add_left_inj 1).mp htail, hhead⟩
  · rintro ⟨hmax, hhead⟩
    rw [hmax, hhead]

/-- A scan that has seen a header recovers a window that is not the empty one. -/
theorem clampedHead_pos_of_last {a : Scan} (h : a.maxSeq + 1 = 0) : clampedHead c a ≠ 0 := by
  have hpos := c.pos
  have hn := nslots_lt c
  have hhead := clampedHead_toNat c a
  have hmax : (a.maxSeq.toNat + 1) % 2 ^ 32 = 0 := by
    have := congrArg UInt32.toNat h
    rwa [UInt32.toNat_add, UInt32.toNat_one, UInt32.toNat_zero] at this
  have hlt := a.maxSeq.toNat_lt
  intro hzero
  rw [hzero, UInt32.toNat_zero] at hhead
  omega

/-- The window contains every number from its head to the greatest one. -/
theorem mem_recovered {a : Scan} (hv : a.valid ≠ 0) {s : Spool} {seq : UInt32}
    (hlo : (clampedHead c a).toNat ≤ seq.toNat) (hhi : seq ≤ a.maxSeq) :
    ∃ k, k < (s.recover c a).recCount.toNat ∧ (s.recover c a).seqAt k = seq := by
  have hpos := c.pos
  have hn := nslots_lt c
  have hhead := clampedHead_toNat c a
  have hlt := a.maxSeq.toNat_lt
  rw [UInt32.le_iff_toNat_le] at hhi
  rw [recover_of_valid c s hv]
  refine ⟨seq.toNat - (clampedHead c a).toNat, ?_, add_ofNat_sub hlo⟩
  show _ < (a.maxSeq + 1 - clampedHead c a).toNat
  rw [UInt32.toNat_sub, UInt32.toNat_add, UInt32.toNat_one]
  omega

/-! ## The two scans -/

/-- The bounds of the scan of the cleared image, in terms of the accepted slots. -/
theorem scan_clearRejected {d : Disk}
    (h : ∃ i, i < c.nslots ∧ acceptedAt crc32Ieee c d i = true) :
    let a := scanAll c (clearRejected crc32Ieee c d)
    a.valid ≠ 0 ∧
    (∀ i, i < c.nslots → acceptedAt crc32Ieee c d i = true →
      a.minSeq ≤ (hdrAt c d i).seq ∧ (hdrAt c d i).seq ≤ a.maxSeq) ∧
    (∃ i, i < c.nslots ∧ acceptedAt crc32Ieee c d i = true ∧ (hdrAt c d i).seq = a.maxSeq) ∧
    (∃ i, i < c.nslots ∧ acceptedAt crc32Ieee c d i = true ∧ (hdrAt c d i).seq = a.minSeq) := by
  intro a
  have hback : ∀ {i : ℕ} {x : UInt32}, i < c.nslots →
      (hdrAt c (clearRejected crc32Ieee c d) i).counts = true →
      (hdrAt c (clearRejected crc32Ieee c d) i).seq = x →
      acceptedAt crc32Ieee c d i = true ∧ (hdrAt c d i).seq = x := by
    intro i x hi hc hx
    rw [counts_clearRejected hi] at hc
    exact ⟨hc, by rw [← hdrAt_clearRejected hi hc, hx]⟩
  obtain ⟨i, hi, hacc⟩ := h
  obtain ⟨hv, hbounds, ⟨j, hj, hjc, hjx⟩, ⟨k, hk, hkc, hkx⟩⟩ :=
    scanAll_spec c (d := clearRejected crc32Ieee c d)
      ⟨i, hi, by rw [counts_clearRejected hi, hacc]⟩
  refine ⟨hv, ?_, ⟨j, hj, hback hj hjc hjx⟩, ⟨k, hk, hback hk hkc hkx⟩⟩
  intro i hi hacc
  rw [← hdrAt_clearRejected hi hacc]
  exact hbounds i hi (by rw [counts_clearRejected hi, hacc])

/-- Same bounds for the window: every header that counts is harmless. -/
theorem bounds_eq_iff {d : Disk} (h : ∃ i, i < c.nslots ∧ acceptedAt crc32Ieee c d i = true) :
    ((scanAll c d).maxSeq = (scanAll c (clearRejected crc32Ieee c d)).maxSeq ∧
      clampedHead c (scanAll c d) = clampedHead c (scanAll c (clearRejected crc32Ieee c d))) ↔
    ∀ i, i < c.nslots → (hdrAt c d i).counts = true → Harmless crc32Ieee c d i := by
  have hpos := c.pos
  obtain ⟨-, hin, ⟨k, hk, hkacc, hkmax⟩, ⟨j, hj, hjacc, hjmin⟩⟩ := scan_clearRejected h
  obtain ⟨-, hall, ⟨k', hk', hkc', hkmax'⟩, ⟨j', hj', hjc', hjmin'⟩⟩ :=
    scanAll_spec c (d := d) ⟨k, hk, counts_of_acceptedAt hkacc⟩
  have hhead := clampedHead_toNat c (scanAll c d)
  have hhead' := clampedHead_toNat c (scanAll c (clearRejected crc32Ieee c d))
  -- the accepted slots are among those that count
  have hkall := (hall k hk (counts_of_acceptedAt hkacc)).2
  have hjall := (hall j hj (counts_of_acceptedAt hjacc)).1
  simp only [UInt32.le_iff_toNat_le, ← UInt32.toNat_inj] at *
  unfold Harmless
  simp only [UInt32.le_iff_toNat_le]
  constructor
  · rintro ⟨hmax, hclamp⟩ i hi hic
    have hbound := hall i hi hic
    refine ⟨⟨k, hk, hkacc, by omega⟩, ?_⟩
    by_cases hlow : (hdrAt c d j).seq.toNat ≤ (hdrAt c d i).seq.toNat
    · exact Or.inl ⟨j, hj, hjacc, hlow⟩
    · exact Or.inr ⟨j, k, hj, hk, hjacc, hkacc, by omega⟩
  · intro hharm
    obtain ⟨⟨k1, hk1, hk1acc, hk1le⟩, -⟩ := hharm k' hk' hkc'
    have hk1in := hin k1 hk1 hk1acc
    have hmax : (scanAll c d).maxSeq.toNat
        = (scanAll c (clearRejected crc32Ieee c d)).maxSeq.toNat := by omega
    refine ⟨hmax, ?_⟩
    rw [hhead, hhead', hmax]
    rcases (hharm j' hj' hjc').2 with
      ⟨j1, hj1, hj1acc, hle⟩ | ⟨j1, k2, hj1, hk2, hj1acc, hk2acc, hle⟩
    · have hj1in := hin j1 hj1 hj1acc
      omega
    · have hj1in := hin j1 hj1 hj1acc
      have hk2in := hin k2 hk2 hk2acc
      omega

/-! ## The window of the acceptable slots -/

/-- A window that the rejected slots do not move covers the acceptable ones. -/
theorem covers_of_unmoved {d : Disk}
    (h : (boot c d).2.ram = (boot c (clearRejected crc32Ieee c d)).2.ram) {i : ℕ}
    (hi : i < c.nslots) (hacc : acceptedAt crc32Ieee c d i = true) :
    (∃ k, k < (boot c d).2.ram.recCount.toNat ∧ (boot c d).2.ram.seqAt k = (hdrAt c d i).seq) ∨
    ∃ j, j < c.nslots ∧ acceptedAt crc32Ieee c d j = true ∧
      (hdrAt c d i).seq.toNat + c.nslots ≤ (hdrAt c d j).seq.toNat := by
  have hpos := c.pos
  obtain ⟨hv, hin, ⟨j, hj, hjacc, hjmax⟩, -⟩ := scan_clearRejected ⟨i, hi, hacc⟩
  obtain ⟨hlow, hhigh⟩ := hin i hi hacc
  by_cases hold : (hdrAt c d i).seq.toNat + c.nslots ≤ (hdrAt c d j).seq.toNat
  · exact Or.inr ⟨j, hj, hjacc, hold⟩
  · left
    rw [h, boot_eq]
    apply mem_recovered hv _ hhigh
    rw [clampedHead_toNat, ← hjmax]
    rw [UInt32.le_iff_toNat_le] at hlow
    omega

/-- Without an acceptable slot, a header that counts makes a window out of nothing. -/
theorem moved_of_none {d : Disk} (hnone : ∀ i, i < c.nslots → acceptedAt crc32Ieee c d i = false)
    (hany : ∃ i, i < c.nslots ∧ (hdrAt c d i).counts = true) :
    (boot c d).2.ram ≠ (boot c (clearRejected crc32Ieee c d)).2.ram := by
  have hempty := recover_empty c (d := clearRejected crc32Ieee c d) Spool.off
    fun i hi => by rw [counts_clearRejected hi, hnone i hi]
  obtain ⟨hv, -⟩ := scanAll_spec c hany
  rw [boot_eq, boot_eq]
  show Spool.off.recover c _ ≠ Spool.off.recover c _
  rw [hempty, recover_of_valid c _ hv]
  intro h
  exact clampedHead_pos_of_last (congrArg Spool.tailSeq h) (congrArg Spool.headSeq h)

variable (crc32Ieee c)

/-- **When rejected slots hide nothing.** For every image of the spool region, the recovered window
is that of the slots `spool_peek` would accept exactly when every slot that `spool_init` counts is
harmless to it. -/
theorem window_sound_iff (d : Disk) :
    WindowSound crc32Ieee c d ↔
      ∀ i, i < c.nslots → (hdrAt c d i).counts = true → Harmless crc32Ieee c d i := by
  have hsound : WindowSound crc32Ieee c d ↔
      (boot c d).2.ram = (boot c (clearRejected crc32Ieee c d)).2.ram :=
    ⟨WindowSound.unmoved, fun h => ⟨fun _ hi hacc => covers_of_unmoved h hi hacc, h⟩⟩
  rw [hsound]
  by_cases hacc : ∃ i, i < c.nslots ∧ acceptedAt crc32Ieee c d i = true
  · -- both windows come from a scan that has seen a header
    obtain ⟨hv', -⟩ := scan_clearRejected hacc
    obtain ⟨hv, -⟩ := scanAll_spec c (d := d)
      (hacc.imp fun _ hi => ⟨hi.1, counts_of_acceptedAt hi.2⟩)
    rw [← bounds_eq_iff hacc, ← recover_eq_iff Spool.off hv hv', boot_eq, boot_eq]
  · have hnone : ∀ i, i < c.nslots → acceptedAt crc32Ieee c d i = false := by
      intro i hi
      rw [← Bool.not_eq_true]
      exact fun h => hacc ⟨i, hi, h⟩
    constructor
    · intro h i hi hcounts
      exact absurd h (moved_of_none hnone ⟨i, hi, hcounts⟩)
    · intro h
      rcases counts_or_none c d with ⟨i, hi, hcounts⟩ | hblank
      · obtain ⟨⟨k, hk, hkacc, -⟩, -⟩ := h i hi hcounts
        rw [hnone k hk] at hkacc
        exact absurd hkacc (by decide)
      · have hblank' : ∀ i, i < c.nslots →
            (hdrAt c (clearRejected crc32Ieee c d) i).counts = false :=
          fun i hi => by rw [counts_clearRejected hi, hnone i hi]
        rw [boot_eq, boot_eq]
        show Spool.off.recover c _ = Spool.off.recover c _
        rw [recover_empty c _ hblank, recover_empty c _ hblank']

/-- A two-slot ring with the record 0 in slot 0, and in slot 1 a header with sequence number 1001
and a wrong checksum. -/
def foreignImage : Disk :=
  (pushed Crc32.ieee twoSlots 0 [65] Disk.blank).writeSel (fun _ => true)
    (slotImage ⟨recMagic, 1001, 0, 0, 1⟩ []) (slotSector twoSlots 1) spoolSlotSectors

/-- The record in slot 0 would be accepted, and the recovered window leaves it out. -/
theorem foreign_slot_hides_record :
    let n := (boot twoSlots foreignImage).2
    acceptedAt Crc32.ieee twoSlots foreignImage 0 = true ∧
    acceptedAt Crc32.ieee twoSlots foreignImage 1 = false ∧
    recordAt Crc32.ieee twoSlots foreignImage 0 = some [65] ∧
    n.ram.headSeq = 1000 ∧ n.ram.tailSeq = 1002 ∧
    ¬ WindowSound Crc32.ieee twoSlots foreignImage := by
  intro n
  have hhead : n.ram.headSeq = 1000 ∧ n.ram.tailSeq = 1002 := by decide +kernel
  refine ⟨by decide +kernel, by decide +kernel, by decide +kernel, hhead.1, hhead.2, fun h => ?_⟩
  -- without the foreign slot the window starts at 0
  have hclear : (boot twoSlots
      (clearRejected Crc32.ieee twoSlots foreignImage)).2.ram.headSeq = 0 := by decide +kernel
  have hmoved := congrArg Spool.headSeq h.unmoved
  rw [hclear, hhead.1] at hmoved
  exact absurd hmoved (by decide)

end Foreign

end IotcDemos
