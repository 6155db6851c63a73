import IotcDemos.Gateway.Drain

set_option autoImplicit false

/-! # What power cuts leave on the disk

A power cut can stop the three-sector slot write of `spool_push` after any subset of the sectors.
`tornPush` is the disk then. `Shelved` is what stays true of the headers that count at recovery,
whatever has been torn: each lies in its own slot, within `NSLOTS` of the tail, and was written
for a record offered to the spool; records offered later have the greater sequence numbers.
A reboot finds all of them in its window (`Shelved.boot`).
-/

namespace IotcDemos

section Shelf

variable (crc32Ieee : Bytes → UInt32) (c : SpoolConfig)

/-- The disk after a write of `json` at `seq` that reached only the sectors `sel` of the slot. -/
def tornPush (sel : ℕ → Bool) (seq : UInt32) (json : Bytes) (d : Disk) : Disk :=
  d.writeSel sel (slotImage (pushHdr crc32Ieee seq json) json) (slotOf c seq) spoolSlotSectors

/-- The checksum tells the payload in slot `i` from the record its header was written for, when
they differ; `offered` lists the records with the operations that wrote them. -/
def Detected (offered : List Entry) (d : Disk) (i : ℕ) : Prop :=
  (hdrAt c d i).counts = true → ∀ e ∈ offered, e.1 = stampAt c d i →
    crc32Ieee (slotPayload (slotBuf c d i) (hdrAt c d i).len.toNat) = crc32Ieee e.2 →
      slotPayload (slotBuf c d i) (hdrAt c d i).len.toNat = e.2

instance (offered : List Entry) (d : Disk) (i : ℕ) :
    Decidable (Detected crc32Ieee c offered d i) :=
  inferInstanceAs (Decidable (_ → _))

/-- The header of slot `i` was written for the string `v`. -/
structure WrittenFor (d : Disk) (i : ℕ) (v : Bytes) : Prop where
  short : v.length ≤ spoolPayloadMax
  hdr : hdrAt c d i = pushHdr crc32Ieee (hdrAt c d i).seq v
  detected : crc32Ieee (slotPayload (slotBuf c d i) (hdrAt c d i).len.toNat) = crc32Ieee v →
    slotPayload (slotBuf c d i) (hdrAt c d i).len.toNat = v

/-- The headers that count, below the tail `tail`, are those of records offered. -/
structure Shelved (tail : ℕ) (offered : List Entry) (d : Disk) : Prop where
  placed : ∀ i, i < c.nslots → (hdrAt c d i).counts = true →
    (hdrAt c d i).seq.toNat % c.nslots = i ∧ (hdrAt c d i).seq.toNat < tail ∧
      tail ≤ (hdrAt c d i).seq.toNat + c.nslots
  written : ∀ i, i < c.nslots → (hdrAt c d i).counts = true →
    ∃ v, (stampAt c d i, v) ∈ offered ∧ WrittenFor crc32Ieee c d i v
  ordered : ∀ i j, i < c.nslots → j < c.nslots → (hdrAt c d i).counts = true →
    (hdrAt c d j).counts = true → (hdrAt c d i).seq.toNat < (hdrAt c d j).seq.toNat →
      stampAt c d i < stampAt c d j
  queue : offered.Pairwise fun e e' => e.1 < e'.1
  past : ∀ e ∈ offered, e.1 ≤ d.clock

/-! ## A torn slot -/

@[simp] theorem tornPush_clock (sel : ℕ → Bool) (seq : UInt32) (json : Bytes) (d : Disk) :
    (tornPush crc32Ieee c sel seq json d).clock = d.clock := rfl

/-- The first sector got through: the slot has the new header and the new stamp. -/
theorem tornPush_new {sel : ℕ → Bool} (hsel : sel 0 = true) {seq : UInt32} {json : Bytes}
    (hj : json.length ≤ spoolPayloadMax) (d : Disk) :
    hdrAt c (tornPush crc32Ieee c sel seq json d) (slotIdx c seq) = pushHdr crc32Ieee seq json ∧
      stampAt c (tornPush crc32Ieee c sel seq json d) (slotIdx c seq) = d.clock := by
  have hcell := Disk.writeSel_cell_sel sel (slotImage (pushHdr crc32Ieee seq json) json)
    (slotOf c seq) d (show 0 < spoolSlotSectors by decide) hsel
  rw [Nat.add_zero] at hcell
  constructor
  · have hlong : 512 ≤ (slotImage (pushHdr crc32Ieee seq json) json).length := by
      rw [slotImage_length hj]
      decide
    have hhdr : RecHdr.ofBytes ((slotImage (pushHdr crc32Ieee seq json) json).take 512)
        = pushHdr crc32Ieee seq json := by
      conv_rhs => rw [← ofBytes_slotImage (pushHdr crc32Ieee seq json) json]
      refine RecHdr.ofBytes_congr fun i hi => ?_
      rw [byteAt, byteAt, List.getD_eq_getElem?_getD, List.getElem?_take_of_lt (by omega),
        List.getD_eq_getElem?_getD]
    rw [hdrAt_eq, ← slotOf_eq, tornPush, hcell, List.drop_zero, Sector.ofBytes_bytes hlong, hhdr]
  · rw [stampAt, ← slotOf_eq, tornPush, hcell]

/-- The first sector did not get through: the slot has its old header and stamp. -/
theorem tornPush_old {sel : ℕ → Bool} (hsel : sel 0 = false) (seq : UInt32) (json : Bytes)
    (d : Disk) :
    hdrAt c (tornPush crc32Ieee c sel seq json d) (slotIdx c seq) = hdrAt c d (slotIdx c seq) ∧
      stampAt c (tornPush crc32Ieee c sel seq json d) (slotIdx c seq)
        = stampAt c d (slotIdx c seq) := by
  have hcell : (d.writeSel sel (slotImage (pushHdr crc32Ieee seq json) json) (slotOf c seq)
      spoolSlotSectors).cell (slotOf c seq + 0) = d.cell (slotOf c seq + 0) :=
    Disk.writeSel_cell_unsel _ d hsel
  rw [Nat.add_zero] at hcell
  constructor
  · rw [hdrAt_eq, ← slotOf_eq, tornPush, hcell, hdrAt_eq, slotOf_eq]
  · rw [stampAt, ← slotOf_eq, tornPush, hcell, stampAt, slotOf_eq]

/-- Every other slot is as it was. -/
theorem tornPush_other (sel : ℕ → Bool) {seq : UInt32} (json : Bytes) (d : Disk) {i : ℕ}
    (hi : i < c.nslots) (hne : slotIdx c seq ≠ i) :
    hdrAt c (tornPush crc32Ieee c sel seq json d) i = hdrAt c d i ∧
      stampAt c (tornPush crc32Ieee c sel seq json d) i = stampAt c d i ∧
      slotBuf c (tornPush crc32Ieee c sel seq json d) i = slotBuf c d i := by
  rw [tornPush, slotOf_eq]
  exact ⟨hdrAt_of_ne c _ _ _ (by decide) (slotIdx_lt c seq) hi hne,
    stampAt_of_ne c _ _ _ (by decide) (slotIdx_lt c seq) hi hne,
    slotBuf_of_ne c _ _ _ (by decide) (slotIdx_lt c seq) hi hne⟩

variable {crc32Ieee c}

/-- What `spool_peek` finds elsewhere is as it was. -/
theorem Held.tornPush {sel : ℕ → Bool} {seq tail : UInt32} {json : Bytes} {d : Disk} {e : Entry}
    (h : Held crc32Ieee c d seq e) (hne : slotIdx c tail ≠ slotIdx c seq) :
    Held crc32Ieee c (tornPush crc32Ieee c sel tail json d) seq e := by
  obtain ⟨-, hstamp, hbuf⟩ := tornPush_other crc32Ieee c sel json d (slotIdx_lt c seq) hne
  unfold Held recordAt
  rw [hbuf, hstamp]
  exact h

/-! ## The shelf -/

theorem WrittenFor.congr {d d' : Disk} {i : ℕ} {v : Bytes} (h : WrittenFor crc32Ieee c d i v)
    (hhdr : hdrAt c d' i = hdrAt c d i) (hbuf : slotBuf c d' i = slotBuf c d i) :
    WrittenFor crc32Ieee c d' i v := by
  refine ⟨h.short, ?_, ?_⟩
  · rw [hhdr]
    exact h.hdr
  · rw [hhdr, hbuf]
    exact h.detected

section Step

variable {tail : ℕ} {offered : List Entry} {d : Disk}

/-- A slot that is as it was holds what it held. -/
theorem Shelved.written_congr {d' : Disk} (h : Shelved crc32Ieee c tail offered d) {i : ℕ}
    (hsame : hdrAt c d' i = hdrAt c d i ∧ stampAt c d' i = stampAt c d i ∧
      slotBuf c d' i = slotBuf c d i) (hi : i < c.nslots) (hc : (hdrAt c d' i).counts = true) :
    ∃ v, (stampAt c d' i, v) ∈ offered ∧ WrittenFor crc32Ieee c d' i v := by
  obtain ⟨hhdr, hstamp, hbuf⟩ := hsame
  rw [hhdr] at hc
  obtain ⟨v, hmem, hv⟩ := h.written i hi hc
  exact ⟨v, by rwa [hstamp], hv.congr hhdr hbuf⟩

theorem Shelved.tick (h : Shelved crc32Ieee c tail offered d) :
    Shelved crc32Ieee c tail offered d.tick :=
  ⟨h.placed, fun _ hi hc => h.written_congr ⟨rfl, rfl, rfl⟩ hi hc, h.ordered, h.queue,
    fun e he => Nat.le_succ_of_le (h.past e he)⟩

/-- What `spool_peek` finds was offered, byte for byte, by the push that wrote the header. -/
theorem Shelved.held_offered (h : Shelved crc32Ieee c tail offered d) {seq : UInt32} {e : Entry}
    (hheld : Held crc32Ieee c d seq e) : e ∈ offered := by
  obtain ⟨hrec, hstamp⟩ := hheld
  obtain ⟨hacc, hpay⟩ := (recordAt_eq_some crc32Ieee c).mp hrec
  obtain ⟨-, -, -, -, hcrc⟩ := (acceptable_iff crc32Ieee _ _ _).mp hacc
  obtain ⟨v, hmem, hv⟩ := h.written _ (slotIdx_lt c seq) (counts_of_acceptable crc32Ieee c hacc).1
  have hhdrCrc : (hdrAt c d (slotIdx c seq)).crc = crc32Ieee v := by
    rw [hv.hdr]
    rfl
  have hsame := hv.detected (hcrc.trans hhdrCrc)
  rw [hpay] at hsame
  rw [hstamp, ← hsame] at hmem
  exact hmem

/-- A record is offered; nothing is written. -/
theorem Shelved.offer (h : Shelved crc32Ieee c tail offered d) (json : Bytes)
    (hnew : ∀ e ∈ offered, e.1 < d.clock) :
    Shelved crc32Ieee c tail (offered ++ [(d.clock, json)]) d := by
  refine ⟨h.placed, ?_, h.ordered, ?_, ?_⟩
  · intro i hi hc
    obtain ⟨v, hmem, hv⟩ := h.written i hi hc
    exact ⟨v, List.mem_append_left _ hmem, hv⟩
  · refine List.pairwise_append.mpr ⟨h.queue, List.pairwise_singleton _ _, ?_⟩
    intro e he e' he'
    rw [List.mem_singleton.mp he']
    exact hnew e he
  · intro e he
    rcases List.mem_append.mp he with he | he
    · exact h.past e he
    · rw [List.mem_singleton.mp he]

/-- A disk on which the headers that still count are the old ones. -/
theorem Shelved.kept {d' : Disk} (h : Shelved crc32Ieee c tail offered d)
    (hclock : d'.clock = d.clock)
    (hsame : ∀ i, i < c.nslots → (hdrAt c d' i).counts = true →
      hdrAt c d' i = hdrAt c d i ∧ stampAt c d' i = stampAt c d i)
    (hwritten : ∀ i, i < c.nslots → (hdrAt c d' i).counts = true →
      ∃ v, (stampAt c d' i, v) ∈ offered ∧ WrittenFor crc32Ieee c d' i v) :
    Shelved crc32Ieee c tail offered d' := by
  refine ⟨?_, hwritten, ?_, h.queue, ?_⟩
  · intro i hi hc
    obtain ⟨hhdr, -⟩ := hsame i hi hc
    rw [hhdr] at hc ⊢
    exact h.placed i hi hc
  · intro i j hi hj hci hcj hlt
    obtain ⟨hhdr, hstamp⟩ := hsame i hi hci
    obtain ⟨hhdr', hstamp'⟩ := hsame j hj hcj
    rw [hhdr] at hci hlt
    rw [hhdr'] at hcj hlt
    rw [hstamp, hstamp']
    exact h.ordered i j hi hj hci hcj hlt
  · rw [hclock]
    exact h.past

/-- A disk on which the slot of the tail has a new header, later than the others. -/
theorem Shelved.added {d' : Disk} {seq : UInt32} (h : Shelved crc32Ieee c seq.toNat offered d)
    (hclock : d'.clock = d.clock) (hseq : (hdrAt c d' (slotIdx c seq)).seq = seq)
    (hnew : stampAt c d' (slotIdx c seq) = d.clock)
    (hearlier : ∀ i, i < c.nslots → (hdrAt c d i).counts = true → stampAt c d i < d.clock)
    (hother : ∀ i, i < c.nslots → slotIdx c seq ≠ i →
      hdrAt c d' i = hdrAt c d i ∧ stampAt c d' i = stampAt c d i)
    (hwritten : ∀ i, i < c.nslots → (hdrAt c d' i).counts = true →
      ∃ v, (stampAt c d' i, v) ∈ offered ∧ WrittenFor crc32Ieee c d' i v) :
    Shelved crc32Ieee c (seq.toNat + 1) offered d' := by
  refine ⟨?_, hwritten, ?_, h.queue, ?_⟩
  · intro i hi hc
    by_cases hslot : slotIdx c seq = i
    · subst hslot
      have hpos := c.pos
      rw [hseq]
      exact ⟨rfl, Nat.lt_succ_self _, by omega⟩
    · obtain ⟨hsame, -⟩ := hother _ hi hslot
      rw [hsame] at hc ⊢
      obtain ⟨hplace, hlow, hhigh⟩ := h.placed i hi hc
      -- the header that would fall out of reach is in the slot written
      have hne : seq.toNat ≠ (hdrAt c d i).seq.toNat + c.nslots := by
        intro he
        rw [slotIdx, he, Nat.add_mod_right] at hslot
        exact hslot hplace
      exact ⟨hplace, Nat.lt_succ_of_lt hlow, by omega⟩
  · intro i j hi hj hci hcj hlt
    by_cases hsi : slotIdx c seq = i
    · -- no header lies above the new one
      subst hsi
      rw [hseq] at hlt
      have hsj : slotIdx c seq ≠ j := by
        rintro rfl
        rw [hseq] at hlt
        omega
      obtain ⟨hsame, -⟩ := hother _ hj hsj
      rw [hsame] at hcj hlt
      have := (h.placed j hj hcj).2.1
      omega
    · obtain ⟨hsame, hkeep⟩ := hother _ hi hsi
      rw [hsame] at hci hlt
      rw [hkeep]
      by_cases hsj : slotIdx c seq = j
      · subst hsj
        rw [hnew]
        exact hearlier i hi hci
      · obtain ⟨hsame', hkeep'⟩ := hother _ hj hsj
        rw [hsame'] at hcj hlt
        rw [hkeep']
        exact h.ordered i j hi hj hci hcj hlt
  · rw [hclock]
    exact h.past

/-- **A slot write, torn or not.** The tail moves on if the new header reached the disk. -/
theorem Shelved.tornPush {sel : ℕ → Bool} {seq : UInt32} {json : Bytes}
    (h : Shelved crc32Ieee c seq.toNat offered d) (hnew : ∀ e ∈ offered, e.1 < d.clock)
    (hj : json.length ≤ spoolPayloadMax)
    (hdet : Detected crc32Ieee c (offered ++ [(d.clock, json)])
      (tornPush crc32Ieee c sel seq json d) (slotIdx c seq)) :
    Shelved crc32Ieee c (if sel 0 then seq.toNat + 1 else seq.toNat)
      (offered ++ [(d.clock, json)]) (tornPush crc32Ieee c sel seq json d) := by
  have hoffer := h.offer json hnew
  have hother : ∀ i, i < c.nslots → slotIdx c seq ≠ i →
      hdrAt c (IotcDemos.tornPush crc32Ieee c sel seq json d) i = hdrAt c d i ∧
        stampAt c (IotcDemos.tornPush crc32Ieee c sel seq json d) i = stampAt c d i ∧
          slotBuf c (IotcDemos.tornPush crc32Ieee c sel seq json d) i = slotBuf c d i :=
    fun i hi hne => tornPush_other crc32Ieee c sel json d hi hne
  cases hsel : sel 0 with
  | true =>
      obtain ⟨hhdr, hclock⟩ := tornPush_new crc32Ieee c hsel hj d
      have hearlier : ∀ i, i < c.nslots → (hdrAt c d i).counts = true →
          stampAt c d i < d.clock := by
        intro i hi hc
        obtain ⟨v, hmem, -⟩ := h.written i hi hc
        exact hnew _ hmem
      have hkept : ∀ i, i < c.nslots → slotIdx c seq ≠ i →
          hdrAt c (IotcDemos.tornPush crc32Ieee c sel seq json d) i = hdrAt c d i ∧
            stampAt c (IotcDemos.tornPush crc32Ieee c sel seq json d) i = stampAt c d i := by
        intro i hi hne
        obtain ⟨hsame, hkeep, -⟩ := hother i hi hne
        exact ⟨hsame, hkeep⟩
      refine hoffer.added rfl (by rw [hhdr, pushHdr_seq]) hclock hearlier hkept ?_
      intro i hi hc
      by_cases hslot : slotIdx c seq = i
      · subst hslot
        refine ⟨json, ?_, hj, ?_, ?_⟩
        · rw [hclock]
          exact List.mem_append_right _ (List.mem_singleton.mpr rfl)
        · rw [hhdr, pushHdr_seq]
        · exact hdet hc _ (List.mem_append_right _ (List.mem_singleton.mpr rfl)) hclock.symm
      · exact hoffer.written_congr (hother _ hi hslot) hi hc
  | false =>
      obtain ⟨hhdr, hclock⟩ := tornPush_old crc32Ieee c hsel seq json d
      refine hoffer.kept rfl ?_ ?_
      · intro i hi _
        by_cases hslot : slotIdx c seq = i
        · subst hslot
          exact ⟨hhdr, hclock⟩
        · obtain ⟨hsame, hkeep, -⟩ := hother _ hi hslot
          exact ⟨hsame, hkeep⟩
      · intro i hi hc
        by_cases hslot : slotIdx c seq = i
        · -- the old header, possibly in front of a new payload
          subst hslot
          have hcOld := hc
          rw [hhdr] at hcOld
          obtain ⟨v, hmem, hv⟩ := hoffer.written _ hi hcOld
          refine ⟨v, by rwa [hclock], hv.short, ?_, ?_⟩
          · rw [hhdr]
            exact hv.hdr
          · exact hdet hc _ hmem hclock.symm
        · exact hoffer.written_congr (hother _ hi hslot) hi hc

/-- A completed slot write holds the record it was made for. -/
theorem detected_pushed {seq : UInt32} {json : Bytes} (hnew : ∀ e ∈ offered, e.1 < d.clock)
    (hj : json.length ≤ spoolPayloadMax) :
    Detected crc32Ieee c (offered ++ [(d.clock, json)]) (pushed crc32Ieee c seq json d)
      (slotIdx c seq) := by
  intro _ e he hstamp _
  rw [stampAt_pushed] at hstamp
  rw [slotBuf_pushed crc32Ieee c seq d hj, hdrAt_pushed crc32Ieee c d hj,
    pushHdr_len crc32Ieee seq hj, slotPayload_slotImage]
  rcases List.mem_append.mp he with he | he
  · have := hnew e he
    omega
  · rw [List.mem_singleton.mp he]

/-- A header is cleared. -/
theorem Shelved.blanked (h : Shelved crc32Ieee c tail offered d) {k : ℕ} (hk : k < c.nslots) :
    Shelved crc32Ieee c tail offered (blanked c k d) := by
  -- the headers that still count are in other slots
  have hother : ∀ i, i < c.nslots → (hdrAt c (IotcDemos.blanked c k d) i).counts = true →
      hdrAt c (IotcDemos.blanked c k d) i = hdrAt c d i ∧
        stampAt c (IotcDemos.blanked c k d) i = stampAt c d i ∧
          slotBuf c (IotcDemos.blanked c k d) i = slotBuf c d i := by
    intro i hi hc
    have hne : k ≠ i := by
      rintro rfl
      rw [counts_blanked] at hc
      cases hc
    exact ⟨hdrAt_of_ne c _ _ _ (by omega) hk hi hne, stampAt_of_ne c _ _ _ (by omega) hk hi hne,
      slotBuf_of_ne c _ _ _ (by omega) hk hi hne⟩
  refine h.kept rfl ?_ ?_
  · intro i hi hc
    obtain ⟨hsame, hkeep, -⟩ := hother i hi hc
    exact ⟨hsame, hkeep⟩
  · intro i hi hc
    exact h.written_congr (hother i hi hc) hi hc

/-! ## The reboot -/

/-- RAM as `spool_init` leaves it: a window below `tail` with every header that counts in it. -/
structure Booted (tail : ℕ) (d : Disk) (s : Spool) : Prop where
  ready : s.ready = true
  count : s.tailSeq.toNat = s.headSeq.toNat + s.recCount.toNat
  cap : s.recCount.toNat ≤ c.nslots
  early : s.tailSeq.toNat ≤ tail
  window : ∀ i, i < c.nslots → (hdrAt c d i).counts = true →
    s.headSeq.toNat ≤ (hdrAt c d i).seq.toNat ∧ (hdrAt c d i).seq.toNat < s.tailSeq.toNat

/-- **Recovery finds every header that counts.** -/
theorem Shelved.boot (h : Shelved crc32Ieee c tail offered d) (htail : tail < 2 ^ 32) :
    (boot c d).1 = (0, none) ∧ (boot c d).2.disk = d ∧
      Booted (c := c) tail d (boot c d).2.ram := by
  rw [boot_eq]
  refine ⟨rfl, rfl, ?_⟩
  rcases counts_or_none c d with hany | hnone
  · obtain ⟨hvalid, hbounds, ⟨imax, himax, hcmax, hmax⟩, ⟨imin, himin, hcmin, hmin⟩⟩ :=
      scanAll_spec c hany
    have hclamp := clampedHead_toNat c (scanAll c d)
    obtain ⟨-, hmaxlow, hmaxhigh⟩ := h.placed imax himax hcmax
    obtain ⟨-, -, hminhigh⟩ := h.placed imin himin hcmin
    have hminmax := UInt32.le_iff_toNat_le.mp (hbounds imin himin hcmin).2
    rw [hmax] at hmaxlow hmaxhigh
    rw [hmin] at hminhigh hminmax
    have hpos := c.pos
    have htailNat : ((scanAll c d).maxSeq + 1).toNat = (scanAll c d).maxSeq.toNat + 1 :=
      toNat_succ (by omega)
    -- the window from the head on does not wrap
    have hcount : ((scanAll c d).maxSeq + 1 - clampedHead c (scanAll c d)).toNat
        = (scanAll c d).maxSeq.toNat + 1 - (clampedHead c (scanAll c d)).toNat := by
      rw [UInt32.toNat_sub_of_le _ _ (UInt32.le_iff_toNat_le.mpr (by omega)), htailNat]
    rw [recover_of_valid c Spool.off hvalid]
    refine ⟨rfl, ?_, ?_, ?_, ?_⟩
    · show ((scanAll c d).maxSeq + 1).toNat = (clampedHead c (scanAll c d)).toNat + _
      rw [htailNat, hcount]
      omega
    · show ((scanAll c d).maxSeq + 1 - clampedHead c (scanAll c d)).toNat ≤ _
      omega
    · show ((scanAll c d).maxSeq + 1).toNat ≤ _
      omega
    · intro i hi hc
      obtain ⟨hlow, hhigh⟩ := hbounds i hi hc
      have hlow' := UInt32.le_iff_toNat_le.mp hlow
      have hhigh' := UInt32.le_iff_toNat_le.mp hhigh
      obtain ⟨-, -, hreach⟩ := h.placed i hi hc
      constructor
      · show (clampedHead c (scanAll c d)).toNat ≤ _
        omega
      · show _ < ((scanAll c d).maxSeq + 1).toNat
        omega
  · rw [recover_empty c _ hnone]
    refine ⟨rfl, rfl, Nat.zero_le _, Nat.zero_le _, ?_⟩
    intro i hi hc
    rw [hnone i hi] at hc
    cases hc

/-- The tail may move back to the headers that count. -/
theorem Shelved.booted {s : Spool} (h : Shelved crc32Ieee c tail offered d)
    (hb : Booted (c := c) tail d s) : Shelved crc32Ieee c s.tailSeq.toNat offered d := by
  refine ⟨?_, h.written, h.ordered, h.queue, h.past⟩
  intro i hi hc
  obtain ⟨hplace, -, hreach⟩ := h.placed i hi hc
  have hearly := hb.early
  exact ⟨hplace, (hb.window i hi hc).2, by omega⟩

end Step

end Shelf

end IotcDemos
