import IotcDemos.Gateway.Spool

set_option autoImplicit false

/-! # Slots of the spool on the disk

What a slot holds, read the two ways `spool.c` reads it: `spool_init` looks at the header only
(`RecHdr.counts`), `spool_peek` at the whole slot (`acceptable`). `recordAt` is the string
`spool_peek` returns for a sequence number. The lemmas say what a slot write of `spool_push` and
a cleared header do to the slot written and to every other slot.
-/

namespace IotcDemos

/-! ## Headers -/

theorem RecHdr.toBytes_length (h : RecHdr) : h.toBytes.length = 16 := rfl

/-- A header reads back as it was written. -/
theorem RecHdr.ofBytes_toBytes (h : RecHdr) (r : Bytes) : RecHdr.ofBytes (h.toBytes ++ r) = h := by
  obtain ⟨magic, seq, len, rsvd, crc⟩ := h
  simp only [RecHdr.ofBytes, RecHdr.mk.injEq]
  exact ⟨le32At_eq rfl rfl rfl rfl, le32At_eq rfl rfl rfl rfl, le16At_eq rfl rfl,
    le16At_eq rfl rfl, le32At_eq rfl rfl rfl rfl⟩

/-- The header lies in the first 16 bytes. -/
theorem RecHdr.ofBytes_congr {a b : Bytes} (h : ∀ i, i < 16 → byteAt a i = byteAt b i) :
    RecHdr.ofBytes a = RecHdr.ofBytes b := by
  simp only [RecHdr.ofBytes, RecHdr.mk.injEq]
  exact ⟨le32At_congr fun j hj => h _ (by omega), le32At_congr fun j hj => h _ (by omega),
    le16At_congr fun j hj => h _ (by omega), le16At_congr fun j hj => h _ (by omega),
    le32At_congr fun j hj => h _ (by omega)⟩

theorem spoolPayloadMax_eq : spoolPayloadMax = 1519 := rfl

theorem slotBytes_eq : slotBytes = 1536 := rfl

theorem slotImage_length {h : RecHdr} {json : Bytes} (hj : json.length ≤ spoolPayloadMax) :
    (slotImage h json).length = 512 * spoolSlotSectors := by
  have hmax := spoolPayloadMax_eq
  rw [slotImage, List.length_append, List.length_append, h.toBytes_length,
    List.length_replicate, slotBytes_eq]
  show 16 + json.length + (1536 - 16 - json.length) = 512 * 3
  omega

theorem ofBytes_slotImage (h : RecHdr) (json : Bytes) :
    RecHdr.ofBytes (slotImage h json) = h := by
  rw [slotImage, List.append_assoc, RecHdr.ofBytes_toBytes]

theorem slotPayload_slotImage (h : RecHdr) (json : Bytes) :
    slotPayload (slotImage h json) json.length = json := by
  rw [slotPayload, slotImage, List.append_assoc,
    List.drop_append_of_le_length (by rw [h.toBytes_length]),
    List.drop_of_length_le (by rw [h.toBytes_length]), List.nil_append, List.take_left']
  rfl

section Slots

variable (crc32Ieee : Bytes → UInt32) (c : SpoolConfig)

@[simp] theorem pushHdr_seq (seq : UInt32) (json : Bytes) :
    (pushHdr crc32Ieee seq json).seq = seq := rfl

theorem pushHdr_len (seq : UInt32) {json : Bytes} (hj : json.length ≤ spoolPayloadMax) :
    (pushHdr crc32Ieee seq json).len.toNat = json.length := by
  have hmax := spoolPayloadMax_eq
  show (UInt16.ofNat json.length).toNat = json.length
  rw [UInt16.toNat_ofNat', Nat.mod_eq_of_lt (by omega)]

/-! ## Places -/

theorem slotSector_eq {i : ℕ} (hi : i < c.nslots) : slotSector c i = c.baseSector + i * 3 := by
  have hfits := c.fits
  have h3 : spoolSlotSectors = 3 := rfl
  rw [slotSector, h3]
  rw [h3] at hfits
  exact Nat.mod_eq_of_lt (by omega)

/-- The slot a sequence number belongs to. -/
def slotIdx (seq : UInt32) : ℕ := seq.toNat % c.nslots

theorem slotIdx_lt (seq : UInt32) : slotIdx c seq < c.nslots := Nat.mod_lt _ c.pos

theorem slotOf_eq (seq : UInt32) : slotOf c seq = slotSector c (slotIdx c seq) := rfl

/-- Different slots have no sector in common. -/
theorem slotSector_disjoint {i j : ℕ} (hi : i < c.nslots) (hj : j < c.nslots) (hne : i ≠ j) :
    slotSector c j + 3 ≤ slotSector c i ∨ slotSector c i + 3 ≤ slotSector c j := by
  rw [slotSector_eq c hi, slotSector_eq c hj]
  omega

/-- The bytes of slot `i`. -/
def slotBuf (d : Disk) (i : ℕ) : Bytes := d.read (slotSector c i) spoolSlotSectors

/-- The header of slot `i`. -/
def hdrAt (d : Disk) (i : ℕ) : RecHdr := RecHdr.ofBytes (slotBuf c d i)

/-- The operation that last wrote the header of slot `i`. -/
def stampAt (d : Disk) (i : ℕ) : ℕ := (d.cell (slotSector c i)).stamp

/-- What `spool_peek` returns for `seq`, given a buffer that is large enough. -/
def recordAt (d : Disk) (seq : UInt32) : Option Bytes :=
  let buf := slotBuf c d (slotIdx c seq)
  if acceptable crc32Ieee buf seq (spoolPayloadMax + 1) then
    some (slotPayload buf (RecHdr.ofBytes buf).len.toNat)
  else none

/-- The header is read alike from the first sector and from the whole slot. -/
theorem ofBytes_read (d : Disk) (start count : ℕ) (hc : 0 < count) :
    RecHdr.ofBytes (d.read start count) = RecHdr.ofBytes (d.cell start).sector.bytes :=
  RecHdr.ofBytes_congr fun i hi => Disk.byteAt_read hc (by omega)

theorem hdrAt_eq (d : Disk) (i : ℕ) :
    hdrAt c d i = RecHdr.ofBytes (d.cell (slotSector c i)).sector.bytes :=
  ofBytes_read d _ _ (by decide)

theorem readHdr_reliable (d : Disk) (i : ℕ) :
    readHdr Disk.reliable (slotSector c i) d = (.ok (hdrAt c d i), d) := by
  show (Except.ok (RecHdr.ofBytes (d.read (slotSector c i) 1)), d) = _
  rw [ofBytes_read d _ _ (by decide), hdrAt_eq]

/-! ## What an acceptable slot is -/

theorem acceptable_iff (buf : Bytes) (seq : UInt32) (bufSize : ℕ) :
    acceptable crc32Ieee buf seq bufSize = true ↔
      (RecHdr.ofBytes buf).magic = recMagic ∧ (RecHdr.ofBytes buf).seq = seq ∧
      (RecHdr.ofBytes buf).len.toNat ≤ spoolPayloadMax ∧ (RecHdr.ofBytes buf).len.toNat < bufSize ∧
      crc32Ieee (slotPayload buf (RecHdr.ofBytes buf).len.toNat) = (RecHdr.ofBytes buf).crc := by
  simp only [acceptable, Bool.not_eq_true', Bool.or_eq_false_iff, bne_eq_false_iff_eq,
    decide_eq_false_iff_not, Nat.not_lt, ge_iff_le, Nat.not_le, gt_iff_lt]
  tauto

theorem counts_iff (h : RecHdr) :
    h.counts = true ↔ h.magic = recMagic ∧ h.len.toNat ≤ spoolPayloadMax := by
  simp [RecHdr.counts]

/-- A slot `spool_peek` accepts passes the test of the recovery scan. -/
theorem counts_of_acceptable {d : Disk} {i bufSize : ℕ} {seq : UInt32}
    (h : acceptable crc32Ieee (slotBuf c d i) seq bufSize = true) :
    (hdrAt c d i).counts = true ∧ (hdrAt c d i).seq = seq := by
  obtain ⟨hm, hs, hl, -, -⟩ := (acceptable_iff crc32Ieee _ _ _).mp h
  exact ⟨(counts_iff _).mpr ⟨hm, hl⟩, hs⟩

theorem recordAt_eq_some {d : Disk} {seq : UInt32} {b : Bytes} :
    recordAt crc32Ieee c d seq = some b ↔
      acceptable crc32Ieee (slotBuf c d (slotIdx c seq)) seq (spoolPayloadMax + 1) = true ∧
      slotPayload (slotBuf c d (slotIdx c seq)) (hdrAt c d (slotIdx c seq)).len.toNat = b := by
  unfold recordAt
  simp only [Option.ite_none_right_eq_some, Option.some.injEq]
  rfl

theorem recordAt_length {d : Disk} {seq : UInt32} {b : Bytes}
    (h : recordAt crc32Ieee c d seq = some b) :
    b.length = (hdrAt c d (slotIdx c seq)).len.toNat ∧ b.length ≤ spoolPayloadMax := by
  obtain ⟨hacc, rfl⟩ := (recordAt_eq_some crc32Ieee c).mp h
  obtain ⟨-, -, hl, -, -⟩ := (acceptable_iff crc32Ieee _ _ _).mp hacc
  have hmax := spoolPayloadMax_eq
  have hlen : (slotPayload (slotBuf c d (slotIdx c seq))
      (hdrAt c d (slotIdx c seq)).len.toNat).length = (hdrAt c d (slotIdx c seq)).len.toNat := by
    rw [slotPayload, List.length_take, List.length_drop, slotBuf, Disk.read_length]
    show min _ (512 * 3 - 16) = _
    have : (hdrAt c d (slotIdx c seq)).len.toNat ≤ spoolPayloadMax := hl
    omega
  rw [hlen]
  exact ⟨rfl, hl⟩

/-! ## Writes -/

/-- A write inside slot `i` leaves every other slot alone. -/
theorem writeSel_cell_of_ne {i j k : ℕ} (sel : ℕ → Bool) (buf : Bytes) (d : Disk) {count : ℕ}
    (hcount : count ≤ 3) (hi : i < c.nslots) (hj : j < c.nslots) (hne : i ≠ j) (hk : k < 3) :
    (d.writeSel sel buf (slotSector c i) count).cell (slotSector c j + k)
      = d.cell (slotSector c j + k) := by
  apply Disk.writeSel_cell_other
  have := slotSector_disjoint c hi hj hne
  omega

theorem slotBuf_of_ne {i j : ℕ} (sel : ℕ → Bool) (buf : Bytes) (d : Disk) {count : ℕ}
    (hcount : count ≤ 3) (hi : i < c.nslots) (hj : j < c.nslots) (hne : i ≠ j) :
    slotBuf c (d.writeSel sel buf (slotSector c i) count) j = slotBuf c d j :=
  Disk.read_congr fun _ hk => writeSel_cell_of_ne c sel buf d hcount hi hj hne hk

theorem hdrAt_of_ne {i j : ℕ} (sel : ℕ → Bool) (buf : Bytes) (d : Disk) {count : ℕ}
    (hcount : count ≤ 3) (hi : i < c.nslots) (hj : j < c.nslots) (hne : i ≠ j) :
    hdrAt c (d.writeSel sel buf (slotSector c i) count) j = hdrAt c d j := by
  rw [hdrAt, slotBuf_of_ne c sel buf d hcount hi hj hne, hdrAt]

theorem stampAt_of_ne {i j : ℕ} (sel : ℕ → Bool) (buf : Bytes) (d : Disk) {count : ℕ}
    (hcount : count ≤ 3) (hi : i < c.nslots) (hj : j < c.nslots) (hne : i ≠ j) :
    stampAt c (d.writeSel sel buf (slotSector c i) count) j = stampAt c d j := by
  have := writeSel_cell_of_ne c sel buf d hcount hi hj hne (k := 0) (by omega)
  rw [Nat.add_zero] at this
  rw [stampAt, this, stampAt]

theorem recordAt_of_ne {i : ℕ} {seq : UInt32} (sel : ℕ → Bool) (buf : Bytes) (d : Disk)
    {count : ℕ} (hcount : count ≤ 3) (hi : i < c.nslots) (hne : i ≠ slotIdx c seq) :
    recordAt crc32Ieee c (d.writeSel sel buf (slotSector c i) count) seq
      = recordAt crc32Ieee c d seq := by
  rw [recordAt, slotBuf_of_ne c sel buf d hcount hi (slotIdx_lt c seq) hne, recordAt]

/-- The disk after `spool_push` has written the string `json` at `seq`. -/
def pushed (seq : UInt32) (json : Bytes) (d : Disk) : Disk :=
  d.writeSel (fun _ => true) (slotImage (pushHdr crc32Ieee seq json) json) (slotOf c seq)
    spoolSlotSectors

@[simp] theorem pushed_clock (seq : UInt32) (json : Bytes) (d : Disk) :
    (pushed crc32Ieee c seq json d).clock = d.clock := rfl

theorem slotBuf_pushed (seq : UInt32) {json : Bytes} (d : Disk)
    (hj : json.length ≤ spoolPayloadMax) :
    slotBuf c (pushed crc32Ieee c seq json d) (slotIdx c seq)
      = slotImage (pushHdr crc32Ieee seq json) json :=
  Disk.read_writeSel_all _ _ _ _ (slotImage_length hj)

theorem hdrAt_pushed {seq : UInt32} {json : Bytes} (d : Disk)
    (hj : json.length ≤ spoolPayloadMax) :
    hdrAt c (pushed crc32Ieee c seq json d) (slotIdx c seq) = pushHdr crc32Ieee seq json := by
  rw [hdrAt, slotBuf_pushed crc32Ieee c seq d hj, ofBytes_slotImage]

theorem stampAt_pushed (seq : UInt32) (json : Bytes) (d : Disk) :
    stampAt c (pushed crc32Ieee c seq json d) (slotIdx c seq) = d.clock := by
  have := Disk.writeSel_cell_sel (fun _ => true) (slotImage (pushHdr crc32Ieee seq json) json)
    (slotOf c seq) d (show 0 < spoolSlotSectors by decide) rfl
  rw [Nat.add_zero] at this
  rw [stampAt, ← slotOf_eq, pushed, this]

/-- What `spool_push` wrote is what `spool_peek` returns. -/
theorem recordAt_pushed {seq : UInt32} {json : Bytes} (d : Disk)
    (hj : json.length ≤ spoolPayloadMax) :
    recordAt crc32Ieee c (pushed crc32Ieee c seq json d) seq = some json := by
  have hbuf := slotBuf_pushed crc32Ieee c seq d hj
  have hof : RecHdr.ofBytes (slotBuf c (pushed crc32Ieee c seq json d) (slotIdx c seq))
      = pushHdr crc32Ieee seq json := hdrAt_pushed crc32Ieee c d hj
  have hlen := pushHdr_len crc32Ieee seq hj
  have hpay : slotPayload (slotBuf c (pushed crc32Ieee c seq json d) (slotIdx c seq))
      (pushHdr crc32Ieee seq json).len.toNat = json := by
    rw [hbuf, hlen, slotPayload_slotImage]
  refine (recordAt_eq_some crc32Ieee c).mpr ⟨?_, ?_⟩
  · rw [acceptable_iff, hof, hpay]
    exact ⟨rfl, rfl, by omega, by omega, rfl⟩
  · rw [hdrAt, hof, hpay]

/-- The disk after the header of slot `i` has been cleared. -/
def blanked (i : ℕ) (d : Disk) : Disk :=
  d.writeSel (fun _ => true) blankSector (slotSector c i) 1

@[simp] theorem blanked_clock (i : ℕ) (d : Disk) : (blanked c i d).clock = d.clock := rfl

/-- A cleared sector that reaches the disk clears the header. -/
theorem hdrAt_cleared {sel : ℕ → Bool} (hsel : sel 0 = true) (i : ℕ) (d : Disk) :
    hdrAt c (d.writeSel sel blankSector (slotSector c i) 1) i = RecHdr.ofBytes blankSector := by
  have hcell := Disk.writeSel_cell_sel sel blankSector (slotSector c i) d (show 0 < 1 by decide)
    hsel
  rw [Nat.add_zero] at hcell
  rw [hdrAt_eq, hcell]
  show RecHdr.ofBytes (Sector.ofBytes (blankSector.drop 0)).bytes = _
  have hlen : blankSector.length = 512 := List.length_replicate
  rw [List.drop_zero, Sector.ofBytes_bytes (by omega), ← hlen, List.take_length]

theorem hdrAt_blanked (i : ℕ) (d : Disk) :
    hdrAt c (blanked c i d) i = RecHdr.ofBytes blankSector := hdrAt_cleared c rfl i d

theorem blank_counts : (RecHdr.ofBytes blankSector).counts = false := by
  decide +kernel

/-- A slot with a cleared header counts for nothing. -/
theorem counts_blanked (i : ℕ) (d : Disk) : (hdrAt c (blanked c i d) i).counts = false := by
  rw [hdrAt_blanked, blank_counts]

end Slots

end IotcDemos
