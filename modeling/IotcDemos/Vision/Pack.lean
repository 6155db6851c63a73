import IotcDemos.Iotm.Pack
import IotcDemos.Vision.Store

set_option autoImplicit false

/-! # The three makers of the IOTV envelope

`buildIotv` is `build_iotv` of `tools/pack_model.py`, `iotvWrapInPlace` and `iotvValidate` are the
firmware's. The packer's layout is the header that the firmware writes (`packLayout_eq`), the
firmware reads the packer's fields back, and an accepted blob has one way to be a header and a
payload (`envelope_round_trips`).
-/

namespace IotcDemos.Vision

/-! ## `build_iotv` -/

/-- A Python string, by its code points. -/
abbrev PyString := List ℕ

/-- `s.encode("ascii", errors="replace")`: one `?` for each character that is not ASCII. -/
def encodeAsciiReplace (s : PyString) : Bytes :=
  s.map fun c => if c < 128 then UInt8.ofNat c else 0x3f

/-- `MODEL_MAX` of the tool. -/
def packModelMax : ℕ := 512 * 1024 - 32

def nameLen : ℕ := 16

/-- `b"TFL3"`. -/
def tfl3 : Bytes := [0x54, 0x46, 0x4c, 0x33]

/-- `struct.pack("<4sHHII16s", ...) + payload`, with numbers that are in range. -/
def packLayout (payload : Bytes) (modelVer : ℕ) (nameB : Bytes) : Bytes :=
  iotvMagic ++ toLe16 1 ++ toLe16 (UInt16.ofNat modelVer) ++ toLe32 (UInt32.ofNat payload.length) ++
    toLe32 (Crc32.ieee payload) ++ Iotm.ljust nameLen nameB ++ payload

/-- `name.encode("ascii", errors="replace")[: NAME_LEN - 1]`. -/
def packName (name : PyString) : Bytes := (encodeAsciiReplace name).take (nameLen - 1)

/-- `build_iotv`: no result where it exits or `struct.pack` raises. -/
def buildIotv (payload : Bytes) (modelVer : ℕ) (name : PyString) : Option Bytes :=
  if payload.length > packModelMax then none
  else if (payload.drop 4).take 4 ≠ tfl3 then none
  else if modelVer < 2 ^ 16 then some (packLayout payload modelVer (packName name))
  else none

/-- The bytes of a field that a C string function sees. -/
def cString (field : Bytes) : Bytes := field.takeWhile fun b => b != 0

/-- The firmware accepts `blob` and reads the packer's arguments back. -/
structure PackedRead (payload : Bytes) (modelVer : ℕ) (name : PyString) (blob : Bytes) : Prop where
  accepted : iotvValidate (byteAt blob) blob.length = none
  modelVer : (iotvHdr (byteAt blob)).modelVer.toNat = modelVer
  modelLen : (iotvHdr (byteAt blob)).modelLen.toNat = payload.length
  body : bytesAt (byteAt blob) hdrLen payload.length = payload
  crc : (iotvHdr (byteAt blob)).crc = Crc32.ieee payload
  /-- The field holds the ASCII form of the name, cut to 15 bytes, and NULs. -/
  nameField : (iotvHdr (byteAt blob)).name = Iotm.ljust nameLen (packName name)
  /-- Printed, it is that form, for a name without NUL. -/
  nameShown : 0 ∉ name → cString (iotvHdr (byteAt blob)).name = packName name

/-- A blob is a header of 32 bytes and exactly the payload that the header states. -/
structure Splits (blob : Bytes) (p : Bytes × Bytes) : Prop where
  whole : blob = p.1 ++ p.2
  header : p.1.length = hdrLen
  body : p.2.length = (iotvHdr (byteAt p.1)).modelLen.toNat
  crc : Crc32.ieee p.2 = (iotvHdr (byteAt p.1)).crc

/-! ## The two layouts are one -/

theorem packName_length (name : PyString) : (packName name).length ≤ 15 := List.length_take_le _ _

/-- The packer's layout is the header of the firmware's wrapper, and the payload. -/
theorem packLayout_eq (payload : Bytes) (modelVer : ℕ) (name : Bytes) :
    packLayout payload modelVer (name.take 15)
      = wrapHeader payload (UInt16.ofNat modelVer) name ++ payload := by
  rw [packLayout, wrapHeader, Iotm.ljust]
  simp only [List.append_assoc]
  rfl

/-- A packed blob in memory is a wrapped one. -/
theorem wrap_packed (payload : Bytes) (modelVer : UInt16) (name : Bytes) :
    let blob := wrapHeader payload modelVer name ++ payload
    iotvWrapInPlace (byteAt blob) payload.length modelVer name = byteAt blob ∧
      bytesAt (byteAt blob) hdrLen payload.length = payload := by
  intro blob
  have hlen := wrapHeader_length payload modelVer name
  have hpayload : bytesAt (byteAt blob) hdrLen payload.length = payload := by
    rw [bytesAt_byteAt (by rw [List.length_append, hlen]), ← hlen, List.drop_left, List.take_length]
  refine ⟨?_, hpayload⟩
  funext i
  rw [iotvWrapInPlace, hpayload]
  rcases Nat.lt_or_ge i hdrLen with hlt | hge
  · have hin := patch_inside (byteAt blob) 0 (b := wrapHeader payload modelVer name) (i := i)
      (by rw [hlen]; exact hlt)
    rw [Nat.zero_add] at hin
    rw [hin, byteAt_append_left (by rw [hlen]; exact hlt)]
  · exact patch_outside (Or.inr (by rw [hlen, Nat.zero_add]; exact hge))

/-! ## Reading the packer's fields -/

/-- The version and the name in a wrapped header. -/
theorem iotvHdr_wrap_names (buf : Mem) (payloadLen : ℕ) (modelVer : UInt16) (name : Bytes) :
    (iotvHdr (iotvWrapInPlace buf payloadLen modelVer name)).modelVer = modelVer ∧
      (iotvHdr (iotvWrapInPlace buf payloadLen modelVer name)).name
        = Iotm.ljust nameLen (name.take 15) := by
  have hlen := wrapHeader_length (bytesAt buf hdrLen payloadLen) modelVer name
  have hread := fun i => iotvWrapInPlace_header buf payloadLen modelVer name (i := i)
  have h32 : hdrLen = 32 := rfl
  refine ⟨?_, ?_⟩
  · apply le16At_eq <;> rw [hread _ (by omega)] <;> rfl
  · -- the last 16 bytes of the header
    have hfixed : (wrapHeader (bytesAt buf hdrLen payloadLen) modelVer name).drop 16
        = Iotm.ljust nameLen (name.take 15) := rfl
    calc bytesAt (iotvWrapInPlace buf payloadLen modelVer name) 16 16
        = bytesAt (byteAt (wrapHeader (bytesAt buf hdrLen payloadLen) modelVer name)) 16 16 :=
          bytesAt_congr fun i _ hi => hread i (by omega)
      _ = ((wrapHeader (bytesAt buf hdrLen payloadLen) modelVer name).drop 16).take 16 :=
          bytesAt_byteAt (by omega)
      _ = (wrapHeader (bytesAt buf hdrLen payloadLen) modelVer name).drop 16 :=
          List.take_of_length_le (by rw [List.length_drop]; omega)
      _ = Iotm.ljust nameLen (name.take 15) := hfixed

/-- A NUL-padded field shows what was put in it. -/
theorem cString_ljust {b : Bytes} {n : ℕ} (h : 0 ∉ b) : cString (Iotm.ljust n b) = b := by
  rw [cString, Iotm.ljust, List.takeWhile_append_of_pos, List.takeWhile_replicate]
  · simp
  · intro x hx
    rw [bne_iff_ne]
    rintro rfl
    exact h hx

/-- The ASCII form of a name without NUL has none. -/
theorem packName_ne_nul {name : PyString} (h : 0 ∉ name) : (0 : UInt8) ∉ packName name := by
  intro hmem
  have hmem' := List.mem_of_mem_take hmem
  obtain ⟨ch, hch, hzero⟩ := List.mem_map.mp hmem'
  by_cases hlt : ch < 128
  · rw [if_pos hlt] at hzero
    have hnat := congrArg UInt8.toNat hzero
    rw [UInt8.toNat_ofNat', UInt8.toNat_zero, Nat.mod_eq_of_lt (by omega)] at hnat
    exact h (hnat ▸ hch)
  · rw [if_neg hlt] at hzero
    exact absurd hzero (by decide)

/-- **The firmware reads back what the packer packed.** -/
theorem buildIotv_read {payload : Bytes} {modelVer : ℕ} {name : PyString}
    (hpos : 0 < payload.length) (hfits : payload.length ≤ modelMaxBlob - hdrLen)
    (hver : modelVer < 2 ^ 16) :
    PackedRead payload modelVer name (packLayout payload modelVer (packName name)) := by
  have hname : (packName name).take 15 = packName name :=
    List.take_of_length_le (packName_length name)
  have hlayout := packLayout_eq payload modelVer (packName name)
  rw [hname] at hlayout
  rw [hlayout]
  obtain ⟨hwrap, hbody⟩ := wrap_packed payload (UInt16.ofNat modelVer) (packName name)
  have hlen : (wrapHeader payload (UInt16.ofNat modelVer) (packName name) ++ payload).length
      = hdrLen + payload.length := by rw [List.length_append, wrapHeader_length]
  generalize wrapHeader payload (UInt16.ofNat modelVer) (packName name) ++ payload = blob
    at hwrap hbody hlen
  have hvalid := iotvWrapInPlace_valid (byteAt blob) (UInt16.ofNat modelVer) (packName name) hpos
    hfits
  obtain ⟨-, -, hmodelLen, hcrc⟩ :=
    iotvHdr_wrap (byteAt blob) (UInt16.ofNat modelVer) (packName name) hfits
  obtain ⟨hmodelVer, hfield⟩ := iotvHdr_wrap_names (byteAt blob) payload.length
    (UInt16.ofNat modelVer) (packName name)
  rw [hwrap] at hvalid hmodelLen hcrc hmodelVer hfield
  rw [hname] at hfield
  refine ⟨?_, ?_, hmodelLen, hbody, by rw [hcrc, hbody], hfield, ?_⟩
  · rw [hlen]
    exact iotvValidate_eq_none.mpr hvalid
  · rw [hmodelVer, UInt16.toNat_ofNat', Nat.mod_eq_of_lt hver]
  · intro hnul
    rw [hfield]
    exact cString_ljust (packName_ne_nul hnul)

/-! ## One way to split a blob -/

theorem splits_of_valid {buf : Mem} {len : ℕ} (h : IotvValid buf len) :
    Splits (bytesAt buf 0 len) (bytesAt buf 0 hdrLen, bytesAt buf hdrLen (len - hdrLen)) := by
  have hlen := h.length
  have hmodelLen : len - hdrLen = (iotvHdr buf).modelLen.toNat := by omega
  have hhdr := iotvHdr_bytesAt buf
  refine ⟨?_, bytesAt_length _ _ _, ?_, ?_⟩
  · show bytesAt buf 0 len = bytesAt buf 0 hdrLen ++ bytesAt buf hdrLen (len - hdrLen)
    have happend := bytesAt_append buf 0 hdrLen (len - hdrLen)
    rw [Nat.zero_add] at happend
    rw [← happend]
    congr 1
    omega
  · show (bytesAt buf hdrLen (len - hdrLen)).length
      = (iotvHdr (byteAt (bytesAt buf 0 hdrLen))).modelLen.toNat
    rw [hhdr, bytesAt_length, hmodelLen]
  · show Crc32.ieee (bytesAt buf hdrLen (len - hdrLen))
      = (iotvHdr (byteAt (bytesAt buf 0 hdrLen))).crc
    rw [hhdr, hmodelLen, h.crc]

/-- The header is the first 32 bytes, so nothing else can be the payload. -/
theorem Splits.unique {blob : Bytes} {p q : Bytes × Bytes} (hp : Splits blob p)
    (hq : Splits blob q) : p = q := by
  have hsplit := hp.whole.symm.trans hq.whole
  obtain ⟨hhead, htail⟩ := List.append_inj hsplit (hp.header.trans hq.header.symm)
  exact Prod.ext hhead htail

/-! ## The theorem -/

/-- A payload that the packer takes: a flatbuffer of 8 bytes to the cap. -/
structure Packable (payload : Bytes) : Prop where
  long : 8 ≤ payload.length
  fits : payload.length ≤ modelMaxBlob - hdrLen
  magic : (payload.drop 4).take 4 = tfl3

/-- **The envelope round-trips across its three implementations**: what `build_iotv` makes is
accepted and read back; what `iotv_wrap_in_place` makes is accepted, leaves the payload alone and is
the packer's layout of the same fields; and an accepted blob splits in exactly one way. -/
theorem envelope_round_trips :
    (∀ (payload : Bytes) (modelVer : ℕ) (name : PyString), Packable payload → 1 ≤ modelVer →
      modelVer ≤ 65535 →
      ∃ blob, buildIotv payload modelVer name = some blob ∧
        PackedRead payload modelVer name blob) ∧
    (∀ (buf : Mem) (payloadLen : ℕ) (modelVer : UInt16) (name : Bytes), 1 ≤ payloadLen →
      payloadLen ≤ modelMaxBlob - hdrLen →
      let wrapped := iotvWrapInPlace buf payloadLen modelVer name
      (∀ i, hdrLen ≤ i → wrapped i = buf i) ∧
      iotvValidate wrapped (hdrLen + payloadLen) = none ∧
      bytesAt wrapped 0 (hdrLen + payloadLen)
        = packLayout (bytesAt buf hdrLen payloadLen) modelVer.toNat (name.take 15)) ∧
    ∀ (buf : Mem) (len : ℕ), iotvValidate buf len = none →
      ∃! p : Bytes × Bytes, Splits (bytesAt buf 0 len) p := by
  refine ⟨?_, ?_, ?_⟩
  · intro payload modelVer name h _ hver
    have hlong := h.long
    refine ⟨_, ?_, buildIotv_read (by omega) h.fits (by omega)⟩
    have hmax : ¬ payload.length > packModelMax := Nat.not_lt.mpr h.fits
    rw [buildIotv, if_neg hmax, if_neg (not_not.mpr h.magic), if_pos (by omega)]
  · intro buf payloadLen modelVer name hpos hfits wrapped
    refine ⟨fun i hi => iotvWrapInPlace_payload buf payloadLen modelVer name hi,
      iotvValidate_eq_none.mpr (iotvWrapInPlace_valid buf modelVer name hpos hfits), ?_⟩
    rw [packLayout_eq, UInt16.ofNat_toNat]
    exact bytesAt_wrap buf payloadLen modelVer name
  · intro buf len hvalid
    exact ⟨_, splits_of_valid (iotvValidate_eq_none.mp hvalid), fun q hq =>
      hq.unique (splits_of_valid (iotvValidate_eq_none.mp hvalid))⟩

/-- The smallest flatbuffer there is, under a name of 16 characters the last of which is cut. -/
theorem envelope_round_trips_smallest :
    ∃ blob, buildIotv ([0, 0, 0, 0] ++ tfl3) 1 (List.replicate 16 65) = some blob ∧
      PackedRead ([0, 0, 0, 0] ++ tfl3) 1 (List.replicate 16 65) blob :=
  envelope_round_trips.1 _ _ _ ⟨by decide, by decide, by decide⟩ (by decide) (by decide)

end IotcDemos.Vision
