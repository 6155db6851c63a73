import IotcDemos.Lib.Crc32
import IotcDemos.Lib.Errno
import IotcDemos.Zip.Walk

set_option autoImplicit false

/-! # The IOTV envelope (model_store.c)

A vision model is a header of 32 bytes, with the length and the CRC of the payload, and the payload
behind it, a `.tflite` flatbuffer. Blobs of half a megabyte lie in memory regions (`Mem`), from the
offset 0 on; a buffer is a region and a length.
-/

namespace IotcDemos.Vision

def iotvFmtVer : UInt16 := 1
def modelMaxBlob : ℕ := 512 * 1024
def flashSector : ℕ := 4096

/-- `IOTV_HDR_LEN`, as an offset. -/
def hdrLen : ℕ := iotvHdrLen.toNat

/-- `struct iotv_hdr`. -/
structure IotvHdr where
  magic : Bytes
  fmtVer : UInt16
  modelVer : UInt16
  modelLen : UInt32
  crc : UInt32
  name : Bytes

/-- The packed layout. -/
def iotvHdr (buf : Mem) : IotvHdr where
  magic := bytesAt buf 0 4
  fmtVer := le16At buf 4
  modelVer := le16At buf 6
  modelLen := le32At buf 8
  crc := le32At buf 12
  name := bytesAt buf 16 16

/-- `iotv_validate`: `none` for a well-formed blob, else the reason. -/
def iotvValidate (buf : Mem) (len : ℕ) : Option String :=
  let h := iotvHdr buf
  if len < hdrLen then some "blob shorter than header"
  else if h.magic ≠ iotvMagic then some "bad magic (want IOTV)"
  else if h.fmtVer ≠ iotvFmtVer then some "unsupported IOTV format version"
  else if h.modelLen = 0 ∨ h.modelLen.toNat > modelMaxBlob - hdrLen then
    some "model length out of range"
  else if len ≠ hdrLen + h.modelLen.toNat then some "length does not match header"
  else if Crc32.ieee (bytesAt buf hdrLen h.modelLen.toNat) ≠ h.crc then some "payload CRC mismatch"
  else none

/-- What `iotv_validate` accepts. -/
structure IotvValid (buf : Mem) (len : ℕ) : Prop where
  magic : (iotvHdr buf).magic = iotvMagic
  fmtVer : (iotvHdr buf).fmtVer = iotvFmtVer
  pos : 0 < (iotvHdr buf).modelLen.toNat
  fits : (iotvHdr buf).modelLen.toNat ≤ modelMaxBlob - hdrLen
  length : len = hdrLen + (iotvHdr buf).modelLen.toNat
  crc : Crc32.ieee (bytesAt buf hdrLen (iotvHdr buf).modelLen.toNat) = (iotvHdr buf).crc

theorem iotvValidate_eq_none {buf : Mem} {len : ℕ} :
    iotvValidate buf len = none ↔ IotvValid buf len := by
  have hzero : (iotvHdr buf).modelLen = 0 ↔ (iotvHdr buf).modelLen.toNat = 0 := by
    rw [← UInt32.toNat_inj]
    rfl
  constructor
  · intro h
    simp only [iotvValidate] at h
    split_ifs at h with hlen hmagic hver hrange hsize hcrc
    rw [hzero] at hrange
    exact ⟨not_not.mp hmagic, not_not.mp hver, by omega, by omega, not_not.mp hsize,
      not_not.mp hcrc⟩
  · intro ⟨hmagic, hver, hpos, hfits, hsize, hcrc⟩
    simp only [iotvValidate]
    rw [if_neg (by omega), if_neg (not_not.mpr hmagic), if_neg (not_not.mpr hver),
      if_neg (by rw [hzero]; omega), if_neg (not_not.mpr hsize), if_neg (not_not.mpr hcrc)]

theorem IotvValid.len_pos {buf : Mem} {len : ℕ} (h : IotvValid buf len) : hdrLen < len := by
  have hpos := h.pos
  have hlen := h.length
  omega

/-- The header is read from the first 32 bytes. -/
theorem iotvHdr_congr {buf buf' : Mem} (h : ∀ i, i < hdrLen → buf i = buf' i) :
    iotvHdr buf = iotvHdr buf' := by
  have h32 : hdrLen = 32 := rfl
  have hmagic : bytesAt buf 0 4 = bytesAt buf' 0 4 := bytesAt_congr fun i _ _ => h i (by omega)
  have hname : bytesAt buf 16 16 = bytesAt buf' 16 16 := bytesAt_congr fun i _ _ => h i (by omega)
  have hfmt : le16At buf 4 = le16At buf' 4 := le16At_congr fun j _ => h _ (by omega)
  have hver : le16At buf 6 = le16At buf' 6 := le16At_congr fun j _ => h _ (by omega)
  have hlen : le32At buf 8 = le32At buf' 8 := le32At_congr fun j _ => h _ (by omega)
  have hcrc : le32At buf 12 = le32At buf' 12 := le32At_congr fun j _ => h _ (by omega)
  simp only [iotvHdr, hmagic, hname, hfmt, hver, hlen, hcrc]

theorem iotvHdr_bytesAt (buf : Mem) : iotvHdr (byteAt (bytesAt buf 0 hdrLen)) = iotvHdr buf := by
  apply iotvHdr_congr
  intro i hi
  rw [byteAt_bytesAt buf 0 hi, Nat.zero_add]

/-- Whether a buffer is valid depends on its bytes only. -/
theorem IotvValid.congr {buf buf' : Mem} {len : ℕ} (h : IotvValid buf len)
    (hsame : ∀ i, i < len → buf i = buf' i) : IotvValid buf' len := by
  have hpos := h.len_pos
  have hlen := h.length
  have hhdr := iotvHdr_congr (fun i hi => hsame i (by omega) : ∀ i, i < hdrLen → buf i = buf' i)
  have hpayload : bytesAt buf hdrLen (iotvHdr buf).modelLen.toNat =
      bytesAt buf' hdrLen (iotvHdr buf).modelLen.toNat :=
    bytesAt_congr fun i _ hi => hsame i (by omega)
  constructor
  · rw [← hhdr, h.magic]
  · rw [← hhdr, h.fmtVer]
  · rw [← hhdr]
    exact h.pos
  · rw [← hhdr]
    exact h.fits
  · rw [← hhdr]
    exact hlen
  · rw [← hhdr, ← hpayload, h.crc]

/-! ## Wrapping a payload -/

/-- The header that `iotv_wrap_in_place` writes; the name is cut to 15 characters. -/
def wrapHeader (payload : Bytes) (modelVer : UInt16) (name : Bytes) : Bytes :=
  iotvMagic ++ toLe16 iotvFmtVer ++ toLe16 modelVer ++ toLe32 (UInt32.ofNat payload.length)
    ++ toLe32 (Crc32.ieee payload) ++ name.take 15 ++ List.replicate (16 - (name.take 15).length) 0

/-- `iotv_wrap_in_place`. -/
def iotvWrapInPlace (buf : Mem) (payloadLen : ℕ) (modelVer : UInt16) (name : Bytes) : Mem :=
  patch buf 0 (wrapHeader (bytesAt buf hdrLen payloadLen) modelVer name)

theorem wrapHeader_length (payload : Bytes) (modelVer : UInt16) (name : Bytes) :
    (wrapHeader payload modelVer name).length = hdrLen := by
  have hname : (name.take 15).length ≤ 15 := List.length_take_le _ _
  simp only [wrapHeader, List.length_append, List.length_replicate, toLe16_length, toLe32_length,
    iotvMagic, List.length_cons, List.length_nil]
  have h32 : hdrLen = 32 := rfl
  omega

/-- The payload stays where it is. -/
theorem iotvWrapInPlace_payload (buf : Mem) (payloadLen : ℕ) (modelVer : UInt16) (name : Bytes)
    {i : ℕ} (h : hdrLen ≤ i) : iotvWrapInPlace buf payloadLen modelVer name i = buf i := by
  refine patch_outside (Or.inr ?_)
  rw [wrapHeader_length, Nat.zero_add]
  exact h

/-- The header that a wrapped blob starts with. -/
theorem iotvWrapInPlace_header (buf : Mem) (payloadLen : ℕ) (modelVer : UInt16) (name : Bytes)
    {i : ℕ} (hi : i < hdrLen) : iotvWrapInPlace buf payloadLen modelVer name i =
      byteAt (wrapHeader (bytesAt buf hdrLen payloadLen) modelVer name) i := by
  have hinside := patch_inside buf 0
    (b := wrapHeader (bytesAt buf hdrLen payloadLen) modelVer name) (i := i)
    (by rw [wrapHeader_length]; exact hi)
  rwa [Nat.zero_add] at hinside

/-- The blob behind the header that wraps it. -/
theorem bytesAt_wrap (buf : Mem) (n : ℕ) (modelVer : UInt16) (name : Bytes) :
    bytesAt (iotvWrapInPlace buf n modelVer name) 0 (hdrLen + n) =
      wrapHeader (bytesAt buf hdrLen n) modelVer name ++ bytesAt buf hdrLen n := by
  have hlen := wrapHeader_length (bytesAt buf hdrLen n) modelVer name
  have hhead : bytesAt (iotvWrapInPlace buf n modelVer name) 0 hdrLen =
      wrapHeader (bytesAt buf hdrLen n) modelVer name := by
    have hread := bytesAt_patch buf 0 (wrapHeader (bytesAt buf hdrLen n) modelVer name)
    rwa [hlen] at hread
  have htail : bytesAt (iotvWrapInPlace buf n modelVer name) hdrLen n = bytesAt buf hdrLen n :=
    bytesAt_congr fun i hi _ => iotvWrapInPlace_payload buf n modelVer name hi
  rw [bytesAt_append, hhead, Nat.zero_add, htail]

/-- The header of a wrapped payload. -/
theorem iotvHdr_wrap (buf : Mem) {payloadLen : ℕ} (modelVer : UInt16) (name : Bytes)
    (hfits : payloadLen ≤ modelMaxBlob - hdrLen) :
    (iotvHdr (iotvWrapInPlace buf payloadLen modelVer name)).magic = iotvMagic ∧
      (iotvHdr (iotvWrapInPlace buf payloadLen modelVer name)).fmtVer = iotvFmtVer ∧
      (iotvHdr (iotvWrapInPlace buf payloadLen modelVer name)).modelLen.toNat = payloadLen ∧
      (iotvHdr (iotvWrapInPlace buf payloadLen modelVer name)).crc =
        Crc32.ieee (bytesAt buf hdrLen payloadLen) := by
  have h32 : hdrLen = 32 := rfl
  have hread := fun i => iotvWrapInPlace_header buf payloadLen modelVer name (i := i)
  refine ⟨?_, ?_, ?_, ?_⟩
  · show bytesAt _ 0 4 = bytesAt (byteAt iotvMagic) 0 4
    refine bytesAt_congr fun i _ hi => ?_
    rw [hread i (by omega)]
    interval_cases i <;> rfl
  · refine le16At_eq ?_ ?_ <;> rw [hread _ (by omega)] <;> rfl
  · have hword : le32At (iotvWrapInPlace buf payloadLen modelVer name) 8 =
        UInt32.ofNat (bytesAt buf hdrLen payloadLen).length := by
      refine le32At_eq ?_ ?_ ?_ ?_ <;> rw [hread _ (by omega)] <;> rfl
    show (le32At _ 8).toNat = payloadLen
    -- the length fits its field
    rw [hword, bytesAt_length, UInt32.toNat_ofNat']
    refine Nat.mod_eq_of_lt (lt_of_le_of_lt hfits ?_)
    decide
  · refine le32At_eq ?_ ?_ ?_ ?_ <;> rw [hread _ (by omega)] <;> rfl

/-- **A wrapped payload is valid**, if it is not empty and fits. -/
theorem iotvWrapInPlace_valid (buf : Mem) {payloadLen : ℕ} (modelVer : UInt16) (name : Bytes)
    (hpos : 0 < payloadLen) (hfits : payloadLen ≤ modelMaxBlob - hdrLen) :
    IotvValid (iotvWrapInPlace buf payloadLen modelVer name) (hdrLen + payloadLen) := by
  obtain ⟨hmagic, hver, hlen, hcrc⟩ := iotvHdr_wrap buf modelVer name hfits
  have hpayload : bytesAt (iotvWrapInPlace buf payloadLen modelVer name) hdrLen payloadLen =
      bytesAt buf hdrLen payloadLen :=
    bytesAt_congr fun i hi _ => iotvWrapInPlace_payload buf payloadLen modelVer name hi
  refine ⟨hmagic, hver, ?_, ?_, ?_, ?_⟩
  · rw [hlen]
    exact hpos
  · rw [hlen]
    exact hfits
  · rw [hlen]
  · rw [hlen, hpayload, hcrc]

/-! ## The flash copy -/

/-- The flash-area API on `slot1_partition`: what it answers, and what it leaves there. -/
structure FlashArea where
  openRet : ℤ
  faSize : ℕ
  erase : ℕ → Mem → ℤ × Mem
  write : Mem → ℕ → Mem → ℤ × Mem

/-- `model_store_save`, with the flash before and after it. -/
def modelStoreSave (fa : FlashArea) (iotvBlob : Mem) (len : ℕ) (flash : Mem) : ℤ × Mem :=
  let eraseLen := (len + (flashSector - 1)) / flashSector * flashSector
  if fa.openRet ≠ 0 then (fa.openRet, flash)
  else if eraseLen > fa.faSize then (-EFBIG, flash)
  else
    let (ret, erased) := fa.erase eraseLen flash
    if ret = 0 then fa.write iotvBlob len erased else (ret, erased)

/-- `model_store_erase`. -/
def modelStoreErase (fa : FlashArea) (flash : Mem) : ℤ × Mem :=
  if fa.openRet ≠ 0 then (fa.openRet, flash) else fa.erase flashSector flash

/-- The partition with `flash_area_read` at the offset 0: the status and the bytes delivered. -/
structure ReadableArea extends FlashArea where
  read : ℕ → Mem → ℤ × Bytes

/-- `model_store_load`: the status, the buffer afterwards, and `out_len` if it is set. -/
def modelStoreLoad (fa : ReadableArea) (buf : Mem) (bufSize : ℕ) (flash : Mem) :
    ℤ × Mem × Option ℕ :=
  if fa.openRet ≠ 0 then (fa.openRet, buf, none)
  else
    let (ret, hdrBytes) := fa.read hdrLen flash
    if ret ≠ 0 then (ret, buf, none)
    else
      let hdr := iotvHdr (byteAt hdrBytes)
      if hdr.magic ≠ iotvMagic then (-ENOENT, buf, none)
      else if hdr.fmtVer ≠ iotvFmtVer ∨ hdr.modelLen = 0 ∨
          hdr.modelLen.toNat > modelMaxBlob - hdrLen then (-ENOENT, buf, none)
      else
        -- the header passes: read header and payload together
        let total := hdrLen + hdr.modelLen.toNat
        if total > bufSize then (-ENOMEM, buf, none)
        else
          let (ret, data) := fa.read total flash
          let buf := patch buf 0 data
          if ret ≠ 0 then (ret, buf, none)
          else
            match iotvValidate buf total with
            | some _ => (-ENOENT, buf, none)
            | none => (0, buf, some total)

end IotcDemos.Vision
