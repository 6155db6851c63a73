import IotcDemos.Lib.Crc32
import IotcDemos.Zip.Walk

set_option autoImplicit false

/-! # The IOTM model blob (`struct model_hdr`, `model_validate`)

A model of the ml-model-update demo is a header of 64 bytes, with the dimensions, the labels and a
CRC, and the weights behind it as little-endian floats. A header is read through an accessor
`rd : ℕ → UInt8` from its start, so that the same reader serves a blob and `model_blob`.
-/

namespace IotcDemos.Iotm

def modelFmtVer : UInt16 := 1
def modelMaxIn : UInt8 := 4
def modelMaxHid : UInt8 := 16
def modelMaxOut : UInt8 := 4
def modelMaxBlob : ℕ := 768

/-- `struct model_hdr`; the labels are fields of 12 bytes each. -/
structure ModelHdr where
  magic : Bytes
  fmtVer : UInt16
  modelVer : UInt16
  nIn : UInt8
  nHid : UInt8
  nOut : UInt8
  ledMask : UInt8
  labels : List Bytes
  crc : UInt32
  deriving DecidableEq

/-- The packed layout. -/
def modelHdr (rd : ℕ → UInt8) : ModelHdr where
  magic := bytesAt rd 0 4
  fmtVer := le16At rd 4
  modelVer := le16At rd 6
  nIn := rd 8
  nHid := rd 9
  nOut := rd 10
  ledMask := rd 11
  labels := (List.range 4).map fun i => bytesAt rd (12 + 12 * i) 12
  crc := le32At rd 60

namespace ModelHdr

variable (h : ModelHdr)

/-- The number of floats of the weights section. -/
def weights : ℕ :=
  h.nHid.toNat * h.nIn.toNat + h.nHid.toNat + h.nOut.toNat * h.nHid.toNat + h.nOut.toNat

/-- The dimensions are what the inference engine has room for. -/
def DimsInRange : Prop :=
  ¬ (h.nIn < 1 ∨ h.nIn > modelMaxIn ∨ h.nHid < 1 ∨ h.nHid > modelMaxHid ∨
    h.nOut < 1 ∨ h.nOut > modelMaxOut)

instance : Decidable h.DimsInRange := by
  unfold DimsInRange
  infer_instance

end ModelHdr

def modelWeightsLen (h : ModelHdr) : ℕ := 4 * h.weights

/-- `model_validate`: `none` when the blob is valid, else the reason. -/
def modelValidate (blob : Bytes) : Option String :=
  let h := modelHdr (byteAt blob)
  if blob.length < modelHdrLen.toNat then some "blob shorter than header"
  else if h.magic ≠ modelMagic then some "bad magic (want IOTM)"
  else if h.fmtVer ≠ modelFmtVer then some "unsupported format version"
  else if ¬ h.DimsInRange then some "dims out of range"
  else if blob.length ≠ modelHdrLen.toNat + modelWeightsLen h then
    some "length does not match dims"
  else if Crc32.ieee (blob.drop modelHdrLen.toNat) ≠ h.crc then some "weights CRC mismatch"
  else none

/-- What `model_validate` accepts. -/
structure ModelValid (blob : Bytes) : Prop where
  header : modelHdrLen.toNat ≤ blob.length
  magic : (modelHdr (byteAt blob)).magic = modelMagic
  fmtVer : (modelHdr (byteAt blob)).fmtVer = modelFmtVer
  dims : (modelHdr (byteAt blob)).DimsInRange
  length : blob.length = modelHdrLen.toNat + modelWeightsLen (modelHdr (byteAt blob))
  crc : Crc32.ieee (blob.drop modelHdrLen.toNat) = (modelHdr (byteAt blob)).crc

theorem modelValidate_eq_none {blob : Bytes} : modelValidate blob = none ↔ ModelValid blob := by
  constructor
  · intro h
    simp only [modelValidate] at h
    split_ifs at h with hlen hmagic hver hdims hsize hcrc
    exact ⟨by omega, not_not.mp hmagic, not_not.mp hver, hdims, not_not.mp hsize,
      not_not.mp hcrc⟩
  · intro ⟨hlen, hmagic, hver, hdims, hsize, hcrc⟩
    simp only [modelValidate]
    rw [if_neg (by omega), if_neg (not_not.mpr hmagic), if_neg (not_not.mpr hver),
      if_neg (not_not.mpr hdims), if_neg (not_not.mpr hsize), if_neg (not_not.mpr hcrc)]

/-! ## The size of a valid model -/

theorem ModelHdr.dims_bounds {h : ModelHdr} (hdims : h.DimsInRange) :
    (1 ≤ h.nIn.toNat ∧ h.nIn.toNat ≤ 4) ∧ (1 ≤ h.nHid.toNat ∧ h.nHid.toNat ≤ 16) ∧
      1 ≤ h.nOut.toNat ∧ h.nOut.toNat ≤ 4 := by
  simp only [DimsInRange, modelMaxIn, modelMaxHid, modelMaxOut, not_or, UInt8.not_lt,
    UInt8.le_iff_toNat_le] at hdims
  simpa [and_assoc] using hdims

theorem ModelHdr.dims_of_bounds {h : ModelHdr} (hin : 1 ≤ h.nIn.toNat ∧ h.nIn.toNat ≤ 4)
    (hhid : 1 ≤ h.nHid.toNat ∧ h.nHid.toNat ≤ 16) (hout : 1 ≤ h.nOut.toNat ∧ h.nOut.toNat ≤ 4) :
    h.DimsInRange := by
  simp only [DimsInRange, modelMaxIn, modelMaxHid, modelMaxOut, not_or, UInt8.not_lt,
    UInt8.le_iff_toNat_le]
  exact ⟨hin.1, hin.2, hhid.1, hhid.2, hout.1, hout.2⟩

/-- The dimension checks bound the weights section: 4 inputs, 16 hidden units, 4 outputs. -/
theorem modelWeightsLen_le {h : ModelHdr} (hdims : h.DimsInRange) : modelWeightsLen h ≤ 592 := by
  obtain ⟨⟨-, hin⟩, ⟨-, hhid⟩, -, hout⟩ := ModelHdr.dims_bounds hdims
  have hlayer1 : h.nHid.toNat * h.nIn.toNat ≤ 16 * 4 := Nat.mul_le_mul hhid hin
  have hlayer2 : h.nOut.toNat * h.nHid.toNat ≤ 4 * 16 := Nat.mul_le_mul hout hhid
  unfold modelWeightsLen ModelHdr.weights
  omega

/-- A valid model fits `model_blob`, with room to spare. -/
theorem ModelValid.length_le {blob : Bytes} (h : ModelValid blob) : blob.length ≤ 656 := by
  have hweights := modelWeightsLen_le h.dims
  have hlen := h.length
  have h64 : modelHdrLen.toNat = 64 := rfl
  omega

theorem ModelValid.fits {blob : Bytes} (h : ModelValid blob) : blob.length ≤ modelMaxBlob :=
  h.length_le.trans (by decide)

theorem ModelValid.length_pos {blob : Bytes} (h : ModelValid blob) : 0 < blob.length :=
  Nat.lt_of_lt_of_le (by decide) h.header

/-! ## The built-in model -/

/-- `model_builtin`. -/
def modelBuiltin : Bytes :=
  [0x49, 0x4f, 0x54, 0x4d, 0x01, 0x00, 0x01, 0x00, 0x02, 0x02, 0x03, 0x04,
   0x64, 0x61, 0x72, 0x6b, 0x00, 0x00, 0x00, 0x00, 0x00, 0x00, 0x00, 0x00,
   0x64, 0x69, 0x6d, 0x00, 0x00, 0x00, 0x00, 0x00, 0x00, 0x00, 0x00, 0x00,
   0x62, 0x72, 0x69, 0x67, 0x68, 0x74, 0x00, 0x00, 0x00, 0x00, 0x00, 0x00,
   0x00, 0x00, 0x00, 0x00, 0x00, 0x00, 0x00, 0x00, 0x00, 0x00, 0x00, 0x00,
   0x54, 0xb7, 0xff, 0xc7, 0x00, 0x00, 0x00, 0x00, 0x00, 0x00, 0x80, 0x3f,
   0x00, 0x00, 0x00, 0x00, 0x00, 0x00, 0x80, 0x3f, 0xcd, 0xcc, 0x4c, 0xbe,
   0x9a, 0x99, 0x19, 0xbf, 0x00, 0x00, 0x7a, 0xc4, 0x00, 0x00, 0x00, 0x00,
   0x00, 0x00, 0x7a, 0x44, 0x00, 0x24, 0x74, 0xc9, 0x00, 0x00, 0x00, 0x00,
   0x00, 0x24, 0x74, 0x49, 0x00, 0x00, 0x00, 0x3f, 0x00, 0x00, 0x00, 0x00,
   0x00, 0x00, 0x00, 0xbf]

/-- `models/model_v2_comfort.bin`, one of the models to push. -/
def modelComfort : Bytes :=
  [0x49, 0x4f, 0x54, 0x4d, 0x01, 0x00, 0x02, 0x00, 0x02, 0x02, 0x03, 0x04,
   0x63, 0x6f, 0x6f, 0x6c, 0x00, 0x00, 0x00, 0x00, 0x00, 0x00, 0x00, 0x00,
   0x63, 0x6f, 0x6d, 0x66, 0x79, 0x00, 0x00, 0x00, 0x00, 0x00, 0x00, 0x00,
   0x77, 0x61, 0x72, 0x6d, 0x00, 0x00, 0x00, 0x00, 0x00, 0x00, 0x00, 0x00,
   0x00, 0x00, 0x00, 0x00, 0x00, 0x00, 0x00, 0x00, 0x00, 0x00, 0x00, 0x00,
   0x01, 0xac, 0xc5, 0x13, 0x00, 0x00, 0x80, 0x3f, 0x00, 0x00, 0x00, 0x00,
   0x00, 0x00, 0x80, 0x3f, 0x00, 0x00, 0x00, 0x00, 0xae, 0x47, 0xe1, 0xbe,
   0x71, 0x3d, 0x0a, 0xbf, 0x00, 0x00, 0x7a, 0xc4, 0x00, 0x00, 0x00, 0x00,
   0x00, 0x00, 0x7a, 0x44, 0x00, 0x24, 0x74, 0xc9, 0x00, 0x00, 0x00, 0x00,
   0x00, 0x24, 0x74, 0x49, 0x00, 0x00, 0x00, 0x3f, 0x00, 0x00, 0x00, 0x00,
   0x00, 0x00, 0x00, 0xbf]

theorem modelBuiltin_valid : ModelValid modelBuiltin := by
  rw [← modelValidate_eq_none]
  decide +kernel

theorem modelComfort_valid : ModelValid modelComfort := by
  rw [← modelValidate_eq_none]
  decide +kernel

end IotcDemos.Iotm
