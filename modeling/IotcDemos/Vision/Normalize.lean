import IotcDemos.Vision.Store
import IotcDemos.Zip.Bounds

set_option autoImplicit false

/-! # Normalising a download

A downloaded body is a ZIP archive, an IOTV blob or a bare flatbuffer; `normalize_staged_download`
leaves an IOTV blob at the start of `model_staging`. The buffer is all of the memory from its start
on, so that a `memmove` beyond its end has a result here; whether it leaves the buffer is for the
caller to ask.
-/

namespace IotcDemos.Vision

def unversioned : Bytes := ascii "unversioned"

/-- `normalize_staged_download` for the payload of `n` bytes at `p`. -/
def normalizePayload (staging : Mem) (p n : ℕ) : Except String (Mem × ℕ) :=
  if n ≥ hdrLen ∧ memcmpEq staging p iotvMagic then .ok (memmove staging 0 p n, n)
  else if n ≥ 8 ∧ memcmpEq staging (p + 4) tflMagic then
    if n > modelMaxBlob - hdrLen then .error "model too large"
    else .ok (iotvWrapInPlace (memmove staging hdrLen p n) n 0 unversioned, hdrLen + n)
  else .error "body is neither zip, IOTV, nor .tflite"

/-- `normalize_staged_download`; `none` when the walk of an archive does not end. -/
def normalizeStaged (staging : Mem) (bodyLen : ℕ) : Option (Except String (Mem × ℕ)) :=
  if bodyLen ≥ 4 ∧ memcmpEq staging 0 [0x50, 0x4B] then
    match zipAnswer .model staging (UInt32.ofNat bodyLen) with
    | none => none
    | some (.error err) => some (.error err)
    | some (.ok (p, n)) => some (normalizePayload staging p.toNat n.toNat)
  else some (normalizePayload staging 0 bodyLen)

/-- The blob that a bare flatbuffer is wrapped into. -/
def wrapRaw (model : Bytes) : Bytes := wrapHeader model 0 unversioned ++ model

/-- The blobs that one download can deliver: a part of its body, as it is or wrapped. -/
def Delivers (body blob : Bytes) : Prop :=
  ∃ model, model <:+: body ∧ (blob = model ∨ blob = wrapRaw model)

/-- No payload of the archive that starts with `IOTV` ends past `2^32`. -/
def NoCarriedIotv (staging : Mem) (bodyLen : ℕ) : Prop :=
  ∀ i off, zipOff .model staging (UInt32.ofNat bodyLen) i = some off →
    Entered staging (UInt32.ofNat bodyLen) off → carries staging off →
      memcmpEq staging (entryAt staging off).dataOff.toNat iotvMagic = false

/-- A body that is no archive has no such payload. -/
theorem noCarriedIotv_of_no_archive {staging : Mem} {bodyLen : ℕ}
    (h : memcmpEq staging 0 pkSignature = false) : NoCarriedIotv staging bodyLen := by
  intro i off hoff
  rw [zipOff, if_pos (Or.inr (by simp [h]))] at hoff
  cases hoff

/-! ## What is delivered -/

/-- A payload inside the body is delivered, in a blob that fits the buffer. -/
theorem normalizePayload_delivers {staging mem : Mem} {p n bodyLen len : ℕ}
    (hbody : bodyLen ≤ modelMaxBlob) (hinside : p + n ≤ bodyLen)
    (h : normalizePayload staging p n = .ok (mem, len)) :
    len ≤ modelMaxBlob ∧ Delivers (bytesAt staging 0 bodyLen) (bytesAt mem 0 len) := by
  have hinfix := bytesAt_infix staging hinside
  unfold normalizePayload at h
  split_ifs at h with hiotv htfl hsize
  · obtain ⟨rfl, rfl⟩ := Prod.mk.inj (Except.ok.inj h)
    exact ⟨by omega, _, hinfix, Or.inl (bytesAt_memmove staging 0 p n)⟩
  · obtain ⟨rfl, rfl⟩ := Prod.mk.inj (Except.ok.inj h)
    have h32 : hdrLen ≤ modelMaxBlob := by decide
    refine ⟨by omega, _, hinfix, Or.inr ?_⟩
    rw [bytesAt_wrap, bytesAt_memmove]
    rfl

/-- A payload that is too large for the buffer is rejected, unless it starts with `IOTV`. -/
theorem normalizePayload_too_large {staging : Mem} {p n : ℕ}
    (hiotv : memcmpEq staging p iotvMagic = false) (hsize : n > modelMaxBlob - hdrLen)
    (blob : Mem × ℕ) : normalizePayload staging p n ≠ .ok blob := by
  unfold normalizePayload
  rw [if_neg (by simp [hiotv]), if_pos hsize]
  split <;> simp

/-- A payload that ends past `2^32` is much larger than the buffer. -/
theorem compSize_of_carries {staging : Mem} {bodyLen : ℕ} {off : UInt32}
    (hbody : bodyLen ≤ modelMaxBlob) (hoff : off ≤ UInt32.ofNat bodyLen)
    (hent : Entered staging (UInt32.ofNat bodyLen) off) (hc : carries staging off) :
    (entryAt staging off).compSize.toNat > modelMaxBlob - hdrLen := by
  have hmax : modelMaxBlob = 2 ^ 19 := by decide
  have hlen : (UInt32.ofNat bodyLen).toNat = bodyLen := by
    rw [UInt32.toNat_ofNat']
    omega
  have hdata := dataOff_lt staging (headerRoom (by omega) hoff hent.isOpen.1)
  unfold carries at hc
  omega

/-- **What is normalised is delivered by the body**, if no payload that ends past `2^32` is taken
for an IOTV blob; the blob fits the buffer. -/
theorem normalizeStaged_delivers {staging mem : Mem} {bodyLen len : ℕ}
    (hbody : bodyLen ≤ modelMaxBlob) (hcarry : NoCarriedIotv staging bodyLen)
    (h : normalizeStaged staging bodyLen = some (.ok (mem, len))) :
    len ≤ modelMaxBlob ∧ Delivers (bytesAt staging 0 bodyLen) (bytesAt mem 0 len) := by
  have hmax : modelMaxBlob = 2 ^ 19 := by decide
  have hlen : (UInt32.ofNat bodyLen).toNat = bodyLen := by
    rw [UInt32.toNat_ofNat']
    omega
  unfold normalizeStaged at h
  split at h
  · cases hanswer : zipAnswer .model staging (UInt32.ofNat bodyLen) with
    | none => simp [hanswer] at h
    | some r =>
        cases r with
        | error err => simp [hanswer] at h
        | ok found =>
            obtain ⟨p, n⟩ := found
            rw [hanswer] at h
            obtain ⟨i, off, hoff, hent, -, rfl, rfl⟩ := zipAnswer_ok hanswer
            by_cases hc : carries staging off
            · have hlarge := compSize_of_carries hbody (zipOff_le hoff) hent hc
              exact absurd (Option.some.inj h)
                (normalizePayload_too_large (hcarry i off hoff hent hc) hlarge _)
            · have hfits := payload_fits hent hc
              rw [hlen] at hfits
              exact normalizePayload_delivers hbody hfits (Option.some.inj h)
  · exact normalizePayload_delivers hbody (Nat.zero_add bodyLen).le (Option.some.inj h)

end IotcDemos.Vision
