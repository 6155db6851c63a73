import IotcDemos.Vision.Normalize
import IotcDemos.Zip.Archive

set_option autoImplicit false

/-! # Packaging does not change a model

A model is downloaded as it is, or as an entry of an archive. `normalize_staged_download` moves the
payload to its place within the buffer it lies in; the blob it leaves there depends on the payload
only (`normalized`), not on where it was or on what lay around it.
-/

namespace IotcDemos.Vision

/-- An IOTV blob, as far as `normalize_staged_download` looks. -/
def IsIotv (t : Bytes) : Prop := 32 ≤ t.length ∧ t.take 4 = iotvMagic

/-- A bare flatbuffer. -/
def IsTflite (t : Bytes) : Prop := 8 ≤ t.length ∧ (t.drop 4).take 4 = tflMagic

instance (t : Bytes) : Decidable (IsIotv t) := inferInstanceAs (Decidable (_ ∧ _))

instance (t : Bytes) : Decidable (IsTflite t) := inferInstanceAs (Decidable (_ ∧ _))

/-- A body that is a model and does not start like an archive. -/
structure ModelBody (t : Bytes) : Prop where
  model : IsIotv t ∨ IsTflite t
  plain : t.take 2 ≠ [0x50, 0x4B]

/-- The first stored model of the archive is `t`. -/
def FirstModelIs (a : Archive) (t : Bytes) : Prop :=
  ∃ pre e post, a.entries = pre ++ e :: post ∧ (∀ x ∈ pre, x.isModel .model = false) ∧
    e.isModel .model = true ∧ e.data = t

/-- The result of `normalize_staged_download`: a reason, or the blob at the start of the buffer. -/
def delivered (staging : Mem) (bodyLen : ℕ) : Option (Except String Bytes) :=
  (normalizeStaged staging bodyLen).map fun r => r.map fun blob => bytesAt blob.1 0 blob.2

/-- The blob that a model is normalised to. -/
def normalized (t : Bytes) : Except String Bytes :=
  if IsIotv t then .ok t
  else if t.length > modelMaxBlob - hdrLen then .error "model too large"
  else .ok (wrapRaw t)

/-- What lies in the buffer after a success: the model itself, or a valid blob around it. -/
structure Holds (t : Bytes) (staging : Mem) (len : ℕ) : Prop where
  fits : len ≤ modelMaxBlob
  iotv : IsIotv t → bytesAt staging 0 len = t
  wrapped : ¬ IsIotv t → bytesAt staging 0 len = wrapHeader t 0 unversioned ++ t ∧
    iotvValidate staging len = none

section Payload

variable {staging : Mem} {p : ℕ} {t : Bytes}

theorem isIotv_iff (h : LiesAt staging p t) :
    t.length ≥ hdrLen ∧ memcmpEq staging p iotvMagic = true ↔ IsIotv t := by
  have h32 : hdrLen = 32 := rfl
  rw [IsIotv, memcmpEq_iff, ge_iff_le, h32]
  refine and_congr_right fun hlen => ?_
  have hslice := h.slice (i := 0) (n := 4) (by omega)
  show bytesAt staging (p + 0) 4 = _ ↔ _
  rw [hslice, List.drop_zero]

theorem isTflite_iff (h : LiesAt staging p t) :
    t.length ≥ 8 ∧ memcmpEq staging (p + 4) tflMagic = true ↔ IsTflite t := by
  rw [IsTflite, memcmpEq_iff, ge_iff_le]
  refine and_congr_right fun hlen => ?_
  have hslice := h.slice (i := 4) (n := 4) (by omega)
  show bytesAt staging (p + 4) 4 = _ ↔ _
  rw [hslice]

/-- A model at `p` is normalised, wherever it lies. -/
theorem normalizePayload_model (h : LiesAt staging p t) (ht : IsIotv t ∨ IsTflite t)
    (hfits : t.length ≤ modelMaxBlob) :
    ((normalizePayload staging p t.length).map fun blob => bytesAt blob.1 0 blob.2) =
        normalized t ∧
      ∀ mem len, normalizePayload staging p t.length = .ok (mem, len) → Holds t mem len := by
  unfold normalizePayload normalized
  by_cases hiotv : IsIotv t
  · rw [if_pos ((isIotv_iff h).mpr hiotv), if_pos hiotv]
    have hmoved : bytesAt (memmove staging 0 p t.length) 0 t.length = t :=
      (bytesAt_memmove staging 0 p t.length).trans h
    refine ⟨congrArg Except.ok hmoved, ?_⟩
    intro mem len hok
    obtain ⟨rfl, rfl⟩ := Prod.mk.inj (Except.ok.inj hok)
    exact ⟨hfits, fun _ => hmoved, fun hno => absurd hiotv hno⟩
  · rw [if_neg (mt (isIotv_iff h).mp hiotv), if_neg hiotv,
      if_pos ((isTflite_iff h).mpr (ht.resolve_left hiotv))]
    by_cases hsize : t.length > modelMaxBlob - hdrLen
    · rw [if_pos hsize, if_pos hsize]
      exact ⟨rfl, fun mem len hok => by cases hok⟩
    · rw [if_neg hsize, if_neg hsize]
      have hmoved : bytesAt (memmove staging hdrLen p t.length) hdrLen t.length = t :=
        (bytesAt_memmove staging hdrLen p t.length).trans h
      have hwrapped : bytesAt (iotvWrapInPlace (memmove staging hdrLen p t.length) t.length 0
          unversioned) 0 (hdrLen + t.length) = wrapHeader t 0 unversioned ++ t := by
        rw [bytesAt_wrap, hmoved]
      refine ⟨congrArg Except.ok hwrapped, ?_⟩
      intro mem len hok
      obtain ⟨rfl, rfl⟩ := Prod.mk.inj (Except.ok.inj hok)
      have hmax : hdrLen ≤ modelMaxBlob := by decide
      have hpos : 0 < t.length := by
        rcases ht with h | h
        · exact Nat.lt_of_lt_of_le (by decide) h.1
        · exact Nat.lt_of_lt_of_le (by decide) h.1
      refine ⟨by omega, fun hyes => absurd hyes hiotv, fun _ => ⟨hwrapped, ?_⟩⟩
      exact iotvValidate_eq_none.mpr (iotvWrapInPlace_valid _ 0 unversioned hpos (by omega))

end Payload

/-! ## The two packagings -/

/-- A model on its own is normalised where it is. -/
theorem normalizeStaged_plain {staging : Mem} {t : Bytes} (h : LiesAt staging 0 t)
    (ht : ModelBody t) :
    normalizeStaged staging t.length = some (normalizePayload staging 0 t.length) := by
  have hlen : 2 ≤ t.length := by
    rcases ht.model with h | h
    · exact le_trans (by decide) h.1
    · exact le_trans (by decide) h.1
  have hno : ¬ memcmpEq staging 0 [0x50, 0x4B] = true := by
    rw [memcmpEq_iff]
    have hslice : bytesAt staging (0 + 0) 2 = (t.drop 0).take 2 := h.slice (by omega)
    show ¬ bytesAt staging 0 2 = _
    rw [hslice, List.drop_zero]
    exact ht.plain
  rw [normalizeStaged, if_neg fun h => hno h.2]

/-- The first model of an archive is normalised where the walk finds it. -/
theorem normalizeStaged_archive {staging : Mem} {a : Archive} {t : Bytes}
    (h : LiesAt staging 0 a.bytes) (hfirst : FirstModelIs a t) :
    ∃ p, LiesAt staging p t ∧
      normalizeStaged staging a.bytes.length = some (normalizePayload staging p t.length) := by
  obtain ⟨pre, e, post, hes, hpre, hmodel, rfl⟩ := hfirst
  obtain ⟨p, n, hanswer, -, hn, hdata⟩ := Archive.zipAnswer_found h hes hpre hmodel
  obtain ⟨hlength, hsig⟩ := Archive.starts h
  have hpk : a.bytes.length ≥ 4 ∧ memcmpEq staging 0 [0x50, 0x4B] = true := by
    refine ⟨by omega, memcmpEq_iff.mpr ?_⟩
    exact congrArg (List.take 2) (memcmpEq_iff.mp hsig)
  rw [hn] at hdata
  refine ⟨p.toNat, hdata, ?_⟩
  rw [normalizeStaged, if_pos hpk, hanswer]
  exact congrArg (fun k => some (normalizePayload staging p.toNat k)) hn

/-- A model of an archive is no longer than the archive. -/
theorem FirstModelIs.length_le {a : Archive} {t : Bytes} (h : FirstModelIs a t) :
    t.length ≤ a.bytes.length := by
  obtain ⟨pre, e, post, hes, -, -, rfl⟩ := h
  simp only [Archive.bytes, hes, List.flatMap_append, List.flatMap_cons, List.length_append,
    LocalEntry.bytes_length]
  omega

/-- **Packaging does not change the model.** A model that is the first stored model of an archive is
normalised with the same result as on its own, wherever the archive holds it and whatever the
buffers hold behind the downloads: it is refused for the same reason, or leaves the same blob. That
blob fits the buffer, and is the model itself or, around a bare flatbuffer, a valid blob. -/
theorem packaging_keeps_model (t : Bytes) (ht : ModelBody t) (a : Archive)
    (hfits : a.bytes.length ≤ modelMaxBlob) (hfirst : FirstModelIs a t) (zipped alone : Mem)
    (hzipped : bytesAt zipped 0 a.bytes.length = a.bytes) (halone : bytesAt alone 0 t.length = t) :
    (∃ r, delivered zipped a.bytes.length = some r ∧ delivered alone t.length = some r) ∧
      ∀ staging len, (normalizeStaged zipped a.bytes.length = some (.ok (staging, len)) ∨
        normalizeStaged alone t.length = some (.ok (staging, len))) → Holds t staging len := by
  have hlength : t.length ≤ modelMaxBlob := hfirst.length_le.trans hfits
  obtain ⟨p, hp, hnorm⟩ := normalizeStaged_archive hzipped hfirst
  have hnorm' := normalizeStaged_plain halone ht
  obtain ⟨hsame, hholds⟩ := normalizePayload_model hp ht.model hlength
  obtain ⟨hsame', hholds'⟩ := normalizePayload_model halone ht.model hlength
  constructor
  · refine ⟨normalized t, ?_, ?_⟩
    · rw [delivered, hnorm, Option.map_some, hsame]
    · rw [delivered, hnorm', Option.map_some, hsame']
  · rintro staging len (h | h)
    · rw [hnorm] at h
      exact hholds staging len (Option.some.inj h)
    · rw [hnorm'] at h
      exact hholds' staging len (Option.some.inj h)

/-- A flatbuffer of 12 bytes. -/
def bareModel : Bytes := [24, 0, 0, 0] ++ tflMagic ++ [0, 0, 1, 0]

/-- The flatbuffer behind a compressed entry. -/
def modelArchive : Archive where
  entries :=
    [smallEntry 8 (ascii "readme.txt") [1, 2, 3] (by decide) (by decide),
      smallEntry 0 (ascii "model.tflite") bareModel (by decide) (by decide)]
  central := centralSignature ++ List.replicate 42 0
  nonempty := List.cons_ne_nil _ _
  directory := List.prefix_append _ _
  small := by decide +kernel

theorem packaging_keeps_model_bare : delivered (byteAt bareModel) bareModel.length =
    delivered (byteAt modelArchive.bytes) modelArchive.bytes.length := by
  have hfirst : FirstModelIs modelArchive bareModel :=
    ⟨[smallEntry 8 (ascii "readme.txt") [1, 2, 3] (by decide) (by decide)],
      smallEntry 0 (ascii "model.tflite") bareModel (by decide) (by decide), [], rfl,
      by decide +kernel, by decide +kernel, rfl⟩
  obtain ⟨⟨r, hzipped, halone⟩, -⟩ := packaging_keeps_model bareModel ⟨by decide, by decide⟩
    modelArchive (by decide +kernel) hfirst (byteAt modelArchive.bytes) (byteAt bareModel)
    (by decide +kernel) (by decide +kernel)
  rw [halone, hzipped]

end IotcDemos.Vision
