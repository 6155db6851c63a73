import IotcDemos.Lib.CText
import IotcDemos.Vision.Pack
import IotcDemos.Vision.Reset

set_option autoImplicit false

/-! # The display name, read as a C string

`active_hdr()->name` is a field of 16 bytes. Three of its readers print it with `%.15s`; the
telemetry hands it to `iotcl_telemetry_set_string`, which takes it for a C string of any length.
The field is not covered by the CRC, and `iotv_validate` does not look at it. `ram` is the number of
bytes of memory from `model_active` on.
-/

namespace IotcDemos.Vision

/-- The offset of `name`. -/
def nameOff : ℕ := 16

/-- The readers of `active_hdr()->name`. -/
inductive NameReader where
  /-- The log line and the note of `install_from_staging`. -/
  | install
  | modelInfo
  /-- The classification of a snapshot, in `vision_step`. -/
  | snapshot
  /-- `model.name`, in `publish_vision`. -/
  | telemetry
  deriving DecidableEq

namespace NameReader

/-- The precision of the conversion, where there is one. -/
def precision : NameReader → Option ℕ
  | install => some 15
  | modelInfo => some 15
  | snapshot => some 15
  | telemetry => none

/-- How many bytes a reader may look at. -/
def limit (ram : ℕ) (r : NameReader) : ℕ := r.precision.getD (ram - nameOff)

def text (active : Mem) (ram : ℕ) (r : NameReader) : Bytes := cText active nameOff (r.limit ram)

def looks (active : Mem) (ram : ℕ) (r : NameReader) : ℕ := cLooks active nameOff (r.limit ram)

end NameReader

/-- The name as the note of an install shows it. -/
def shownName (h : IotvHdr) : Bytes := (h.name.take 15).takeWhile (· ≠ 0)

/-- Every read of the name stops inside the field, and all of them yield one text. -/
structure NameBounded (active : Mem) (ram : ℕ) : Prop where
  inside : ∀ r : NameReader, r.looks active ram ≤ nameLen
  same : ∀ r : NameReader, r.text active ram = shownName (iotvHdr active)

/-! ## The ways a blob is installed -/

/-- What `install_from_staging` is called on. -/
inductive InstallPath where
  /-- A downloaded body of this length. -/
  | download (bodyLen : ℕ)
  /-- The flash copy. -/
  | restore
  | builtin

section Paths

variable (tflite : Bytes → LoadResult) (fa : ReadableArea) (flatbuffer : Bytes)

/-- What a path leaves in `model_staging`, with the length of the blob; nothing if it fails. -/
def InstallPath.staged (s : ModelState) : InstallPath → Option (Mem × ℕ)
  | .download bodyLen =>
      match normalizeStaged s.staging bodyLen with
      | some (.ok blob) => some blob
      | _ => none
  | .restore =>
      match modelStoreLoad fa s.staging modelMaxBlob s.flash with
      | (0, buf, some len) => some (buf, len)
      | _ => none
  | .builtin => some (stageBuiltin flatbuffer s.staging, hdrLen + flatbuffer.length)

/-- The source that a path installs with, and whether the blob is stored. -/
def InstallPath.options : InstallPath → Bytes × Bool
  | .download _ => (ascii "cloud", true)
  | .restore => (ascii "flash", false)
  | .builtin => (ascii "builtin", false)

/-- A path, up to the return of `install_from_staging`. -/
def InstallPath.install (path : InstallPath) (s : ModelState) :
    Option ((ℤ × Bytes) × ModelState) :=
  (path.staged fa flatbuffer s).map fun blob =>
    installFromStaging tflite fa.toFlashArea blob.2 path.options.1 path.options.2
      { s with staging := blob.1 }

end Paths

/-! ## When the name is bounded -/

theorem shownName_eq (active : Mem) :
    shownName (iotvHdr active) = cText active nameOff 15 := by
  have hfield : (bytesAt active nameOff 16).take 15 = bytesAt active nameOff 15 := by
    rw [bytesAt_append active nameOff 15 1, List.take_left' (bytesAt_length _ _ _)]
  show ((bytesAt active nameOff 16).take 15).takeWhile (· ≠ 0) = _
  rw [hfield]
  rfl

/-- A name that ends in its field has at most 15 characters. -/
theorem cText_name {active : Mem} (h : 0 ∈ (iotvHdr active).name) :
    cText active nameOff nameLen = cText active nameOff 15 := by
  have hlt : (cText active nameOff nameLen).length < 16 := cText_length_lt_iff.mpr h
  calc cText active nameOff nameLen
      = (cText active nameOff (15 + 1)).take 15 := (List.take_of_length_le (by omega)).symm
    _ = cText active nameOff 15 := cText_take active nameOff 15 1

/-- The telemetry looks behind the field of a name that does not end in it. -/
theorem terminated_of_bounded {active : Mem} {len more : ℕ} (hvalid : IotvValid active len)
    (h : NameBounded active (len + more)) : 0 ∈ (iotvHdr active).name := by
  have hlen : 32 < len := hvalid.len_pos
  have hroom : nameLen < len + more - nameOff := by
    unfold nameLen nameOff
    omega
  exact (cLooks_le_iff hroom).mp (h.inside .telemetry)

theorem nameBounded_of_terminated {active : Mem} {len more : ℕ} (hvalid : IotvValid active len)
    (h : 0 ∈ (iotvHdr active).name) : NameBounded active (len + more) := by
  have hlen : 32 < len := hvalid.len_pos
  have hroom : nameLen < len + more - nameOff := by
    unfold nameLen nameOff
    omega
  constructor
  · intro r
    cases r with
    -- the conversions with a precision stop by themselves
    | telemetry => exact (cLooks_le_iff hroom).mpr h
    | _ => exact (cLooks_le active nameOff 15).trans (by decide)
  · intro r
    rw [shownName_eq]
    cases r with
    | telemetry =>
        calc cText active nameOff (len + more - nameOff)
            = cText active nameOff nameLen := cText_field h hroom.le
          _ = cText active nameOff 15 := cText_name h
    | _ => rfl

section Installed

variable {tflite : Bytes → LoadResult} {fa : ReadableArea} {flatbuffer : Bytes}

/-- What a successful install makes active: the staged blob, which is valid. -/
theorem installed_active {path : InstallPath} {s s' : ModelState} {note : Bytes}
    (h : path.install tflite fa flatbuffer s = some ((0, note), s')) :
    ∃ staged, path.staged fa flatbuffer s = some (staged, s'.activeLen) ∧
      IotvValid s'.active s'.activeLen ∧ iotvHdr s'.active = iotvHdr staged := by
  obtain ⟨⟨staged, len⟩, hstaged, hinstall⟩ := Option.map_eq_some_iff.mp h
  have hcases := installFromStaging_cases tflite fa.toFlashArea len path.options.1 path.options.2
    { s with staging := staged }
  rw [hinstall] at hcases
  rcases hcases with ⟨hret, -⟩ | ⟨-, hlen, hactive, hrun⟩
  · -- the call has returned 0
    have hzero : (0 : ℤ) = -EINVAL := hret
    exact absurd hzero (by decide)
  · obtain rfl : s'.activeLen = len := hlen
    have hpos : hdrLen < s'.activeLen := hrun.valid.len_pos
    refine ⟨staged, hstaged, hrun.valid, ?_⟩
    have hsame : s'.active = memcpyFrom s.active staged s'.activeLen := hactive
    rw [hsame]
    exact iotvHdr_congr fun i hi => if_pos (hi.trans hpos)

/-- A staged blob whose install returns 0 is installed. -/
theorem install_of_ret {path : InstallPath} {s : ModelState} {staged : Mem} {len : ℕ}
    (hstaged : path.staged fa flatbuffer s = some (staged, len))
    {r : (ℤ × Bytes) × ModelState}
    (hr : installFromStaging tflite fa.toFlashArea len path.options.1 path.options.2
      { s with staging := staged } = r) (hret : r.1.1 = 0) :
    path.install tflite fa flatbuffer s = some ((0, r.1.2), r.2) := by
  rw [InstallPath.install, hstaged, Option.map_some, hr, ← hret]

/-- The built-in model has a name that ends in its field. -/
theorem builtin_terminated {s : ModelState} {staged : Mem} {len : ℕ}
    (h : InstallPath.builtin.staged fa flatbuffer s = some (staged, len)) :
    0 ∈ (iotvHdr staged).name := by
  obtain ⟨rfl, -⟩ := Prod.mk.inj (Option.some.inj h)
  rw [stageBuiltin, (iotvHdr_wrap_names _ _ _ _).2]
  decide

end Installed

/-- **When the display name is a bounded string.** Whatever path has installed the active model, the
reads of its name stop inside the field and agree exactly when the field of the staged blob holds a
terminator. -/
theorem display_name_bounded_iff (tflite : Bytes → LoadResult) (fa : ReadableArea)
    (flatbuffer : Bytes) (path : InstallPath) (s s' : ModelState) (note : Bytes)
    (h : path.install tflite fa flatbuffer s = some ((0, note), s')) (more : ℕ) :
    NameBounded s'.active (s'.activeLen + more) ↔
      ∀ staged len, path.staged fa flatbuffer s = some (staged, len) →
        0 ∈ (iotvHdr staged).name := by
  obtain ⟨staged, hstaged, hvalid, hhdr⟩ := installed_active h
  constructor
  · -- the install copies the header, so the field is the staged one
    intro hbounded staged' len hstaged'
    obtain ⟨rfl, -⟩ := Prod.mk.inj (Option.some.inj (hstaged.symm.trans hstaged'))
    rw [← hhdr]
    exact terminated_of_bounded hvalid hbounded
  · intro hnul
    apply nameBounded_of_terminated hvalid
    rw [hhdr]
    exact hnul staged _ hstaged

/-- The flash partition of 7 MiB, without a crash. -/
def slot1Readable : ReadableArea := norArea (7 * 1024 * 1024) .never

/-- The small built-in model on a device before its first one. -/
theorem display_name_bounded_builtin : ∃ note s',
    InstallPath.builtin.install schemaOnly slot1Readable smallBuiltin blank =
      some ((0, note), s') ∧
    (NameBounded s'.active (s'.activeLen + 64) ↔ ∀ staged len,
      InstallPath.builtin.staged slot1Readable smallBuiltin blank = some (staged, len) →
        0 ∈ (iotvHdr staged).name) := by
  have hinstall : InstallPath.builtin.install schemaOnly slot1Readable smallBuiltin blank =
      some ((0, _), _) := install_of_ret rfl rfl (by decide +kernel)
  exact ⟨_, _, hinstall,
    display_name_bounded_iff schemaOnly slot1Readable smallBuiltin .builtin blank _ _ hinstall 64⟩

/-- A downloaded blob whose name fills the field. -/
def fullNameBody : Mem :=
  patch (iotvWrapInPlace (patch (fun _ => 0) hdrLen smallDownload) 12 2 []) nameOff
    (ascii "occupancy-people")

/-- The blob is installed; the telemetry reports its name with the first byte of the payload, after
looking at 18 bytes, and `model-info` reports the name without its last character. -/
theorem full_name_runs_on : ∃ note s',
    (InstallPath.download 44).install schemaOnly slot1Readable smallBuiltin
        { blank with staging := fullNameBody } = some ((0, note), s') ∧
      NameReader.telemetry.text s'.active (s'.activeLen + 64) = ascii "occupancy-people " ∧
      NameReader.telemetry.looks s'.active (s'.activeLen + 64) = 18 ∧
      NameReader.modelInfo.text s'.active (s'.activeLen + 64) = ascii "occupancy-peopl" ∧
      ¬ NameBounded s'.active (s'.activeLen + 64) := by
  have hstaged : (InstallPath.download 44).staged slot1Readable smallBuiltin
      { blank with staging := fullNameBody } = some (memmove fullNameBody 0 0 44, 44) := by
    have hnorm :
        normalizeStaged fullNameBody 44 = some (.ok (memmove fullNameBody 0 0 44, 44)) := by
      have hzip : memcmpEq fullNameBody 0 [0x50, 0x4B] = false := by decide +kernel
      have hiotv : 44 ≥ hdrLen ∧ memcmpEq fullNameBody 0 iotvMagic = true := by decide +kernel
      rw [normalizeStaged, if_neg (by simp [hzip]), normalizePayload, if_pos hiotv]
    simp only [InstallPath.staged, hnorm]
  refine ⟨_, _, install_of_ret hstaged rfl (by decide +kernel), by decide +kernel,
    by decide +kernel, by decide +kernel, ?_⟩
  intro h
  have hinside := h.inside .telemetry
  revert hinside
  decide +kernel

/-- The name of the built-in model is bounded. -/
theorem builtin_name_bounded (tflite : Bytes → LoadResult) (fa : ReadableArea) (flatbuffer : Bytes)
    (s s' : ModelState) (note : Bytes)
    (h : InstallPath.builtin.install tflite fa flatbuffer s = some ((0, note), s')) (more : ℕ) :
    NameBounded s'.active (s'.activeLen + more) := by
  obtain ⟨staged, hstaged, hvalid, hhdr⟩ := installed_active h
  apply nameBounded_of_terminated hvalid
  rw [hhdr]
  exact builtin_terminated hstaged

end IotcDemos.Vision
