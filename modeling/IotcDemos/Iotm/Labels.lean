import IotcDemos.Iotm.Record
import IotcDemos.Lib.CText

set_option autoImplicit false

/-! # The labels of a model, read as C strings

A label is a field of 12 bytes of the header. `sense_and_infer`, the log line of `model_install` and
`model-info` print labels with `%s`, which looks for a terminator wherever it is; neither the
checks of `model_validate` nor the CRC say that there is one in the field. `m` is the memory from
the header on, and `ram` the number of bytes in it.
-/

namespace IotcDemos.Iotm

def labelLen : ℕ := 12

/-- The offset of `labels[i]`. -/
def labelOff (i : ℕ) : ℕ := 12 + labelLen * i

/-- A `%s` of a label: what is reported, and how many bytes are looked at from its field on. -/
structure LabelRead where
  label : ℕ
  text : Bytes
  looks : ℕ

def labelRead (m : Mem) (ram i : ℕ) : LabelRead where
  label := i
  text := cText m (labelOff i) (ram - labelOff i)
  looks := cLooks m (labelOff i) (ram - labelOff i)

/-- What is reported when the destination has room for `n` characters. -/
def LabelRead.cut (r : LabelRead) (n : ℕ) : LabelRead := { r with text := r.text.take n }

/-- The places that read labels; `model_install` reads them from its argument, the other two from
`model_blob`. -/
inductive LabelReader where
  | senseAndInfer
  | modelInstall
  | modelInfo
  deriving DecidableEq

/-- What a place reads, while the model at `m` is active and infers the class of `x`. -/
def LabelReader.reads {F : Type} (A : FloatArith F) (x : ℕ → F) (m : Mem) (ram : ℕ) :
    LabelReader → List LabelRead
  -- `char label[13]`
  | senseAndInfer => [(labelRead m ram (modelInfer A m x)).cut 12]
  | modelInstall =>
      [labelRead m ram 0, labelRead m ram 1] ++
        (if (modelHdr m).nOut > 2 then [labelRead m ram 2] else []) ++
        (if (modelHdr m).nOut > 3 then [labelRead m ram 3] else [])
  | modelInfo =>
      [labelRead m ram 0, labelRead m ram 1] ++
        (if (modelHdr m).nOut > 2 then [labelRead m ram 2] else [])

/-- Wherever the model lies and whatever its input is, every read of a label stays in the field of
the label and reports that label. -/
def LabelsReadable (blob : Bytes) : Prop :=
  ∀ (F : Type) (A : FloatArith F) (x : ℕ → F) (m : Mem) (more : ℕ),
    bytesAt m 0 blob.length = blob →
      ∀ (reader : LabelReader), ∀ r ∈ reader.reads A x m (blob.length + more),
        r.looks ≤ labelLen ∧ r.text = labelAt blob r.label

/-- The number of labels that are printed: two at least, and one for each class. -/
def labelsPrinted (h : ModelHdr) : ℕ := max 2 h.nOut.toNat

/-! ## What is read -/

theorem labels_getD (rd : ℕ → UInt8) {i : ℕ} (hi : i < 4) :
    (modelHdr rd).labels.getD i [] = bytesAt rd (labelOff i) labelLen := getD_range_map _ _ hi

section Reads

variable {F : Type} {A : FloatArith F} {x : ℕ → F} {m : Mem} {ram : ℕ} {r : LabelRead}

/-- Every read is one of a label that is printed, and reports it whole or cut to its length. -/
theorem reads_spec (hout : 1 ≤ (modelHdr m).nOut.toNat) {reader : LabelReader}
    (hr : r ∈ reader.reads A x m ram) : r.label < labelsPrinted (modelHdr m) ∧
      r.looks = (labelRead m ram r.label).looks ∧
      (r.text = (labelRead m ram r.label).text ∨
        r.text = (labelRead m ram r.label).text.take labelLen) := by
  have hmore : ∀ k : UInt8, (modelHdr m).nOut > k → k.toNat < labelsPrinted (modelHdr m) := by
    intro k hk
    exact lt_of_lt_of_le (UInt8.lt_iff_toNat_lt.mp hk) (le_max_right 2 _)
  have htwo : 2 ≤ labelsPrinted (modelHdr m) := le_max_left 2 _
  have hwhole : ∀ i, i < labelsPrinted (modelHdr m) → r = labelRead m ram i →
      r.label < labelsPrinted (modelHdr m) ∧ r.looks = (labelRead m ram r.label).looks ∧
      (r.text = (labelRead m ram r.label).text ∨
        r.text = (labelRead m ram r.label).text.take labelLen) := by
    rintro i hi rfl
    exact ⟨hi, rfl, Or.inl rfl⟩
  cases reader with
  | senseAndInfer =>
      obtain rfl := List.mem_singleton.mp hr
      have hcls : modelInfer A m x < (modelHdr m).nOut.toNat := runningArgmax_lt _ _ hout
      exact ⟨lt_of_lt_of_le hcls (le_max_right 2 _), rfl, Or.inr rfl⟩
  | modelInstall =>
      simp only [LabelReader.reads, List.mem_append, List.mem_cons, List.not_mem_nil, or_false,
        List.mem_ite_nil_right] at hr
      rcases hr with ((h | h) | ⟨hk, h⟩) | ⟨hk, h⟩
      · exact hwhole 0 (by omega) h
      · exact hwhole 1 (by omega) h
      · exact hwhole 2 (hmore 2 hk) h
      · exact hwhole 3 (hmore 3 hk) h
  | modelInfo =>
      simp only [LabelReader.reads, List.mem_append, List.mem_cons, List.not_mem_nil, or_false,
        List.mem_ite_nil_right] at hr
      rcases hr with (h | h) | ⟨hk, h⟩
      · exact hwhole 0 (by omega) h
      · exact hwhole 1 (by omega) h
      · exact hwhole 2 (hmore 2 hk) h

/-- The log line of an install reads every label that is printed. -/
theorem mem_installReads {i : ℕ} (hout : (modelHdr m).nOut.toNat ≤ 4)
    (hi : i < labelsPrinted (modelHdr m)) :
    labelRead m ram i ∈ LabelReader.modelInstall.reads A x m ram := by
  have hmore : ∀ k : UInt8, k.toNat < (modelHdr m).nOut.toNat → (modelHdr m).nOut > k :=
    fun k hk => UInt8.lt_iff_toNat_lt.mpr hk
  have hlt : i < 2 ∨ i < (modelHdr m).nOut.toNat := lt_max_iff.mp hi
  have hcases : i = 0 ∨ i = 1 ∨ (i = 2 ∧ 2 < (modelHdr m).nOut.toNat) ∨
      (i = 3 ∧ 3 < (modelHdr m).nOut.toNat) := by omega
  rcases hcases with rfl | rfl | ⟨rfl, hk⟩ | ⟨rfl, hk⟩
  · simp [LabelReader.reads]
  · simp [LabelReader.reads]
  · simp [LabelReader.reads, hmore 2 hk]
  · simp [LabelReader.reads, hmore 3 hk]

end Reads

/-! ## Where the terminator is -/

/-- A memory that holds a blob has its bytes. -/
theorem byte_of_holds {m : Mem} {blob : Bytes} (h : bytesAt m 0 blob.length = blob) {i : ℕ}
    (hi : i < blob.length) : m i = byteAt blob i := by
  calc m i = byteAt (bytesAt m 0 blob.length) i := by rw [byteAt_bytesAt m 0 hi, Nat.zero_add]
    _ = byteAt blob i := by rw [h]

/-- The labels lie in front of the weights. -/
theorem labelOff_add_lt {blob : Bytes} (hvalid : ModelValid blob) {i : ℕ} (hi : i < 4) :
    labelOff i + labelLen < blob.length := by
  have hhead : 64 ≤ blob.length := hvalid.header
  unfold labelOff labelLen
  omega

section Holds

variable {blob : Bytes} {m : Mem} {more : ℕ}

theorem modelHdr_of_holds (hvalid : ModelValid blob) (hm : bytesAt m 0 blob.length = blob) :
    (modelHdr m).nOut = (modelHdr (byteAt blob)).nOut := by
  have hhead : 64 ≤ blob.length := hvalid.header
  exact byte_of_holds hm (by omega)

/-- The field of a label in memory is that of the blob. -/
theorem labelField_of_holds (hvalid : ModelValid blob) (hm : bytesAt m 0 blob.length = blob)
    {i : ℕ} (hi : i < 4) :
    bytesAt m (labelOff i) labelLen = (modelHdr (byteAt blob)).labels.getD i [] := by
  have hin := labelOff_add_lt hvalid hi
  rw [labels_getD _ hi]
  exact bytesAt_congr fun j _ hj => byte_of_holds hm (by omega)

/-- A label with a terminator is read in its field, and reported. -/
theorem labelRead_terminated (hvalid : ModelValid blob) (hm : bytesAt m 0 blob.length = blob)
    {i : ℕ} (hi : i < 4) (hnul : 0 ∈ (modelHdr (byteAt blob)).labels.getD i []) :
    (labelRead m (blob.length + more) i).looks ≤ labelLen ∧
      (labelRead m (blob.length + more) i).text = labelAt blob i := by
  have hin := labelOff_add_lt hvalid hi
  rw [← labelField_of_holds hvalid hm hi] at hnul
  constructor
  · exact (cLooks_le_iff (by omega)).mpr hnul
  · calc cText m (labelOff i) (blob.length + more - labelOff i)
        = cText m (labelOff i) labelLen := cText_field hnul (by omega)
      _ = cText (byteAt blob) (labelOff i) labelLen :=
          cText_congr fun j _ hj => byte_of_holds hm (by omega)

end Holds

/-- Readable labels hold a terminator each. -/
theorem terminated_of_readable {blob : Bytes} (hvalid : ModelValid blob) (h : LabelsReadable blob)
    {i : ℕ} (hi : i < labelsPrinted (modelHdr (byteAt blob))) :
    0 ∈ (modelHdr (byteAt blob)).labels.getD i [] := by
  obtain ⟨-, -, -, hout4⟩ := ModelHdr.dims_bounds hvalid.dims
  have hi4 : i < 4 := lt_of_lt_of_le hi (max_le (by omega) hout4)
  have hself : bytesAt (byteAt blob) 0 blob.length = blob := by
    rw [bytesAt_byteAt (by omega), List.drop_zero, List.take_length]
  have hin := labelOff_add_lt hvalid hi4
  have hread := h ℚ exactArith (fun _ => 0) (byteAt blob) 0 hself .modelInstall _
    (mem_installReads hout4 hi)
  rw [labels_getD _ hi4]
  exact (cLooks_le_iff (by omega)).mp hread.1

/-- **When the labels of an accepted model are readable**: exactly when the fields of the first two
labels, and of every label that names a class, hold a terminator. -/
theorem labels_readable_iff (blob : Bytes) (hvalid : modelValidate blob = none) :
    LabelsReadable blob ↔ ∀ i, i < labelsPrinted (modelHdr (byteAt blob)) →
      0 ∈ (modelHdr (byteAt blob)).labels.getD i [] := by
  have hblob := modelValidate_eq_none.mp hvalid
  obtain ⟨-, -, hout, hout4⟩ := ModelHdr.dims_bounds hblob.dims
  have hprinted : labelsPrinted (modelHdr (byteAt blob)) ≤ 4 := max_le (by omega) hout4
  constructor
  · intro h i hi
    exact terminated_of_readable hblob h hi
  · intro h F A x m more hm reader r hr
    have hhdr := modelHdr_of_holds hblob hm
    have hsame : labelsPrinted (modelHdr m) = labelsPrinted (modelHdr (byteAt blob)) := by
      rw [labelsPrinted, labelsPrinted, hhdr]
    obtain ⟨hlt, hlooks, htext⟩ := reads_spec (by rw [hhdr]; exact hout) hr
    rw [hsame] at hlt
    obtain ⟨hin, hwhole⟩ := labelRead_terminated hblob hm
      (Nat.lt_of_lt_of_le hlt hprinted) (h r.label hlt)
    refine ⟨by rw [hlooks]; exact hin, ?_⟩
    rcases htext with htext | htext
    · rw [htext, hwhole]
    -- a label that ends in its field is not cut
    · rw [htext, hwhole]
      exact List.take_of_length_le (cText_length_le _ _ _)

/-- The labels of the built-in model are readable. -/
theorem labels_readable_builtin : LabelsReadable modelBuiltin :=
  (labels_readable_iff modelBuiltin (modelValidate_eq_none.mpr modelBuiltin_valid)).mpr (by decide)

/-- The built-in model with the label `"pitch-black!"`, which fills its field, for the class 0. -/
def fullLabelModel : Bytes := blit modelBuiltin 12 (ascii "pitch-black!")

/-- The model is accepted; the log line of its install reports its first label with the second one
behind it, after looking at 16 bytes. -/
theorem full_label_runs_on : modelValidate fullLabelModel = none ∧
    (labelRead (byteAt fullLabelModel) fullLabelModel.length 0).text = ascii "pitch-black!dim" ∧
    (labelRead (byteAt fullLabelModel) fullLabelModel.length 0).looks = 16 ∧
    ¬ LabelsReadable fullLabelModel := by
  have hvalid : modelValidate fullLabelModel = none := by decide +kernel
  refine ⟨hvalid, by decide +kernel, by decide +kernel, ?_⟩
  intro h
  have hnul := terminated_of_readable (modelValidate_eq_none.mp hvalid) h (i := 0) (by decide)
  revert hnul
  decide +kernel

end IotcDemos.Iotm
