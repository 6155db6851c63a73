import IotcDemos.Iotm.Infer

set_option autoImplicit false

/-! # The packer of the tool

`packModel` is `pack_model` of `tools/build_model.py`; it has no result where an assertion or
`struct.pack` raises. A weight is a value of any type `R`, and `f32` is what `struct.pack` writes for
it with `<f`. `PackedRead` says that the firmware accepts a blob and reads the packed arguments
back from it.
-/

namespace IotcDemos.Iotm

/-- `s.encode()`. -/
def encodeUtf8 (s : String) : Bytes := s.toUTF8.data.toList

/-- `b.ljust(n, b"\0")`. -/
def ljust (n : ℕ) (b : Bytes) : Bytes := b ++ List.replicate (n - b.length) 0

/-- The arguments of `pack_model`. -/
structure PackArgs (R : Type) where
  modelVer : ℕ
  labels : List String
  ledMask : ℕ
  w1 : List (List R)
  b1 : List R
  w2 : List (List R)
  b2 : List R

namespace PackArgs

variable {R : Type} (a : PackArgs R)

/-- `len(w1[0])`. -/
def nIn : ℕ := (a.w1.headD []).length

/-- The list `weights` of `pack_model`. -/
def weights : List R := a.w1.flatten ++ a.b1 ++ a.w2.flatten ++ a.b2

/-- What `pack_model` needs to get to its end: the row that it measures, its assertions, and the
ranges of `struct.pack`. -/
def Passes : Prop :=
  a.w1 ≠ [] ∧ (a.nIn ≤ 4 ∧ a.b1.length ≤ 16 ∧ a.b2.length ≤ 4) ∧
    (a.labels.length = a.b2.length ∧ ∀ s ∈ a.labels, s.length < 12) ∧
    a.modelVer < 2 ^ 16 ∧ a.ledMask < 2 ^ 8

instance : Decidable a.Passes := by
  unfold Passes
  infer_instance

/-- The 48 bytes for the labels, if they fit. -/
def labelBytes : Bytes := ljust 48 (a.labels.flatMap fun s => ljust 12 (encodeUtf8 s))

/-- The fields before the labels. -/
def fixedFields : Bytes :=
  modelMagic ++ toLe16 1 ++ toLe16 (UInt16.ofNat a.modelVer) ++
    [UInt8.ofNat a.nIn, UInt8.ofNat a.b1.length, UInt8.ofNat a.b2.length, UInt8.ofNat a.ledMask]

end PackArgs

/-- `pack_model`. -/
def packModel {R : Type} (f32 : R → Option UInt32) (a : PackArgs R) : Option Bytes :=
  match a.weights.mapM f32 with
  | none => none
  | some words =>
      if a.Passes then
        let wbytes := words.flatMap toLe32
        some (a.fixedFields ++ a.labelBytes ++ toLe32 (Crc32.ieee wbytes) ++ wbytes)
      else none

/-- The matrix of `rows` rows of length `m` that the engine reads at the index `k` of the weights
section. -/
def matrixAt (blob : Bytes) (k rows m : ℕ) : List (List UInt32) :=
  (List.range rows).map fun i => (List.range m).map fun j =>
    le32At (byteAt blob) (modelHdrLen.toNat + 4 * (k + i * m + j))

/-- The firmware accepts the blob, and reads the arguments back. -/
structure PackedRead {R : Type} (f32 : R → Option UInt32) (a : PackArgs R) (blob : Bytes) :
    Prop where
  accepted : modelValidate blob = none
  modelVer : (modelHdr (byteAt blob)).modelVer.toNat = a.modelVer
  nIn : (modelHdr (byteAt blob)).nIn.toNat = a.nIn
  nHid : (modelHdr (byteAt blob)).nHid.toNat = a.b1.length
  nOut : (modelHdr (byteAt blob)).nOut.toNat = a.b2.length
  ledMask : (modelHdr (byteAt blob)).ledMask.toNat = a.ledMask
  labels : ∀ (i : ℕ) (s : String), a.labels[i]? = some s →
    (modelHdr (byteAt blob)).labels[i]? = some (ljust 12 (encodeUtf8 s))
  w1 : a.w1.map (List.map f32) =
    (matrixAt blob 0 a.b1.length a.nIn).map (List.map some)
  b1 : [a.b1.map f32] =
    (matrixAt blob (modelHdr (byteAt blob)).b1 1 a.b1.length).map (List.map some)
  w2 : a.w2.map (List.map f32) =
    (matrixAt blob (modelHdr (byteAt blob)).w2 a.b2.length a.b1.length).map (List.map some)
  b2 : [a.b2.map f32] =
    (matrixAt blob (modelHdr (byteAt blob)).b2 1 a.b2.length).map (List.map some)

namespace PackArgs

/-- The matrices have the shapes that the biases give them, and the UTF-8 form of a label fits its
field. -/
structure Fits {R : Type} (a : PackArgs R) : Prop where
  rows1 : a.w1.length = a.b1.length
  cols1 : ∀ row ∈ a.w1, row.length = a.nIn
  rows2 : a.w2.length = a.b2.length
  cols2 : ∀ row ∈ a.w2, row.length = a.b1.length
  labels : ∀ s ∈ a.labels, (encodeUtf8 s).length ≤ 12

end PackArgs

/-! ## The layout -/

theorem ljust_length {n : ℕ} {b : Bytes} (h : b.length ≤ n) : (ljust n b).length = n := by
  rw [ljust, List.length_append, List.length_replicate]
  omega

/-- What `mapM` writes for each element. -/
theorem mapM_getElem? {α β : Type} {f : α → Option β} {l : List α} {l' : List β}
    (h : l.mapM f = some l') {i : ℕ} {x : α} (hx : l[i]? = some x) : f x = l'[i]? := by
  induction l generalizing l' i with
  | nil => cases hx
  | cons y l ih =>
      simp only [List.mapM_cons, Option.bind_eq_bind, Option.bind_eq_some_iff] at h
      obtain ⟨b, hb, bs, hbs, hl'⟩ := h
      obtain rfl := Option.some.inj hl'
      cases i with
      | zero =>
          obtain rfl : y = x := by simpa using hx
          simpa using hb
      | succ i => simpa using ih hbs (by simpa using hx)

theorem mapM_length {α β : Type} {f : α → Option β} {l : List α} {l' : List β}
    (h : l.mapM f = some l') : l'.length = l.length := by
  induction l generalizing l' with
  | nil =>
      obtain rfl : [] = l' := by simpa using h
      rfl
  | cons y l ih =>
      simp only [List.mapM_cons, Option.bind_eq_bind, Option.bind_eq_some_iff] at h
      obtain ⟨b, -, bs, hbs, hl'⟩ := h
      obtain rfl := Option.some.inj hl'
      rw [List.length_cons, List.length_cons, ih hbs]

section Layout

variable {R : Type} {f32 : R → Option UInt32} {a : PackArgs R} {words : List UInt32}

/-- The blob that `pack_model` returns. -/
def packedBlob (a : PackArgs R) (words : List UInt32) : Bytes :=
  a.fixedFields ++ a.labelBytes ++ toLe32 (Crc32.ieee (words.flatMap toLe32)) ++
    words.flatMap toLe32

theorem packModel_eq_some {blob : Bytes} (h : packModel f32 a = some blob) :
    a.Passes ∧ ∃ words, a.weights.mapM f32 = some words ∧ blob = packedBlob a words := by
  unfold packModel at h
  cases hwords : a.weights.mapM f32 with
  | none => simp [hwords] at h
  | some words =>
      simp only [hwords] at h
      split at h
      · next hpass => exact ⟨hpass, words, rfl, (Option.some.inj h).symm⟩
      · cases h

/-- The fixed fields are read back, whatever lies behind them. -/
theorem packed_fixed (rest : Bytes) :
    let rd := byteAt (a.fixedFields ++ rest)
    bytesAt rd 0 4 = modelMagic ∧ le16At rd 4 = 1 ∧ le16At rd 6 = UInt16.ofNat a.modelVer ∧
      rd 8 = UInt8.ofNat a.nIn ∧ rd 9 = UInt8.ofNat a.b1.length ∧
      rd 10 = UInt8.ofNat a.b2.length ∧ rd 11 = UInt8.ofNat a.ledMask :=
  ⟨rfl, rfl, le16At_eq rfl rfl, rfl, rfl, rfl, rfl⟩

theorem fixedFields_length (a : PackArgs R) : a.fixedFields.length = 12 := rfl

/-- Labels that fit their fields fill 48 bytes, each behind the one before. -/
theorem labelBytes_length (hfits : a.Fits) (hpass : a.Passes) : a.labelBytes.length = 48 := by
  have hlen := flatMap_const_length (f := fun s => ljust 12 (encodeUtf8 s))
    fun s hs => ljust_length (hfits.labels s hs)
  obtain ⟨-, ⟨-, -, hout⟩, ⟨hcount, -⟩, -⟩ := hpass
  apply ljust_length
  rw [hlen, hcount]
  omega

/-- Every word of the weights section is what `struct.pack` has written for its weight. -/
theorem packed_word (hwords : a.weights.mapM f32 = some words) (hlab : a.labelBytes.length = 48)
    {k : ℕ} {x : R} (hx : a.weights[k]? = some x) :
    f32 x = some (le32At (byteAt (packedBlob a words)) (modelHdrLen.toNat + 4 * k)) := by
  have hk : k < words.length := by
    rw [mapM_length hwords]
    exact (List.getElem?_eq_some_iff.mp hx).1
  have hhead : (a.fixedFields ++ a.labelBytes ++
      toLe32 (Crc32.ieee (words.flatMap toLe32))).length = modelHdrLen.toNat := by
    rw [List.length_append, List.length_append, fixedFields_length, hlab, toLe32_length]
    rfl
  have hword := List.getElem?_eq_getElem hk
  rw [mapM_getElem? hwords hx, hword, packedBlob, ← hhead, le32At_words _ hword]

/-- Rows of one length that lie behind one another in the weights are the matrix read there. -/
theorem matrixAt_rows {blob : Bytes} {m : ℕ} (hread : ∀ k x, a.weights[k]? = some x →
      f32 x = some (le32At (byteAt blob) (modelHdrLen.toNat + 4 * k)))
    (rows : List (List R)) (pre post : List R) (hat : a.weights = pre ++ rows.flatten ++ post)
    (hcols : ∀ row ∈ rows, row.length = m) :
    rows.map (List.map f32) =
      (matrixAt blob pre.length rows.length m).map (List.map some) := by
  induction rows generalizing pre with
  | nil => rfl
  | cons row rows ih =>
      have hlen := hcols row List.mem_cons_self
      rw [List.flatten_cons] at hat
      have hrest := ih (pre ++ row) (by rw [hat]; simp)
        fun r hr => hcols r (List.mem_cons_of_mem _ hr)
      have hsplit : matrixAt blob pre.length (rows.length + 1) m =
          ((List.range m).map fun j =>
            le32At (byteAt blob) (modelHdrLen.toNat + 4 * (pre.length + j))) ::
          matrixAt blob (pre ++ row).length rows.length m := by
        rw [matrixAt, List.range_succ_eq_map, List.map_cons, List.map_map, matrixAt,
          List.length_append, hlen]
        congr 1
        · simp
        · refine List.map_congr_left fun i _ => List.map_congr_left fun j _ => ?_
          have hidx : pre.length + (i + 1) * m + j = pre.length + m + i * m + j := by ring
          exact congrArg (fun k => le32At (byteAt blob) (modelHdrLen.toNat + 4 * k)) hidx
      rw [List.map_cons, List.length_cons, hsplit, List.map_cons, ← hrest]
      congr 1
      -- the first row, weight by weight
      apply List.ext_getElem?
      intro j
      rcases Nat.lt_or_ge j row.length with hj | hj
      · have hx : a.weights[pre.length + j]? = some row[j] := by
          rw [hat]
          simp [List.getElem?_append, hj]
        have hjm : j < m := hlen ▸ hj
        simp [hj, hjm, hread _ _ hx]
      · simp [hj, hlen ▸ hj]

/-- The number of weights, for matrices of the right shapes. -/
theorem weights_length (hfits : a.Fits) : a.weights.length =
    a.b1.length * a.nIn + a.b1.length + a.b2.length * a.b1.length + a.b2.length := by
  have hflat : ∀ (l : List (List R)) (m : ℕ), (∀ row ∈ l, row.length = m) →
      l.flatten.length = l.length * m := by
    intro l m hl
    rw [List.length_flatten, List.map_congr_left hl]
    simp
  simp only [PackArgs.weights, List.length_append]
  rw [hflat _ _ hfits.cols1, hflat _ _ hfits.cols2, hfits.rows1, hfits.rows2]

/-- The dimensions are read back. -/
theorem packed_dims (hpass : a.Passes) (words : List UInt32) :
    let h := modelHdr (byteAt (packedBlob a words))
    h.modelVer.toNat = a.modelVer ∧ h.nIn.toNat = a.nIn ∧ h.nHid.toNat = a.b1.length ∧
      h.nOut.toNat = a.b2.length ∧ h.ledMask.toNat = a.ledMask := by
  intro h
  have hsplit : packedBlob a words = a.fixedFields ++ (a.labelBytes ++
      (toLe32 (Crc32.ieee (words.flatMap toLe32)) ++ words.flatMap toLe32)) := by
    simp [packedBlob]
  obtain ⟨-, -, hver, hin, hhid, hout, hled⟩ := packed_fixed (a := a) (a.labelBytes ++
    (toLe32 (Crc32.ieee (words.flatMap toLe32)) ++ words.flatMap toLe32))
  rw [← hsplit] at hver hin hhid hout hled
  obtain ⟨-, ⟨hin4, hhid16, hout4⟩, -, hver16, hled8⟩ := hpass
  have hbyte : UInt8.size = 256 := rfl
  refine ⟨?_, ?_, ?_, ?_, ?_⟩
  · exact (congrArg UInt16.toNat hver).trans (UInt16.toNat_ofNat_of_lt' hver16)
  · exact (congrArg UInt8.toNat hin).trans (UInt8.toNat_ofNat_of_lt' (by omega))
  · exact (congrArg UInt8.toNat hhid).trans (UInt8.toNat_ofNat_of_lt' (by omega))
  · exact (congrArg UInt8.toNat hout).trans (UInt8.toNat_ofNat_of_lt' (by omega))
  · exact (congrArg UInt8.toNat hled).trans (UInt8.toNat_ofNat_of_lt' hled8)

/-- Arguments that fit are accepted. -/
theorem packed_valid (hpass : a.Passes) (hwords : a.weights.mapM f32 = some words)
    (hin : 1 ≤ a.nIn) (hhid : 1 ≤ a.b1.length) (hout : 1 ≤ a.b2.length) (hfits : a.Fits) :
    ModelValid (packedBlob a words) := by
  have hlab := labelBytes_length hfits hpass
  obtain ⟨-, hdin, hdhid, hdout, -⟩ := packed_dims hpass words
  have hsplit : packedBlob a words = a.fixedFields ++ (a.labelBytes ++
      (toLe32 (Crc32.ieee (words.flatMap toLe32)) ++ words.flatMap toLe32)) := by
    simp [packedBlob]
  have hhead : (a.fixedFields ++ a.labelBytes).length = 60 := by
    rw [List.length_append, fixedFields_length, hlab]
  have hfour : ∀ w ∈ words, (toLe32 w).length = 4 := fun w _ => toLe32_length w
  have hlen : (packedBlob a words).length = 64 + 4 * words.length := by
    rw [packedBlob, List.length_append, List.length_append, hhead, toLe32_length,
      flatMap_const_length hfour]
  have hcount := (mapM_length hwords).trans (weights_length hfits)
  have h64 : modelHdrLen.toNat = 64 := rfl
  obtain ⟨-, ⟨hin4, hhid16, hout4⟩, -⟩ := hpass
  constructor
  · omega
  · rw [hsplit]
    exact (packed_fixed (a := a) _).1
  · rw [hsplit]
    exact (packed_fixed (a := a) _).2.1
  · exact ModelHdr.dims_of_bounds (by omega) (by omega) (by omega)
  · rw [hlen, modelWeightsLen, ModelHdr.weights, hdin, hdhid, hdout, hcount, h64]
  · have hcrc : (modelHdr (byteAt (packedBlob a words))).crc =
        Crc32.ieee (words.flatMap toLe32) := by
      have hread := le32At_append (a.fixedFields ++ a.labelBytes)
        (Crc32.ieee (words.flatMap toLe32)) (words.flatMap toLe32)
      rw [hhead] at hread
      rw [← hread]
      simp [packedBlob, modelHdr]
    have hdrop : (packedBlob a words).drop modelHdrLen.toNat = words.flatMap toLe32 := by
      rw [packedBlob, List.drop_left']
      rw [List.length_append, hhead, toLe32_length]
      rfl
    rw [hdrop, hcrc]

/-- The label fields are read back. -/
theorem packed_labels (hpass : a.Passes) (hfits : a.Fits) (words : List UInt32) {i : ℕ}
    {s : String} (hs : a.labels[i]? = some s) :
    (modelHdr (byteAt (packedBlob a words))).labels[i]? = some (ljust 12 (encodeUtf8 s)) := by
  have hlab := labelBytes_length hfits hpass
  obtain ⟨-, ⟨-, -, hout4⟩, ⟨hcount, -⟩, -⟩ := hpass
  have hi : i < 4 := by
    have := (List.getElem?_eq_some_iff.mp hs).1
    omega
  have hpiece := flatMap_piece (f := fun s => ljust 12 (encodeUtf8 s))
    (List.replicate (48 - (a.labels.flatMap fun s => ljust 12 (encodeUtf8 s)).length) 0 ++
      (toLe32 (Crc32.ieee (words.flatMap toLe32)) ++ words.flatMap toLe32))
    (fun s hs => ljust_length (hfits.labels s hs)) hs
  have hfield : bytesAt (byteAt (packedBlob a words)) (12 + 12 * i) 12 =
      ljust 12 (encodeUtf8 s) := by
    rw [bytesAt_byteAt, ← hpiece, ← List.drop_drop]
    · have hdrop : (packedBlob a words).drop 12 = a.labelBytes ++
          (toLe32 (Crc32.ieee (words.flatMap toLe32)) ++ words.flatMap toLe32) := by
        rw [packedBlob, List.append_assoc, List.append_assoc]
        exact List.drop_left' (fixedFields_length a)
      rw [hdrop, PackArgs.labelBytes, ljust, List.append_assoc]
    · simp only [packedBlob, List.length_append, fixedFields_length, hlab]
      omega
  simp only [modelHdr]
  rw [List.getElem?_map, List.getElem?_range hi, Option.map_some, hfield]

/-- Arguments that fit are accepted and read back. -/
theorem packedRead_of_fits (hpass : a.Passes) (hwords : a.weights.mapM f32 = some words)
    (hin : 1 ≤ a.nIn) (hhid : 1 ≤ a.b1.length) (hout : 1 ≤ a.b2.length) (hfits : a.Fits) :
    PackedRead f32 a (packedBlob a words) := by
  have hread : ∀ k x, a.weights[k]? = some x → _ := fun k x =>
    packed_word hwords (labelBytes_length hfits hpass)
  obtain ⟨hver, hdin, hdhid, hdout, hled⟩ := packed_dims hpass words
  have hflat1 : a.w1.flatten.length = a.b1.length * a.nIn := by
    rw [List.length_flatten, List.map_congr_left hfits.cols1]
    simp [hfits.rows1]
  have hflat2 : a.w2.flatten.length = a.b2.length * a.b1.length := by
    rw [List.length_flatten, List.map_congr_left hfits.cols2]
    simp [hfits.rows2]
  have hmatrix := fun rows pre post m => matrixAt_rows (m := m) hread rows pre post
  refine ⟨modelValidate_eq_none.mpr (packed_valid hpass hwords hin hhid hout hfits), hver, hdin,
    hdhid, hdout, hled, fun i s => packed_labels hpass hfits words, ?_, ?_, ?_, ?_⟩
  · have h := hmatrix a.w1 [] (a.b1 ++ a.w2.flatten ++ a.b2) a.nIn
      (by simp [PackArgs.weights]) hfits.cols1
    rwa [hfits.rows1] at h
  · have h := hmatrix [a.b1] a.w1.flatten (a.w2.flatten ++ a.b2) a.b1.length
      (by simp [PackArgs.weights]) (by simp)
    rw [ModelHdr.b1, hdhid, hdin, ← hflat1]
    exact h
  · have h := hmatrix a.w2 (a.w1.flatten ++ a.b1) a.b2 a.b1.length
      (by simp [PackArgs.weights]) hfits.cols2
    rw [List.length_append, hflat1, hfits.rows2] at h
    rw [ModelHdr.w2, ModelHdr.b1, hdhid, hdin]
    exact h
  · have h := hmatrix [a.b2] (a.w1.flatten ++ a.b1 ++ a.w2.flatten) [] a.b2.length
      (by simp [PackArgs.weights]) (by simp)
    rw [List.length_append, List.length_append, hflat1, hflat2] at h
    rw [ModelHdr.b2, ModelHdr.w2, ModelHdr.b1, hdhid, hdin, hdout]
    exact h

/-- Only arguments that fit are read back. -/
theorem fits_of_packedRead {blob : Bytes} (h : PackedRead f32 a blob) : a.Fits := by
  have hrows : ∀ (l : List (List R)) (k n m : ℕ),
      l.map (List.map f32) = (matrixAt blob k n m).map (List.map some) →
        l.length = n ∧ ∀ row ∈ l, row.length = m := by
    intro l k n m heq
    constructor
    · simpa [matrixAt] using congrArg List.length heq
    · intro row hrow
      have hmem : row.map f32 ∈ (matrixAt blob k n m).map (List.map some) := by
        rw [← heq]
        exact List.mem_map_of_mem hrow
      obtain ⟨r, hr, hsame⟩ := List.mem_map.mp hmem
      obtain ⟨i, -, rfl⟩ := List.mem_map.mp hr
      simpa using (congrArg List.length hsame).symm
  obtain ⟨hrows1, hcols1⟩ := hrows _ _ _ _ h.w1
  obtain ⟨hrows2, hcols2⟩ := hrows _ _ _ _ h.w2
  refine ⟨hrows1, hcols1, hrows2, hcols2, ?_⟩
  intro s hs
  obtain ⟨i, hi⟩ := List.getElem?_of_mem hs
  -- a field of the header has 12 bytes
  have hfield : (ljust 12 (encodeUtf8 s)).length = 12 := by
    have hmem := List.mem_of_getElem? (h.labels i s hi)
    obtain ⟨j, -, hj⟩ := List.mem_map.mp hmem
    rw [← hj, bytesAt_length]
  rw [ljust, List.length_append, List.length_replicate] at hfield
  omega

end Layout

/-- **When the firmware reads back what was packed.** A blob that `pack_model` returns, for at
least one input, hidden unit and output, is accepted and read back exactly when the matrices have
the shapes of the biases and the UTF-8 form of every label has at most 12 bytes. -/
theorem packed_is_read_back_iff {R : Type} (f32 : R → Option UInt32) (a : PackArgs R) (blob : Bytes)
    (hpack : packModel f32 a = some blob) (hin : 1 ≤ a.nIn) (hhid : 1 ≤ a.b1.length)
    (hout : 1 ≤ a.b2.length) : PackedRead f32 a blob ↔ a.Fits := by
  obtain ⟨hpass, words, hwords, rfl⟩ := packModel_eq_some hpack
  constructor
  · intro h
    exact fits_of_packedRead h
  · intro hfits
    exact packedRead_of_fits hpass hwords hin hhid hout hfits

/-- Arguments of `pack_model` with one input and one hidden unit, and zero weights. -/
def oneUnitArgs (labels : List String) : PackArgs UInt32 where
  modelVer := 1
  labels := labels
  ledMask := 1
  w1 := [[0]]
  b1 := [0]
  w2 := labels.map fun _ => [0]
  b2 := labels.map fun _ => 0

/-- A model with the labels `"cool"` and `"warm"` is read back. -/
theorem packed_is_read_back_two_labels :
    PackedRead some (oneUnitArgs ["cool", "warm"])
      (packedBlob (oneUnitArgs ["cool", "warm"]) [0, 0, 0, 0, 0, 0]) :=
  (packed_is_read_back_iff some (oneUnitArgs ["cool", "warm"]) _ (by decide +kernel) (by decide)
    (by decide) (by decide)).mpr
    ⟨rfl, by decide, rfl, by decide, by decide +kernel⟩

/-- Four labels of seven characters pass the assertions, take 56 bytes in UTF-8 and make a blob
that the firmware rejects. -/
theorem packed_labels_overflow :
    ∃ blob, packModel some (oneUnitArgs ["ééééééé", "ééééééé", "ééééééé", "ééééééé"]) = some blob ∧
      modelValidate blob ≠ none := by
  refine ⟨packedBlob (oneUnitArgs ["ééééééé", "ééééééé", "ééééééé", "ééééééé"])
    (List.replicate 10 0), ?_, ?_⟩
  · decide +kernel
  · decide +kernel

end IotcDemos.Iotm
