import IotcDemos.Iotm.Pack

set_option autoImplicit false

/-! # The banded models of the tool

`banded_model` makes a classifier of a projection and two thresholds. Floats are taken as exact:
`unpack` is the value that `struct.unpack` gives for a word, and it is assumed to give the weights
back.
-/

namespace IotcDemos.Iotm

/-- The arguments of `banded_model`. -/
structure Banded where
  modelVer : ℕ
  labels : List String
  ledMask : ℕ
  wFeat : List ℚ
  lo : ℚ
  hi : ℚ

namespace Banded

/-- What `banded_model` passes on to `pack_model`; `K` is 1000 and `H` a million. -/
def args (b : Banded) : PackArgs ℚ where
  modelVer := b.modelVer
  labels := b.labels
  ledMask := b.ledMask
  w1 := [b.wFeat, b.wFeat]
  b1 := [-b.lo, -b.hi]
  w2 := [[-1000, 0], [1000, -1000000], [0, 1000000]]
  b2 := [1 / 2, 0, -1 / 2]

/-- `banded_model`. -/
def model (pack : ℚ → Option UInt32) (b : Banded) : Option Bytes := packModel pack b.args

/-- The projection `w_feat . x`. -/
def project (b : Banded) (x : ℕ → ℚ) : ℚ :=
  ((List.range b.wFeat.length).map fun j => b.wFeat.getD j 0 * x j).sum

end Banded

/-- `infer(blob, x)`, with `unpack` for the values of the words. -/
def inferWith (unpack : UInt32 → ℚ) (blob : Bytes) (x : ℕ → ℚ) : ℕ :=
  let nIn := (byteAt blob 8).toNat
  let nHid := (byteAt blob 9).toNat
  let nOut := (byteAt blob 10).toNat
  let n := nHid * nIn + nHid + nOut * nHid + nOut
  let w := (List.range n).map fun k => unpack (le32At (byteAt blob) (64 + 4 * k))
  let h := inferHidden nIn nHid w x
  let o := inferOutput nIn nHid nOut w h
  o.idxOf (listMax 0 o)

theorem infer_eq_inferWith (blob : Bytes) (x : ℕ → ℚ) :
    infer blob x = inferWith floatValue blob x :=
  rfl

/-! ## The scores -/

/-- A part of a list that lies behind `pre`. -/
theorem slice_eq (pre mid post : List ℚ) {l : List ℚ} {a b : ℕ} (h : l = pre ++ (mid ++ post))
    (ha : a = pre.length) (hb : b = pre.length + mid.length) : slice l a b = mid := by
  rw [h, ha, hb, slice, List.drop_left, Nat.add_sub_cancel_left, List.take_left]

namespace Banded

variable (b : Banded) (x : ℕ → ℚ)

/-- The weights behind those of the hidden units. -/
def outer : List ℚ := [-1000, 0, 1000, -1000000, 0, 1000000, 1 / 2, 0, -1 / 2]

theorem weights_eq :
    b.args.weights = b.wFeat ++ (b.wFeat ++ ([-b.lo, -b.hi] ++ outer)) := by
  simp [PackArgs.weights, args, outer]

theorem weights_length : b.args.weights.length =
    2 * b.wFeat.length + 2 + 3 * 2 + 3 := by
  rw [weights_eq]
  simp only [List.length_append, List.length_cons, List.length_nil, outer]
  omega

/-- The hidden units measure how far the projection is above the thresholds. -/
theorem hidden_eq : inferHidden b.wFeat.length 2 b.args.weights x =
    [if b.project x - b.lo > 0 then b.project x - b.lo else 0,
      if b.project x - b.hi > 0 then b.project x - b.hi else 0] := by
  have hw := b.weights_eq
  have hrow0 : slice b.args.weights (0 * b.wFeat.length) ((0 + 1) * b.wFeat.length) = b.wFeat :=
    slice_eq [] _ _ hw (by simp) (by simp)
  have hrow1 : slice b.args.weights (1 * b.wFeat.length) ((1 + 1) * b.wFeat.length) = b.wFeat :=
    slice_eq _ _ _ hw (by simp) (by omega)
  have hbias : slice b.args.weights (2 * b.wFeat.length) (2 * b.wFeat.length + 2) =
      [-b.lo, -b.hi] := by
    refine slice_eq (b.wFeat ++ b.wFeat) _ outer ?_ ?_ ?_
    · rw [hw, List.append_assoc]
    · rw [List.length_append]
      omega
    · rw [List.length_append, List.length_cons, List.length_singleton]
      omega
  have hrange : List.range 2 = [0, 1] := rfl
  simp only [inferHidden, hrange, List.map_cons, List.map_nil, hrow0, hrow1, hbias, pyRow,
    List.getD_cons_zero, List.getD_cons_succ, sub_eq_add_neg, project]

/-- The three scores. -/
theorem output_eq (h1 h2 : ℚ) : inferOutput b.wFeat.length 2 3 b.args.weights [h1, h2] =
    [-1000 * h1 + 1 / 2, 1000 * h1 - 1000000 * h2, 1000000 * h2 - 1 / 2] := by
  have hw : b.args.weights = (b.wFeat ++ (b.wFeat ++ [-b.lo, -b.hi])) ++ outer := by
    rw [weights_eq]
    simp only [List.append_assoc]
  have hlen : (b.wFeat ++ (b.wFeat ++ [-b.lo, -b.hi])).length = 2 * b.wFeat.length + 2 := by
    simp only [List.length_append, List.length_cons, List.length_nil]
    omega
  have hrow : ∀ i n, slice b.args.weights (2 * b.wFeat.length + 2 + i)
      (2 * b.wFeat.length + 2 + n) = slice outer i n := by
    intro i n
    rw [hw, ← hlen, slice, slice, ← List.drop_drop, List.drop_left, Nat.add_sub_add_left]
  have hrow0 : slice outer (0 * 2) ((0 + 1) * 2) = [-1000, 0] := rfl
  have hrow1 : slice outer (1 * 2) ((1 + 1) * 2) = [1000, -1000000] := rfl
  have hrow2 : slice outer (2 * 2) ((2 + 1) * 2) = [0, 1000000] := rfl
  have hbias : b.args.weights.drop (2 * b.wFeat.length + 2 + 3 * 2) = [1 / 2, 0, -1 / 2] := by
    rw [hw, ← hlen, ← List.drop_drop, List.drop_left]
    rfl
  have hrange2 : List.range 2 = [0, 1] := rfl
  have hrange3 : List.range 3 = [0, 1, 2] := rfl
  simp only [inferOutput, hrange3, hrange2, List.map_cons, List.map_nil, hrow, hrow0, hrow1, hrow2,
    hbias, pyRow, List.getD_cons_zero, List.getD_cons_succ, List.sum_cons, List.sum_nil]
  congr 1
  · ring
  · congr 1
    · ring
    · congr 1
      ring

end Banded

/-! ## The classes -/

/-- The index of the greatest of three scores, if it is strictly greater than the others. -/
theorem idxOf_listMax_three (o0 o1 o2 : ℚ) :
    (o1 < o0 → o2 < o0 → [o0, o1, o2].idxOf (listMax 0 [o0, o1, o2]) = 0) ∧
    (o0 < o1 → o2 < o1 → [o0, o1, o2].idxOf (listMax 0 [o0, o1, o2]) = 1) ∧
    (o0 < o2 → o1 < o2 → [o0, o1, o2].idxOf (listMax 0 [o0, o1, o2]) = 2) := by
  refine ⟨fun h1 h2 => ?_, fun h0 h2 => ?_, fun h0 h1 => ?_⟩
  · rw [listMax_eq (a := o0) (by simp) (by simp [h1.le, h2.le]), List.idxOf_cons_self]
  · rw [listMax_eq (a := o1) (by simp) (by simp [h0.le, h2.le]), List.idxOf_cons_ne _ h0.ne,
      List.idxOf_cons_self]
  · rw [listMax_eq (a := o2) (by simp) (by simp [h0.le, h1.le]), List.idxOf_cons_ne _ h0.ne,
      List.idxOf_cons_ne _ h1.ne, List.idxOf_cons_self]

namespace Banded

/-- The class of the scores is the band of `p`, 1/200 away from the thresholds. -/
theorem class_of_band {p lo hi : ℚ} (hband : lo < hi) (hwidth : hi - lo ≤ 1)
    (hlo : 1 / 200 ≤ |p - lo|) (hhi : 1 / 200 ≤ |p - hi|) :
    let h1 := if p - lo > 0 then p - lo else 0
    let h2 := if p - hi > 0 then p - hi else 0
    let o : List ℚ := [-1000 * h1 + 1 / 2, 1000 * h1 - 1000000 * h2, 1000000 * h2 - 1 / 2]
    (p < lo → o.idxOf (listMax 0 o) = 0) ∧ (lo < p → p < hi → o.idxOf (listMax 0 o) = 1) ∧
      (hi < p → o.idxOf (listMax 0 o) = 2) := by
  intro h1 h2 o
  obtain ⟨hzero, hone, htwo⟩ := idxOf_listMax_three (-1000 * h1 + 1 / 2)
    (1000 * h1 - 1000000 * h2) (1000000 * h2 - 1 / 2)
  refine ⟨fun hp => ?_, fun hp hp' => ?_, fun hp => ?_⟩
  · have hh1 : h1 = 0 := if_neg (by linarith)
    have hh2 : h2 = 0 := if_neg (by linarith)
    apply hzero
    · rw [hh1, hh2]
      norm_num
    · rw [hh1, hh2]
      norm_num
  · have hh1 : h1 = p - lo := if_pos (by linarith)
    have hh2 : h2 = 0 := if_neg (by linarith)
    rw [abs_of_pos (by linarith)] at hlo
    apply hone
    · rw [hh1, hh2]
      linarith
    · rw [hh1, hh2]
      linarith
  · have hh1 : h1 = p - lo := if_pos (by linarith)
    have hh2 : h2 = p - hi := if_pos (by linarith)
    rw [abs_of_pos (by linarith)] at hhi
    apply htwo
    · rw [hh1, hh2]
      linarith
    · rw [hh1, hh2]
      -- what class 1 has gathered over the band is at most its gain
      calc 1000 * (p - lo) - 1000000 * (p - hi)
          = 1000 * (hi - lo) - 999000 * (p - hi) := by ring
        _ ≤ 1000 * 1 - 999000 * (1 / 200) := by linarith
        _ < 1000000 * (1 / 200) - 1 / 2 := by norm_num
        _ ≤ 1000000 * (p - hi) - 1 / 2 := by linarith

end Banded

section Packed

variable {pack : ℚ → Option UInt32} {unpack : UInt32 → ℚ} {b : Banded} {blob : Bytes}

/-- The weights come back out of the blob. -/
theorem Banded.unpacked_eq (hpack : b.model pack = some blob)
    (hlabels : b.args.labelBytes.length = 48)
    (hexact : ∀ w ∈ b.args.weights, ∀ word, pack w = some word → unpack word = w) :
    (List.range (2 * b.wFeat.length + 2 + 3 * 2 + 3)).map
      (fun k => unpack (le32At (byteAt blob) (64 + 4 * k))) = b.args.weights := by
  -- the labels fill their fields, so the weights start at byte 64
  obtain ⟨-, words, hwords, rfl⟩ := packModel_eq_some hpack
  rw [← b.weights_length]
  apply List.ext_getElem
  · simp
  · intro k _ hk
    rw [List.getElem_map, List.getElem_range]
    exact hexact _ (List.getElem_mem hk) _
      (packed_word hwords hlabels (List.getElem?_eq_getElem hk))

/-- `infer` on a banded model takes the index of the greatest score. -/
theorem Banded.inferWith_eq (hpack : b.model pack = some blob)
    (hlabels : b.args.labelBytes.length = 48)
    (hexact : ∀ w ∈ b.args.weights, ∀ word, pack w = some word → unpack word = w) (x : ℕ → ℚ) :
    let h1 := if b.project x - b.lo > 0 then b.project x - b.lo else 0
    let h2 := if b.project x - b.hi > 0 then b.project x - b.hi else 0
    let o : List ℚ := [-1000 * h1 + 1 / 2, 1000 * h1 - 1000000 * h2, 1000000 * h2 - 1 / 2]
    inferWith unpack blob x = o.idxOf (listMax 0 o) := by
  intro h1 h2 o
  have hweights := b.unpacked_eq hpack hlabels hexact
  obtain ⟨hpass, words, -, hblob⟩ := packModel_eq_some hpack
  obtain ⟨-, hin, hhid, hout, -⟩ := packed_dims hpass words
  rw [← hblob] at hin hhid hout
  have hin' : (byteAt blob 8).toNat = b.wFeat.length := hin
  have hhid' : (byteAt blob 9).toNat = 2 := hhid
  have hout' : (byteAt blob 10).toNat = 3 := hout
  unfold inferWith
  rw [hin', hhid', hout']
  dsimp only
  rw [hweights, b.hidden_eq, b.output_eq]

end Packed

/-- **Banded models classify by their bands**, whatever the projection, where the label bytes are
48: no label that is longer than its field makes the others overrun theirs. -/
theorem banded_classifies (pack : ℚ → Option UInt32) (unpack : UInt32 → ℚ) (b : Banded)
    (blob : Bytes) (hpack : b.model pack = some blob) (hlabels : b.args.labelBytes.length = 48)
    (hexact : ∀ w ∈ b.args.weights, ∀ word, pack w = some word → unpack word = w)
    (hband : b.lo < b.hi) (hwidth : b.hi - b.lo ≤ 1) (x : ℕ → ℚ)
    (hlo : 1 / 200 ≤ |b.project x - b.lo|) (hhi : 1 / 200 ≤ |b.project x - b.hi|) :
    (b.project x < b.lo → inferWith unpack blob x = 0) ∧
      (b.lo < b.project x → b.project x < b.hi → inferWith unpack blob x = 1) ∧
      (b.hi < b.project x → inferWith unpack blob x = 2) := by
  rw [b.inferWith_eq hpack hlabels hexact x]
  exact Banded.class_of_band hband hwidth hlo hhi

/-- Light bands at a quarter and at three quarters; floats have their weights exactly. -/
def lightBands : Banded where
  modelVer := 1
  labels := ["dark", "dim", "bright"]
  ledMask := 4
  wFeat := [0, 1]
  lo := 1 / 4
  hi := 3 / 4

/-- What `struct.pack` writes for the weights of `lightBands`. -/
def packLight (w : ℚ) : Option UInt32 :=
  [0, 0x3F800000, 0xBE800000, 0xBF400000, 0xC47A0000, 0x447A0000, 0xC9742400, 0x49742400,
    0x3F000000, 0xBF000000].find? fun word => floatValue word == w

theorem banded_classifies_bright : ∃ blob, lightBands.model packLight = some blob ∧
    inferWith floatValue blob (fun _ => 2) = 2 := by
  obtain ⟨blob, hblob⟩ := Option.isSome_iff_exists.mp
    (show (lightBands.model packLight).isSome = true by decide +kernel)
  have hexact : ∀ w ∈ lightBands.args.weights, ∀ word, packLight w = some word →
      floatValue word = w := by
    intro w _ word hword
    simpa using List.find?_some hword
  have hclass := banded_classifies packLight floatValue lightBands blob hblob (by decide +kernel)
    hexact (by decide +kernel) (by decide +kernel) (fun _ => 2) (by decide +kernel)
    (by decide +kernel)
  exact ⟨blob, hblob, hclass.2.2 (by decide +kernel)⟩

/-- The same bands with labels of at most eleven characters, whose UTF-8 form takes 60 bytes. -/
def cyrillicBands : Banded :=
  { lightBands with labels := ["очень темно", "полутемно", "ярко-светло"] }

/-- The weights are read three words too early: the class of the dark end is 2. -/
theorem banded_misclassifies : ∃ blob, cyrillicBands.model packLight = some blob ∧
    (∀ w ∈ cyrillicBands.args.weights, ∀ word, packLight w = some word → floatValue word = w) ∧
    cyrillicBands.lo < cyrillicBands.hi ∧ cyrillicBands.hi - cyrillicBands.lo ≤ 1 ∧
    1 / 200 ≤ |cyrillicBands.project (fun _ => 0) - cyrillicBands.lo| ∧
    1 / 200 ≤ |cyrillicBands.project (fun _ => 0) - cyrillicBands.hi| ∧
    cyrillicBands.project (fun _ => 0) < cyrillicBands.lo ∧
    inferWith floatValue blob (fun _ => 0) = 2 := by
  obtain ⟨blob, hblob⟩ := Option.isSome_iff_exists.mp
    (show (cyrillicBands.model packLight).isSome = true by decide +kernel)
  have hexact : ∀ w ∈ cyrillicBands.args.weights, ∀ word, packLight w = some word →
      floatValue word = w := by
    intro w _ word hword
    simpa using List.find?_some hword
  have hclass : (cyrillicBands.model packLight).map (inferWith floatValue · fun _ => 0)
      = some 2 := by
    decide +kernel
  rw [hblob] at hclass
  exact ⟨blob, hblob, hexact, by decide +kernel, by decide +kernel, by decide +kernel,
    by decide +kernel, by decide +kernel, Option.some.inj hclass⟩

end IotcDemos.Iotm
