import IotcDemos.Lib.Bytes

set_option autoImplicit false

/-! # Pixels for the model

The camera delivers RGB565, the model takes RGB888. `IMAGE_ExtractRect` converts pixel by pixel;
`Rgb565StridedToRgb888` takes every `stride`-th pixel and packs four of them into three words. Both
write the same bytes, but for the subtraction of 128 that the second one may do.
-/

namespace IotcDemos.FaceDetect

/-- The three bytes of a pixel in `IMAGE_ExtractRect`. -/
def rgb888 (rgb565 : UInt16) : Bytes :=
  [((rgb565 &&& 0xf800) >>> 8).toUInt8, ((rgb565 &&& 0x07e0) >>> 3).toUInt8,
    ((rgb565 &&& 0x001f) <<< 3).toUInt8]

def imageExtractRect (x0 y0 w h : ℕ) (pSrc : ℕ → UInt16) (srcW : ℕ) : Bytes :=
  (List.range h).flatMap fun y => (List.range w).flatMap fun x =>
    rgb888 (pSrc ((y0 + y) * srcW + x0 + x))

/-- `datOut` of one pixel. -/
def datOut (pixel : UInt16) : UInt32 :=
  let datIn := pixel.toUInt32
  (datIn &&& 31) <<< 19 ||| (datIn &&& (63 : UInt32) <<< 5) <<< 5 ||| (datIn >>> 8) &&& 0xf8

/-- `datOuts` of four pixels. -/
def datOuts (p0 p1 p2 p3 : UInt16) : List UInt32 :=
  [datOut p0 ||| datOut p1 <<< 24,
    datOut p1 >>> 8 ||| (datOut p2 <<< 16 &&& 0xFFFF0000),
    datOut p2 >>> 16 ||| datOut p3 <<< 8]

def packFour (p0 p1 p2 p3 : UInt16) (isSub128 : Bool) : Bytes :=
  ((datOuts p0 p1 p2 p3).map fun w => if isSub128 then w ^^^ 0x80808080 else w).flatMap toLe32

/-- The values of `x` in `for (x = lo; x < hi; x += step)`. -/
def steps (lo hi step : ℕ) : List ℕ := List.range' lo ((hi - lo + step - 1) / step) step

def rgb565StridedToRgb888 (pIn : ℕ → UInt16) (srcW wndW wndH wndX0 wndY0 stride : ℕ)
    (isSub128 : Bool) : Bytes :=
  (steps wndY0 wndH stride).flatMap fun y => (steps 0 wndW (stride * 4)).flatMap fun x =>
    let pSrc := srcW * y + wndX0 + x
    packFour (pIn pSrc) (pIn (pSrc + stride)) (pIn (pSrc + 2 * stride)) (pIn (pSrc + 3 * stride))
      isSub128

/-! ## Four pixels in three words -/

/-- The three low bytes of a word. -/
def threeBytes (a : UInt32) : Bytes := [a.toUInt8, (a >>> 8).toUInt8, (a >>> 16).toUInt8]

theorem toLe32_shifts (x : UInt32) :
    toLe32 x = [x.toUInt8, (x >>> 8).toUInt8, (x >>> 16).toUInt8, (x >>> 24).toUInt8] := by
  have hshift : ∀ y : UInt32, y.toNat < 32 →
      (x >>> y).toUInt8 = UInt8.ofNat (x.toNat / 2 ^ y.toNat) := by
    intro y hy
    apply UInt8.toNat_inj.mp
    simp only [UInt32.toNat_toUInt8, UInt32.toNat_shiftRight, Nat.shiftRight_eq_div_pow,
      UInt8.toNat_ofNat']
    rw [Nat.mod_eq_of_lt hy]
  rw [toLe32, hshift 8 (by decide), hshift 16 (by decide), hshift 24 (by decide)]
  rfl

theorem uint8_ext {x y : UInt8} (h : ∀ i < 8, x.toBitVec.getLsbD i = y.toBitVec.getLsbD i) :
    x = y := by
  apply UInt8.toBitVec_inj.mp
  ext i hi
  exact h i hi

/-- Four values of three bytes fill three words without a gap. -/
theorem packed_words {a b c d : UInt32} (ha : a >>> 24 = 0) (hb : b >>> 24 = 0)
    (hc : c >>> 24 = 0) (hd : d >>> 24 = 0) :
    [a ||| b <<< 24, b >>> 8 ||| (c <<< 16 &&& 0xFFFF0000), c >>> 16 ||| d <<< 8].flatMap toLe32 =
      [a, b, c, d].flatMap threeBytes := by
  -- nothing of one value shifts into the bytes of another
  have hbit : ∀ x : UInt32, x >>> 24 = 0 → ∀ i < 8, x.toBitVec.getLsbD (24 + i) = false := by
    intro x h i hi
    simpa using congrArg (fun v => v.toBitVec.getLsbD i) h
  simp only [toLe32_shifts, threeBytes, List.flatMap_cons, List.flatMap_nil, List.cons_append,
    List.nil_append, List.append_nil, List.cons.injEq, and_true]
  refine ⟨?_, ?_, ?_, ?_, ?_, ?_, ?_, ?_, ?_, ?_, ?_, ?_⟩
  all_goals
    apply uint8_ext
    intro i hi
    have ha' := hbit a ha i hi
    have hb' := hbit b hb i hi
    have hc' := hbit c hc i hi
    have hd' := hbit d hd i hi
    simp <;> first | grind | (interval_cases i <;> simp_all)

theorem datOut_high (pixel : UInt16) : datOut pixel >>> 24 = 0 := by
  apply UInt32.toBitVec_inj.mp
  ext i hi
  simp only [datOut]
  interval_cases i <;> simp

theorem threeBytes_datOut (pixel : UInt16) : threeBytes (datOut pixel) = rgb888 pixel := by
  simp only [threeBytes, rgb888, datOut, List.cons.injEq, and_true]
  refine ⟨?_, ?_, ?_⟩
  all_goals
    apply uint8_ext
    intro i hi
    interval_cases i <;> simp

/-- Subtracting 128 from a byte. -/
def sub128 (isSub128 : Bool) (b : UInt8) : UInt8 := if isSub128 then b ^^^ 0x80 else b

theorem toLe32_xor (w : UInt32) : toLe32 (w ^^^ 0x80808080) = (toLe32 w).map (· ^^^ 0x80) := by
  simp only [toLe32_shifts, List.map_cons, List.map_nil, List.cons.injEq, and_true]
  refine ⟨?_, ?_, ?_, ?_⟩
  all_goals
    apply uint8_ext
    intro i hi
    interval_cases i <;> simp

theorem packFour_eq (p0 p1 p2 p3 : UInt16) (isSub128 : Bool) :
    packFour p0 p1 p2 p3 isSub128 =
      [p0, p1, p2, p3].flatMap fun p => (rgb888 p).map (sub128 isSub128) := by
  -- without the subtraction
  have hplain : (datOuts p0 p1 p2 p3).flatMap toLe32 = [p0, p1, p2, p3].flatMap rgb888 := by
    rw [datOuts, packed_words (datOut_high p0) (datOut_high p1) (datOut_high p2) (datOut_high p3)]
    simp only [List.flatMap_cons, List.flatMap_nil, threeBytes_datOut]
  cases isSub128 with
  | false =>
      have hid : sub128 false = id := rfl
      simp only [hid, List.map_id]
      rw [← hplain, packFour]
      simp
  | true =>
      have hxor : sub128 true = (· ^^^ 0x80) := rfl
      rw [hxor, ← List.map_flatMap, ← hplain, packFour, List.map_flatMap, List.flatMap_map]
      simp only [if_true, toLe32_xor]

/-! ## Rows of pixels -/

/-- A number of groups of four. -/
theorem range_groups {α : Type} (f : ℕ → List α) (n : ℕ) :
    (List.range (4 * n)).flatMap f =
      (List.range n).flatMap fun k => [4 * k, 4 * k + 1, 4 * k + 2, 4 * k + 3].flatMap f := by
  induction n with
  | zero => rfl
  | succ n ih =>
      have hfour : List.range (4 * (n + 1)) =
          List.range (4 * n) ++ [4 * n, 4 * n + 1, 4 * n + 2, 4 * n + 3] := by
        rw [Nat.mul_succ, List.range_succ, List.range_succ, List.range_succ, List.range_succ]
        simp
      rw [hfour, List.flatMap_append, ih, List.range_succ, List.flatMap_append]
      simp

/-- The steps up to a whole number of them. -/
theorem steps_mul {step : ℕ} (hstep : 0 < step) (n : ℕ) :
    steps 0 (n * step) step = (List.range n).map (step * ·) := by
  have hcount : (n * step - 0 + step - 1) / step = n := by
    rw [Nat.sub_zero, Nat.add_sub_assoc hstep, Nat.mul_comm, Nat.mul_add_div hstep,
      Nat.div_eq_of_lt (by omega), Nat.add_zero]
  rw [steps, hcount]
  apply List.ext_getElem
  · simp
  · intro i hi hi'
    simp

theorem strided_rows (pIn : ℕ → UInt16) (srcW groups wndH wndX0 wndY0 : ℕ) {stride : ℕ}
    (hstride : 0 < stride) (isSub128 : Bool) :
    rgb565StridedToRgb888 pIn srcW (groups * (stride * 4)) wndH wndX0 wndY0 stride isSub128 =
      (steps wndY0 wndH stride).flatMap fun y => (List.range (4 * groups)).flatMap fun x =>
        (rgb888 (pIn (srcW * y + wndX0 + stride * x))).map (sub128 isSub128) := by
  rw [rgb565StridedToRgb888]
  refine List.flatMap_congr fun y _ => ?_
  rw [steps_mul (by omega), range_groups, List.flatMap_map]
  refine List.flatMap_congr fun k _ => ?_
  simp only [packFour_eq, List.flatMap_cons, List.flatMap_nil, List.append_nil]
  -- pixel `j` of group `k`
  have hidx : ∀ j, srcW * y + wndX0 + stride * 4 * k + j * stride =
      srcW * y + wndX0 + stride * (4 * k + j) := fun j => by ring
  have h0 := hidx 0
  have h1 := hidx 1
  rw [Nat.zero_mul, Nat.add_zero, Nat.add_zero] at h0
  rw [Nat.one_mul] at h1
  rw [h0, ← h0, h1, hidx 2, hidx 3, h0]

/-- **The packed conversion is the plain one.** For every image and stride, and a window whose width
is a whole number of groups of four pixels: the bytes are those of the plain conversion of every
`stride`-th pixel of every `stride`-th line. With a stride of one from line 0 on it is
`IMAGE_ExtractRect`, with 128 subtracted where that is asked for. -/
theorem rgb565StridedToRgb888_plain (pIn : ℕ → UInt16) (srcW groups h x0 y0 s : ℕ)
    (isSub128 : Bool) :
    rgb565StridedToRgb888 pIn srcW (groups * ((s + 1) * 4)) h x0 y0 (s + 1) isSub128 =
      (steps y0 h (s + 1)).flatMap (fun y => (List.range (4 * groups)).flatMap fun x =>
        (rgb888 (pIn (srcW * y + x0 + (s + 1) * x))).map (sub128 isSub128)) ∧
    rgb565StridedToRgb888 pIn srcW (groups * 4) h x0 0 1 isSub128 =
      (imageExtractRect x0 0 (groups * 4) h pIn srcW).map (sub128 isSub128) := by
  refine ⟨strided_rows pIn srcW groups h x0 y0 s.succ_pos isSub128, ?_⟩
  have hrows : steps 0 h 1 = List.range h := by
    have hsteps := steps_mul Nat.one_pos h
    rw [Nat.mul_one] at hsteps
    simpa using hsteps
  have hpacked := strided_rows pIn srcW groups h x0 0 Nat.one_pos isSub128
  rw [Nat.one_mul] at hpacked
  rw [hpacked, hrows, imageExtractRect, Nat.mul_comm 4 groups, List.map_flatMap]
  refine List.flatMap_congr fun y _ => ?_
  rw [List.map_flatMap]
  simp only [Nat.zero_add, Nat.one_mul, Nat.mul_comm srcW]

end IotcDemos.FaceDetect
