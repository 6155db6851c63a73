import IotcDemos.Lib.Cuts
import IotcDemos.Lib.ForLoop
import IotcDemos.Vision.Flash

set_option autoImplicit false

/-! # Reducing a frame (vision_camera.c)

All of the arithmetic is that of `uint32_t`; an address is an offset from the start of the buffer.
The model input averages the boxes of a square crop whose side is the height of the frame. A
snapshot averages square blocks of the whole frame. The loops over a box are sums
(`boxLoops_eq`), so that a pixel of the output is the mean of its box.
-/

namespace IotcDemos.Vision

/-- The pixel formats that `vision_camera_init` accepts. -/
inductive PixelFormat where
  | rgb565
  | yuyv
  | bgrx32
  deriving DecidableEq

/-- `cam_fmt`. -/
structure VideoFormat where
  pixelformat : PixelFormat
  width : UInt32
  height : UInt32
  pitch : UInt32

/-! ## The luma of a pixel -/

/-- `rgb565_luma`. -/
def rgb565Luma (buf : Mem) (p : UInt32) : UInt8 :=
  let v : UInt16 := (buf p.toNat).toUInt16 ||| ((buf (p + 1).toNat).toUInt16 <<< 8)
  let r : UInt8 := (((v >>> 11) &&& 0x1F) <<< 3).toUInt8
  let g : UInt8 := (((v >>> 5) &&& 0x3F) <<< 2).toUInt8
  let b : UInt8 := ((v &&& 0x1F) <<< 3).toUInt8
  ((r.toUInt32 * 77 + g.toUInt32 * 150 + b.toUInt32 * 29) >>> 8).toUInt8

/-- `yuyv_luma`. -/
def yuyvLuma (buf : Mem) (line x : UInt32) : UInt8 := buf (line + x * 2).toNat

/-- `bgrx32_luma`. -/
def bgrx32Luma (buf : Mem) (p : UInt32) : UInt8 :=
  (((buf (p + 2).toNat).toUInt32 * 77 + (buf (p + 1).toNat).toUInt32 * 150 +
    (buf p.toNat).toUInt32 * 29) >>> 8).toUInt8

/-- `pix_luma`. -/
def pixLuma (fmt : VideoFormat) (buf : Mem) (line x : UInt32) : UInt8 :=
  match fmt.pixelformat with
  | .yuyv => yuyvLuma buf line x
  | .bgrx32 => bgrx32Luma buf (line + x * 4)
  | .rgb565 => rgb565Luma buf (line + x * 2)

/-- The luma of the pixel in row `q.1` and column `q.2`. -/
def lumaAt (fmt : VideoFormat) (buf : Mem) (q : ℕ × ℕ) : ℕ :=
  (pixLuma fmt buf (UInt32.ofNat q.1 * fmt.pitch) (UInt32.ofNat q.2)).toNat

theorem lumaAt_le (fmt : VideoFormat) (buf : Mem) (q : ℕ × ℕ) : lumaAt fmt buf q ≤ 255 :=
  Nat.le_of_lt_succ (UInt8.toNat_lt _)

/-! ## The model input -/

/-- `VISION_INPUT_W` and `VISION_INPUT_H`. -/
def visionInputW : UInt32 := 96
def visionInputH : UInt32 := 96

/-- `sy0` and `sy1`. -/
def grayRows (fmt : VideoFormat) (dy : UInt32) : UInt32 × UInt32 :=
  let crop := fmt.height
  let sy0 := dy * crop / visionInputH
  let sy1 := (dy + 1) * crop / visionInputH
  (sy0, if sy1 = sy0 then sy0 + 1 else sy1)

/-- `sx0` and `sx1`. -/
def grayCols (fmt : VideoFormat) (dx : UInt32) : UInt32 × UInt32 :=
  let crop := fmt.height
  let x0 := (fmt.width - crop) / 2
  let sx0 := x0 + dx * crop / visionInputW
  let sx1 := x0 + (dx + 1) * crop / visionInputW
  (sx0, if sx1 = sx0 then sx0 + 1 else sx1)

/-- The two inner loops: `acc` and `n`. -/
def boxLoops (fmt : VideoFormat) (buf : Mem) (rows cols : UInt32 × UInt32) : UInt32 × UInt32 :=
  forUp rows.1 rows.2 (fun sy s =>
    let line := sy * fmt.pitch
    forUp cols.1 cols.2
      (fun sx s => (s.1 + (pixLuma fmt buf line sx).toUInt32, s.2 + 1)) s) (0, 0)

/-- `frame_to_gray96`. -/
def frameToGray96 (fmt : VideoFormat) (buf gray96 : Mem) : Mem :=
  forUp 0 visionInputH (fun dy gray96 =>
    forUp 0 visionInputW (fun dx gray96 =>
      let (acc, n) := boxLoops fmt buf (grayRows fmt dy) (grayCols fmt dx)
      patch gray96 (dy * visionInputW + dx).toNat [(acc / n).toUInt8]) gray96) gray96

/-- The pixels that are read for an output pixel, in row `d.1` and column `d.2`. -/
def grayBox (fmt : VideoFormat) (d : ℕ × ℕ) : Finset (ℕ × ℕ) :=
  let rows := grayRows fmt (UInt32.ofNat d.1)
  let cols := grayCols fmt (UInt32.ofNat d.2)
  box rows.1 rows.2 cols.1 cols.2

/-- The square in the middle of the frame, as large as the frame allows. -/
def centredSquare (w h : ℕ) : Finset (ℕ × ℕ) :=
  let side := min w h
  Finset.Ico ((h - side) / 2) ((h - side) / 2 + side) ×ˢ
    Finset.Ico ((w - side) / 2) ((w - side) / 2 + side)

/-- The model input is the average of the largest centred square. -/
structure CropAverage (fmt : VideoFormat) : Prop where
  inside : ∀ d : ℕ × ℕ, d.1 < 96 → d.2 < 96 → ∀ q ∈ grayBox fmt d,
    q.1 < fmt.height.toNat ∧ q.2 < fmt.width.toNat
  nonempty : ∀ d : ℕ × ℕ, d.1 < 96 → d.2 < 96 → (grayBox fmt d).Nonempty
  /-- The boxes are a partition of the square. -/
  within : ∀ d : ℕ × ℕ, d.1 < 96 → d.2 < 96 →
    grayBox fmt d ⊆ centredSquare fmt.width.toNat fmt.height.toNat
  once : ∀ q ∈ centredSquare fmt.width.toNat fmt.height.toNat,
    ∃! d : ℕ × ℕ, (d.1 < 96 ∧ d.2 < 96) ∧ q ∈ grayBox fmt d
  mean : ∀ (buf gray96 : Mem) (d : ℕ × ℕ), d.1 < 96 → d.2 < 96 →
    (frameToGray96 fmt buf gray96 (d.1 * 96 + d.2)).toNat =
      boxMean (lumaAt fmt buf) (grayBox fmt d)

/-! ## Boxes -/

/-- `acc` is the sum of the lumas, and `n` the number of the pixels. -/
theorem boxLoops_eq (fmt : VideoFormat) (buf : Mem) (rows cols : UInt32 × UInt32)
    (hrows : rows.1.toNat ≤ rows.2.toNat) (hcols : cols.1.toNat ≤ cols.2.toNat) :
    boxLoops fmt buf rows cols =
      (UInt32.ofNat (∑ q ∈ box rows.1 rows.2 cols.1 cols.2, lumaAt fmt buf q),
        UInt32.ofNat (box rows.1 rows.2 cols.1 cols.2).card) := by
  have hluma : ∀ line x, (pixLuma fmt buf line x).toUInt32 =
      UInt32.ofNat (pixLuma fmt buf line x).toNat := fun _ _ => by simp
  have hacc := forUp_forUp_add hrows hcols fun sy sx => (pixLuma fmt buf (sy * fmt.pitch) sx).toNat
  have hcount := forUp_forUp_add hrows hcols fun _ _ => 1
  rw [Finset.sum_const, smul_eq_mul, Nat.mul_one] at hcount
  refine Prod.ext ?_ ?_
  · refine (forUp_map Prod.fst (fun sy s => ?_) (0, 0)).trans hacc
    exact forUp_map Prod.fst (fun sx s => by rw [hluma]) s
  · refine (forUp_map Prod.snd (fun sy s => ?_) (0, 0)).trans hcount
    exact forUp_map Prod.snd (fun sx s => rfl) s

/-- Where the sum of a box fits, the quotient is its mean. -/
theorem mean_toNat {luma : ℕ × ℕ → ℕ} (hluma : ∀ q, luma q ≤ 255) {b : Finset (ℕ × ℕ)}
    (hb : 255 * b.card < 2 ^ 32) :
    (UInt32.ofNat (∑ q ∈ b, luma q) / UInt32.ofNat b.card).toUInt8.toNat = boxMean luma b := by
  have hsum := sum_box_le hluma b
  have hmean := boxMean_le hluma b
  have htotal : (∑ q ∈ b, luma q) % 2 ^ 32 = ∑ q ∈ b, luma q := Nat.mod_eq_of_lt (by omega)
  have hcard : b.card % 2 ^ 32 = b.card := Nat.mod_eq_of_lt (by omega)
  rw [UInt32.toNat_toUInt8, UInt32.toNat_div, UInt32.toNat_ofNat', UInt32.toNat_ofNat', htotal,
    hcard]
  exact Nat.mod_eq_of_lt (Nat.lt_succ_of_le hmean)

/-! ## The boxes of the model input -/

section Gray

variable {fmt : VideoFormat}

theorem frameToGray96_at (fmt : VideoFormat) (buf gray96 : Mem) {d : ℕ × ℕ} (hy : d.1 < 96)
    (hx : d.2 < 96) : frameToGray96 fmt buf gray96 (d.1 * 96 + d.2) =
      let s := boxLoops fmt buf (grayRows fmt (UInt32.ofNat d.1)) (grayCols fmt (UInt32.ofNat d.2))
      (s.1 / s.2).toUInt8 := by
  have htable := forUp_table (w := visionInputW) (h := visionInputH) (fun dy dx =>
    let s := boxLoops fmt buf (grayRows fmt dy) (grayCols fmt dx)
    (s.1 / s.2).toUInt8) gray96 (by decide)
  have hin : d.1 * 96 + d.2 < visionInputH.toNat * visionInputW.toNat := by
    show d.1 * 96 + d.2 < 96 * 96
    omega
  exact (congrFun htable _).trans (tableAt_cell _ _ hx hin)

/-- The products of the loops do not overflow for a side that can be averaged. -/
theorem side_lt {side : ℕ} (h : 255 * ((side + 95) / 96) ^ 2 < 2 ^ 32) : side ≤ 96 * 4104 := by
  by_contra hlt
  have hlarge : 4105 ≤ (side + 95) / 96 := by omega
  have hsq := Nat.pow_le_pow_left hlarge 2
  omega

/-- `dy * crop / 96`, for a crop that does not make the product overflow. -/
theorem toNat_cut {crop : UInt32} (hcrop : crop.toNat ≤ 96 * 4104) {i : ℕ} (hi : i ≤ 96) :
    (UInt32.ofNat i * crop / 96).toNat = cut crop.toNat 96 i := by
  have hprod : i * crop.toNat ≤ 96 * (96 * 4104) := Nat.mul_le_mul hi hcrop
  have hsmall : i % 2 ^ 32 = i := Nat.mod_eq_of_lt (by omega)
  rw [UInt32.toNat_div, UInt32.toNat_mul, UInt32.toNat_ofNat', hsmall, Nat.mod_eq_of_lt (by omega)]
  rfl

section Wide

variable (hcrop : fmt.height.toNat ≤ 96 * 4104) (hheight : 96 ≤ fmt.height.toNat)
include hcrop hheight

theorem grayRows_toNat {dy : ℕ} (hdy : dy < 96) :
    (grayRows fmt (UInt32.ofNat dy)).1.toNat = cut fmt.height.toNat 96 dy ∧
      (grayRows fmt (UInt32.ofNat dy)).2.toNat = cut fmt.height.toNat 96 (dy + 1) := by
  have h0 := toNat_cut hcrop (i := dy) (by omega)
  have h1 := toNat_cut hcrop (i := dy + 1) hdy
  have hlt := cut_lt_succ (by decide : 0 < 96) hheight dy
  rw [UInt32.ofNat_add] at h1
  refine ⟨h0, ?_⟩
  have hne : ¬ (UInt32.ofNat dy + 1) * fmt.height / 96 = UInt32.ofNat dy * fmt.height / 96 := by
    intro heq
    have hval := congrArg UInt32.toNat heq
    rw [h0] at hval
    exact absurd (h1.symm.trans hval) hlt.ne'
  show (if _ then _ else _ : UInt32).toNat = _
  rw [visionInputH, if_neg hne]
  exact h1

/-- The crop lies in the middle, where the frame is as wide as it is high. -/
theorem grayCols_toNat (hwide : fmt.height.toNat ≤ fmt.width.toNat) {dx : ℕ} (hdx : dx < 96) :
    (grayCols fmt (UInt32.ofNat dx)).1.toNat =
        (fmt.width.toNat - fmt.height.toNat) / 2 + cut fmt.height.toNat 96 dx ∧
      (grayCols fmt (UInt32.ofNat dx)).2.toNat =
        (fmt.width.toNat - fmt.height.toNat) / 2 + cut fmt.height.toNat 96 (dx + 1) := by
  have h0 := toNat_cut hcrop (i := dx) (by omega)
  have h1 := toNat_cut hcrop (i := dx + 1) hdx
  have hlt := cut_lt_succ (by decide : 0 < 96) hheight dx
  have hle : cut fmt.height.toNat 96 (dx + 1) ≤ fmt.height.toNat := cut_le (by decide) hdx
  have hmax := fmt.width.toNat_lt
  rw [UInt32.ofNat_add] at h1
  -- the frame is wide enough for the crop
  have horigin : ((fmt.width - fmt.height) / 2).toNat =
      (fmt.width.toNat - fmt.height.toNat) / 2 := by
    rw [UInt32.toNat_div, UInt32.toNat_sub_of_le _ _ (UInt32.le_iff_toNat_le.mpr hwide)]
    rfl
  have hfst : ((fmt.width - fmt.height) / 2 + UInt32.ofNat dx * fmt.height / 96).toNat =
      (fmt.width.toNat - fmt.height.toNat) / 2 + cut fmt.height.toNat 96 dx := by
    rw [UInt32.toNat_add, horigin, h0]
    exact Nat.mod_eq_of_lt (by omega)
  have hsnd : ((fmt.width - fmt.height) / 2 + (UInt32.ofNat dx + 1) * fmt.height / 96).toNat =
      (fmt.width.toNat - fmt.height.toNat) / 2 + cut fmt.height.toNat 96 (dx + 1) := by
    rw [UInt32.toNat_add, horigin]
    refine (congrArg (fun n => (_ + n) % 2 ^ 32) h1).trans ?_
    exact Nat.mod_eq_of_lt (by omega)
  refine ⟨hfst, ?_⟩
  have hne : ¬ (fmt.width - fmt.height) / 2 + (UInt32.ofNat dx + 1) * fmt.height / 96 =
      (fmt.width - fmt.height) / 2 + UInt32.ofNat dx * fmt.height / 96 := by
    intro heq
    have hval := congrArg UInt32.toNat heq
    omega
  show (if _ then _ else _ : UInt32).toNat = _
  rw [visionInputW, if_neg hne]
  exact hsnd

theorem mem_grayBox (hwide : fmt.height.toNat ≤ fmt.width.toNat) {d : ℕ × ℕ} (hy : d.1 < 96)
    (hx : d.2 < 96) {q : ℕ × ℕ} : q ∈ grayBox fmt d ↔
      (cut fmt.height.toNat 96 d.1 ≤ q.1 ∧ q.1 < cut fmt.height.toNat 96 (d.1 + 1)) ∧
        (fmt.width.toNat - fmt.height.toNat) / 2 + cut fmt.height.toNat 96 d.2 ≤ q.2 ∧
        q.2 < (fmt.width.toNat - fmt.height.toNat) / 2 + cut fmt.height.toNat 96 (d.2 + 1) := by
  obtain ⟨hrow0, hrow1⟩ := grayRows_toNat hcrop hheight hy
  obtain ⟨hcol0, hcol1⟩ := grayCols_toNat hcrop hheight hwide hx
  unfold grayBox
  rw [mem_box, hrow0, hrow1, hcol0, hcol1]

/-- In a frame that is as wide as it is high the boxes average the largest centred square. -/
theorem cropAverage_of_wide (hwide : fmt.height.toNat ≤ fmt.width.toNat)
    (hsum : 255 * ((fmt.height.toNat + 95) / 96) ^ 2 < 2 ^ 32) : CropAverage fmt := by
  have hbox : ∀ d : ℕ × ℕ, d.1 < 96 → d.2 < 96 → ∀ q, q ∈ grayBox fmt d ↔ _ :=
    fun d hy hx q => mem_grayBox hcrop hheight hwide hy hx
  have htop : ∀ i, i < 96 → cut fmt.height.toNat 96 (i + 1) ≤ fmt.height.toNat :=
    fun i hi => cut_le (by decide) hi
  have hgrow := cut_lt_succ (by decide : 0 < 96) hheight
  refine ⟨?_, ?_, ?_, ?_, ?_⟩
  · intro d hy hx q hq
    obtain ⟨⟨-, hq1⟩, -, hq2⟩ := (hbox d hy hx q).mp hq
    have hrow := htop d.1 hy
    have hcol := htop d.2 hx
    omega
  · intro d hy hx
    refine ⟨(cut fmt.height.toNat 96 d.1,
      (fmt.width.toNat - fmt.height.toNat) / 2 + cut fmt.height.toNat 96 d.2), ?_⟩
    rw [hbox d hy hx]
    have hrow := hgrow d.1
    have hcol := hgrow d.2
    exact ⟨⟨Nat.le_refl _, hrow⟩, Nat.le_refl _, by omega⟩
  · intro d hy hx q hq
    obtain ⟨⟨-, hq1⟩, hq2, hq3⟩ := (hbox d hy hx q).mp hq
    have hrow := htop d.1 hy
    have hcol := htop d.2 hx
    simp only [centredSquare, Finset.mem_product, Finset.mem_Ico]
    omega
  · intro q hq
    simp only [centredSquare, Finset.mem_product, Finset.mem_Ico] at hq
    obtain ⟨dy, ⟨hdy, hrow⟩, hdyOnly⟩ :=
      existsUnique_cut (by decide : 0 < 96) (by omega : q.1 < fmt.height.toNat)
    obtain ⟨dx, ⟨hdx, hcol⟩, hdxOnly⟩ := existsUnique_cut (by decide : 0 < 96)
      (by omega : q.2 - (fmt.width.toNat - fmt.height.toNat) / 2 < fmt.height.toNat)
    refine ⟨(dy, dx), ⟨⟨hdy, hdx⟩, (hbox _ hdy hdx q).mpr ⟨hrow, ?_⟩⟩, ?_⟩
    · dsimp only
      omega
    · rintro d ⟨⟨hy, hx⟩, hd⟩
      obtain ⟨hdrow, hdcol⟩ := (hbox d hy hx q).mp hd
      exact Prod.ext (hdyOnly d.1 ⟨hy, hdrow⟩) (hdxOnly d.2 ⟨hx, by omega⟩)
  · intro buf gray96 d hy hx
    obtain ⟨hrow0, hrow1⟩ := grayRows_toNat hcrop hheight hy
    obtain ⟨hcol0, hcol1⟩ := grayCols_toNat hcrop hheight hwide hx
    have hrow := hgrow d.1
    have hcol := hgrow d.2
    have hloops := boxLoops_eq fmt buf (grayRows fmt (UInt32.ofNat d.1))
      (grayCols fmt (UInt32.ofNat d.2)) (by omega) (by omega)
    -- the sum of a box fits 32 bits
    have hcard : 255 * (grayBox fmt d).card < 2 ^ 32 := by
      have hrows := cut_succ_le (c := fmt.height.toNat) (by decide : 0 < 96) d.1
      have hcols := cut_succ_le (c := fmt.height.toNat) (by decide : 0 < 96) d.2
      calc 255 * (grayBox fmt d).card
          ≤ 255 * (((fmt.height.toNat + 95) / 96) * ((fmt.height.toNat + 95) / 96)) := by
            rw [grayBox, box_card, hrow0, hrow1, hcol0, hcol1]
            exact Nat.mul_le_mul_left _ (Nat.mul_le_mul (by omega) (by omega))
        _ = 255 * ((fmt.height.toNat + 95) / 96) ^ 2 := by rw [Nat.pow_two]
        _ < 2 ^ 32 := hsum
    rw [frameToGray96_at fmt buf gray96 hy hx, hloops]
    exact mean_toNat (lumaAt_le fmt buf) hcard

end Wide

/-- In a frame that is higher than wide the boxes begin in its first row, and the origin of the crop
wraps around. -/
theorem not_cropAverage_of_high (hhigh : fmt.width.toNat < fmt.height.toNat)
    (hwidth : fmt.width.toNat ≤ 96 * 4104) : ¬ CropAverage fmt := by
  intro h
  obtain ⟨q, hq⟩ := h.nonempty (0, 0) (by decide) (by decide)
  obtain ⟨⟨-, hrow⟩, hcol⟩ := mem_box.mp hq
  have hzero : ∀ crop : UInt32, UInt32.ofNat 0 * crop / 96 = 0 := by
    intro crop
    rw [show UInt32.ofNat 0 = 0 from rfl, UInt32.zero_mul, UInt32.zero_div]
  -- row 0 is in the box, as its bounds start there
  have htop : (0, q.2) ∈ grayBox fmt (0, 0) := by
    refine mem_box.mpr ⟨⟨?_, Nat.zero_lt_of_lt hrow⟩, hcol⟩
    exact (congrArg UInt32.toNat (hzero fmt.height)).le
  have hsquare := h.within (0, 0) (by decide) (by decide) htop
  have hinside := (h.inside (0, 0) (by decide) (by decide) _ htop).2
  simp only [centredSquare, Finset.mem_product, Finset.mem_Ico] at hsquare
  -- only one row is missing, and the crop begins at 2^31 - 1
  have hone : fmt.height.toNat = fmt.width.toNat + 1 := by omega
  have horigin : ((fmt.width - fmt.height) / 2).toNat = 2 ^ 31 - 1 := by
    rw [UInt32.toNat_div, UInt32.toNat_sub, hone]
    have hmax := fmt.height.toNat_lt
    have hwrap : (2 ^ 32 - (fmt.width.toNat + 1) + fmt.width.toNat) % 2 ^ 32 = 2 ^ 32 - 1 := by
      omega
    rw [hwrap]
    rfl
  have hfirst : ((fmt.width - fmt.height) / 2 + UInt32.ofNat 0 * fmt.height / 96).toNat ≤ q.2 :=
    hcol.1
  rw [hzero, UInt32.add_zero, horigin] at hfirst
  omega

/-- **The model input.** For a frame of at least 96 x 96 pixels whose averages do not overflow, the
model input is the average of the largest centred square exactly if the frame is not higher than
wide. -/
theorem gray96_crop_iff (fmt : VideoFormat) (hheight : 96 ≤ fmt.height.toNat)
    (hsum : 255 * ((min fmt.width.toNat fmt.height.toNat + 95) / 96) ^ 2 < 2 ^ 32) :
    CropAverage fmt ↔ fmt.height.toNat ≤ fmt.width.toNat := by
  constructor
  · intro h
    by_contra hhigh
    rw [Nat.min_eq_left (by omega)] at hsum
    exact not_cropAverage_of_high (by omega) (side_lt hsum) h
  · intro hwide
    rw [Nat.min_eq_right hwide] at hsum
    exact cropAverage_of_wide (side_lt hsum) hheight hwide hsum

/-- The resolution the demo asks for. -/
def qvga : VideoFormat := ⟨.rgb565, 320, 240, 640⟩

theorem gray96_crop_qvga : CropAverage qvga :=
  (gray96_crop_iff qvga (by decide) (by decide)).mpr (by decide)

/-- The same, turned by a quarter. -/
def portrait : VideoFormat := ⟨.rgb565, 240, 320, 480⟩

/-- The first pixel that is read lies in column `2 ^ 31 - 40` of 240. -/
theorem portrait_reads_outside :
    (0, 2 ^ 31 - 40) ∈ grayBox portrait (0, 0) ∧ ¬ CropAverage portrait := by
  have hmem : (0, 2 ^ 31 - 40) ∈ grayBox portrait (0, 0) := mem_box.mpr (by decide)
  refine ⟨hmem, fun h => ?_⟩
  have hinside := (h.inside (0, 0) (by decide) (by decide) _ hmem).2
  exact absurd hinside (by decide)

end Gray

/-! ## The snapshot -/

/-- `SNAPSHOT_MAX_W` and `SNAPSHOT_MAX_H`. -/
def snapshotMaxW : UInt32 := 320
def snapshotMaxH : UInt32 := 180

/-- `DIV_ROUND_UP`. -/
def divRoundUp (n d : UInt32) : UInt32 := (n + d - 1) / d

section Snapshot

variable (fmt : VideoFormat)

/-- The decimation factor `d`. -/
def snapFactor : UInt32 :=
  let dw := divRoundUp fmt.width snapshotMaxW
  let dh := divRoundUp fmt.height snapshotMaxH
  if dw > dh then dw else dh

def snapW : UInt16 := (fmt.width / snapFactor fmt).toUInt16

def snapH : UInt16 := (fmt.height / snapFactor fmt).toUInt16

/-- The two inner loops: `acc`. -/
def snapLoops (buf : Mem) (dy dx : UInt32) : UInt32 :=
  let d := snapFactor fmt
  forUp (dy * d) ((dy + 1) * d) (fun sy acc =>
    let line := sy * fmt.pitch
    forUp (dx * d) ((dx + 1) * d)
      (fun sx acc => acc + (pixLuma fmt buf line sx).toUInt32) acc) 0

/-- `frame_to_snapshot`: the buffer, `*snap_w` and `*snap_h`. -/
def frameToSnapshot (buf snap : Mem) : Mem × UInt16 × UInt16 :=
  let d := snapFactor fmt
  let w := snapW fmt
  let h := snapH fmt
  (forUp 0 h.toUInt32 (fun dy snap =>
    forUp 0 w.toUInt32 (fun dx snap =>
      patch snap (dy * w.toUInt32 + dx).toNat [(snapLoops fmt buf dy dx / (d * d)).toUInt8]) snap)
    snap, w, h)

end Snapshot

end IotcDemos.Vision
