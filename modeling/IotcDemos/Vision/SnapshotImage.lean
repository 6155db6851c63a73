import IotcDemos.Vision.Snapshot

set_option autoImplicit false

/-! # The snapshot fits its buffers

The decimation factor is rounded up, so that the reduced frame has at most 320 x 180 pixels. It fits
`snap_frame`, and its PNG file fits `png_buf`.
-/

namespace IotcDemos.Vision

/-- `SNAPSHOT_MAX_LEN`. -/
def snapshotMaxLen : ℕ := snapshotMaxW.toNat * snapshotMaxH.toNat

/-- The pixels that are read for a pixel of the snapshot, in row `d.1` and column `d.2`. -/
def snapBox (fmt : VideoFormat) (d : ℕ × ℕ) : Finset (ℕ × ℕ) :=
  let f := snapFactor fmt
  box (UInt32.ofNat d.1 * f) ((UInt32.ofNat d.1 + 1) * f)
    (UInt32.ofNat d.2 * f) ((UInt32.ofNat d.2 + 1) * f)

/-- The least factor that reduces a frame to the snapshot's size. -/
def leastFactor (w h : ℕ) : ℕ := max ((w + 319) / 320) ((h + 179) / 180)

/-- A pixel of an image of `w` columns and `h` rows. -/
def Reported (w h : UInt16) (d : ℕ × ℕ) : Prop := d.1 < h.toNat ∧ d.2 < w.toNat

/-- What `frame_to_snapshot` should do of the frame `buf` with the buffer `snap`, if it leaves `img`
in the buffer and reports `w` and `h`. -/
structure SnapshotFits (fmt : VideoFormat) (buf snap img : Mem) (w h : UInt16) : Prop where
  width_le : w.toNat ≤ snapshotMaxW.toNat
  height_le : h.toNat ≤ snapshotMaxH.toNat
  inside : ∀ d, Reported w h d → ∀ q ∈ snapBox fmt d,
    q.1 < fmt.height.toNat ∧ q.2 < fmt.width.toNat
  block : ∀ d, Reported w h d → snapBox fmt d =
    let f := (snapFactor fmt).toNat
    Finset.Ico (d.1 * f) ((d.1 + 1) * f) ×ˢ Finset.Ico (d.2 * f) ((d.2 + 1) * f)
  mean : ∀ d, Reported w h d →
    (img (d.1 * w.toNat + d.2)).toNat = boxMean (lumaAt fmt buf) (snapBox fmt d)
  /-- No pixel outside the frame makes a difference. -/
  reads : ∀ buf', (∀ q : ℕ × ℕ, q.1 < fmt.height.toNat → q.2 < fmt.width.toNat →
    lumaAt fmt buf' q = lumaAt fmt buf q) → frameToSnapshot fmt buf' snap = (img, w, h)
  untouched : ∀ i, snapshotMaxLen ≤ i → img i = snap i
  encodes : 0 < w.toNat → 0 < h.toNat → ∀ out,
    (pngGrayEncode img w h out pngBufSize).1 ≠ -ENOMEM

/-! ## The encoder -/

/-- The file of a small image fits `png_buf`. -/
theorem encodedSize_le {w h : ℕ} (hw : w ≤ 320) (hh : h ≤ 180) :
    Png.encodedSize w h ≤ pngBufSize := by
  have hraw : (w + 1) * h ≤ 321 * 180 := Nat.mul_le_mul (by omega) hh
  -- the rows fit in one stored block
  have hone : Zlib.blockCount ((w + 1) * h) = 1 := by
    rw [Zlib.blockCount, Zlib.blockMax, Nat.div_eq_of_lt (by omega)]
  have hsize : pngBufSize = 57908 := rfl
  rw [Png.encodedSize, hone, hsize]
  omega

/-! ## The factor -/

section Factor

variable {fmt : VideoFormat}
  (hsum : 255 * leastFactor fmt.width.toNat fmt.height.toNat ^ 2 < 2 ^ 32)

theorem divRoundUp_toNat {n d : UInt32} (hd : 0 < d.toNat) (h : n.toNat + d.toNat ≤ 2 ^ 32) :
    (divRoundUp n d).toNat = (n.toNat + (d.toNat - 1)) / d.toNat := by
  have hone : (1 : UInt32).toNat = 1 := rfl
  have hsum : (n + d - 1).toNat = n.toNat + (d.toNat - 1) := by
    rw [UInt32.toNat_sub, UInt32.toNat_add, hone]
    omega
  rw [divRoundUp, UInt32.toNat_div, hsum]

include hsum in
theorem leastFactor_le : leastFactor fmt.width.toNat fmt.height.toNat ≤ 4104 := by
  by_contra hlt
  -- a larger block would not be summable
  have hlarge : 4105 ≤ leastFactor fmt.width.toNat fmt.height.toNat := by omega
  have hsq := Nat.pow_le_pow_left hlarge 2
  omega

include hsum in
/-- The factor is the least one, where its blocks can be summed. -/
theorem snapFactor_toNat :
    (snapFactor fmt).toNat = leastFactor fmt.width.toNat fmt.height.toNat := by
  have hle := leastFactor_le hsum
  unfold leastFactor at hle
  -- the sum in `DIV_ROUND_UP` does not wrap
  have hw := divRoundUp_toNat (n := fmt.width) (d := snapshotMaxW) (by decide)
    (by show _ + 320 ≤ _; omega)
  have hh := divRoundUp_toNat (n := fmt.height) (d := snapshotMaxH) (by decide)
    (by show _ + 180 ≤ _; omega)
  have hif : (snapFactor fmt).toNat = max (divRoundUp fmt.width snapshotMaxW).toNat
      (divRoundUp fmt.height snapshotMaxH).toNat := by
    unfold snapFactor
    dsimp only
    split_ifs with hgt
    · exact (Nat.max_eq_left (UInt32.lt_iff_toNat_lt.mp hgt).le).symm
    · exact (Nat.max_eq_right (UInt32.le_iff_toNat_le.mp (UInt32.not_lt.mp hgt))).symm
  rw [hif, hw, hh]
  rfl

/-- As many blocks as the snapshot may have cover the frame. -/
theorem le_mul_leastFactor (w h : ℕ) : w ≤ 320 * leastFactor w h ∧ h ≤ 180 * leastFactor w h := by
  unfold leastFactor
  omega

include hsum in
/-- A dimension of the snapshot. -/
theorem reduced_toNat {n : UInt32} {most : ℕ} (hmost : most < 2 ^ 16)
    (hn : n.toNat ≤ most * leastFactor fmt.width.toNat fmt.height.toNat) :
    (n / snapFactor fmt).toUInt16.toNat = n.toNat / (snapFactor fmt).toNat ∧
      n.toNat / (snapFactor fmt).toNat ≤ most := by
  have hle : n.toNat / (snapFactor fmt).toNat ≤ most := by
    rw [snapFactor_toNat hsum]
    exact Nat.div_le_of_le_mul (by rw [Nat.mul_comm]; exact hn)
  refine ⟨?_, hle⟩
  rw [UInt32.toNat_toUInt16, UInt32.toNat_div]
  exact Nat.mod_eq_of_lt (by omega)

include hsum in
theorem snapW_toNat : (snapW fmt).toNat = fmt.width.toNat / (snapFactor fmt).toNat ∧
    (snapW fmt).toNat ≤ 320 := by
  obtain ⟨hval, hle⟩ := reduced_toNat hsum (by decide) (le_mul_leastFactor _ _).1
  exact ⟨hval, hval.le.trans hle⟩

include hsum in
theorem snapH_toNat : (snapH fmt).toNat = fmt.height.toNat / (snapFactor fmt).toNat ∧
    (snapH fmt).toNat ≤ 180 := by
  obtain ⟨hval, hle⟩ := reduced_toNat hsum (by decide) (le_mul_leastFactor _ _).2
  exact ⟨hval, hval.le.trans hle⟩

/-- The bounds of a block do not overflow, up to the side of the frame. -/
theorem block_toNat {f : UInt32} {side i : ℕ} (hside : side < 2 ^ 32)
    (hi : i < side / f.toNat) :
    (UInt32.ofNat i * f).toNat = i * f.toNat ∧
      ((UInt32.ofNat i + 1) * f).toNat = (i + 1) * f.toNat ∧ (i + 1) * f.toNat ≤ side := by
  have hend : (i + 1) * f.toNat ≤ side := by
    calc (i + 1) * f.toNat ≤ (side / f.toNat) * f.toNat := Nat.mul_le_mul_right _ hi
      _ ≤ side := Nat.div_mul_le_self _ _
  have hpos : 0 < f.toNat := by
    by_contra hzero
    rw [Nat.eq_zero_of_not_pos hzero, Nat.div_zero] at hi
    exact absurd hi (Nat.not_lt_zero i)
  -- the index is no larger than the end of its block, so that nothing wraps
  have hindex : i + 1 ≤ (i + 1) * f.toNat := Nat.le_mul_of_pos_right _ hpos
  rw [Nat.succ_mul] at hend hindex
  have hfst : (UInt32.ofNat i).toNat = i := by
    rw [UInt32.toNat_ofNat', Nat.mod_eq_of_lt (by omega)]
  have hone : (1 : UInt32).toNat = 1 := rfl
  have hsnd : (UInt32.ofNat i + 1).toNat = i + 1 := by
    rw [UInt32.toNat_add, hfst, hone]
    exact Nat.mod_eq_of_lt (by omega)
  rw [UInt32.toNat_mul, UInt32.toNat_mul, hfst, hsnd, Nat.succ_mul]
  exact ⟨Nat.mod_eq_of_lt (by omega), Nat.mod_eq_of_lt (by omega), hend⟩

end Factor

/-! ## The reported image -/

section Image

variable {fmt : VideoFormat}

/-- `acc` is the sum of the lumas of a block. -/
theorem snapLoops_eq (fmt : VideoFormat) (buf : Mem) {d : ℕ × ℕ}
    (hd : Reported (snapW fmt) (snapH fmt) d)
    (hsum : 255 * leastFactor fmt.width.toNat fmt.height.toNat ^ 2 < 2 ^ 32) :
    snapLoops fmt buf (UInt32.ofNat d.1) (UInt32.ofNat d.2) =
      UInt32.ofNat (∑ q ∈ snapBox fmt d, lumaAt fmt buf q) := by
  obtain ⟨hy, hx⟩ := hd
  rw [(snapH_toNat hsum).1] at hy
  rw [(snapW_toNat hsum).1] at hx
  obtain ⟨hy0, hy1, -⟩ := block_toNat fmt.height.toNat_lt hy
  obtain ⟨hx0, hx1, -⟩ := block_toNat fmt.width.toNat_lt hx
  have hluma : ∀ line x, (pixLuma fmt buf line x).toUInt32 =
      UInt32.ofNat (pixLuma fmt buf line x).toNat := fun _ _ => by simp
  unfold snapLoops
  simp only [hluma]
  refine forUp_forUp_add ?_ ?_ fun sy sx => (pixLuma fmt buf (sy * fmt.pitch) sx).toNat
  · rw [hy0, hy1, Nat.succ_mul]
    omega
  · rw [hx0, hx1, Nat.succ_mul]
    omega

theorem snapBox_eq {d : ℕ × ℕ} (hd : Reported (snapW fmt) (snapH fmt) d)
    (hsum : 255 * leastFactor fmt.width.toNat fmt.height.toNat ^ 2 < 2 ^ 32) :
    snapBox fmt d =
      let f := (snapFactor fmt).toNat
      Finset.Ico (d.1 * f) ((d.1 + 1) * f) ×ˢ Finset.Ico (d.2 * f) ((d.2 + 1) * f) := by
  obtain ⟨hy, hx⟩ := hd
  rw [(snapH_toNat hsum).1] at hy
  rw [(snapW_toNat hsum).1] at hx
  obtain ⟨hy0, hy1, -⟩ := block_toNat fmt.height.toNat_lt hy
  obtain ⟨hx0, hx1, -⟩ := block_toNat fmt.width.toNat_lt hx
  dsimp only [snapBox, box]
  rw [hy0, hy1, hx0, hx1]

/-- What is written, as a table. -/
theorem frameToSnapshot_table (fmt : VideoFormat) (buf snap : Mem) :
    (frameToSnapshot fmt buf snap).1 = tableAt
      (fun dy dx => (snapLoops fmt buf dy dx / (snapFactor fmt * snapFactor fmt)).toUInt8) snap
      (snapW fmt).toNat ((snapH fmt).toNat * (snapW fmt).toNat) := by
  have hw := (snapW fmt).toNat_lt
  have hh := (snapH fmt).toNat_lt
  have htable := forUp_table (w := (snapW fmt).toUInt32) (h := (snapH fmt).toUInt32)
    (fun dy dx => (snapLoops fmt buf dy dx / (snapFactor fmt * snapFactor fmt)).toUInt8) snap (by
      rw [UInt16.toNat_toUInt32, UInt16.toNat_toUInt32]
      calc (snapW fmt).toNat * (snapH fmt).toNat ≤ 2 ^ 16 * 2 ^ 16 := Nat.mul_le_mul hw.le hh.le
        _ = 2 ^ 32 := by norm_num)
  rwa [UInt16.toNat_toUInt32, UInt16.toNat_toUInt32] at htable

section Sum

variable (hsum : 255 * leastFactor fmt.width.toNat fmt.height.toNat ^ 2 < 2 ^ 32)
include hsum

theorem snapBox_inside {d : ℕ × ℕ} (hd : Reported (snapW fmt) (snapH fmt) d) {q : ℕ × ℕ}
    (hq : q ∈ snapBox fmt d) :
    q.1 < fmt.height.toNat ∧ q.2 < fmt.width.toNat := by
  have hy := hd.1
  have hx := hd.2
  rw [(snapH_toNat hsum).1] at hy
  rw [(snapW_toNat hsum).1] at hx
  have hyend := (block_toNat fmt.height.toNat_lt hy).2.2
  have hxend := (block_toNat fmt.width.toNat_lt hx).2.2
  rw [snapBox_eq hd hsum] at hq
  simp only [Finset.mem_product, Finset.mem_Ico] at hq
  exact ⟨hq.1.2.trans_le hyend, hq.2.2.trans_le hxend⟩

/-- A pixel of the snapshot is the mean of its block. -/
theorem frameToSnapshot_mean (buf snap : Mem) {d : ℕ × ℕ}
    (hd : Reported (snapW fmt) (snapH fmt) d) :
    ((frameToSnapshot fmt buf snap).1 (d.1 * (snapW fmt).toNat + d.2)).toNat =
      boxMean (lumaAt fmt buf) (snapBox fmt d) := by
  have hindex : d.1 * (snapW fmt).toNat + d.2 < (snapH fmt).toNat * (snapW fmt).toNat := by
    calc d.1 * (snapW fmt).toNat + d.2 < (d.1 + 1) * (snapW fmt).toNat := by
          rw [Nat.succ_mul]
          exact Nat.add_lt_add_left hd.2 _
      _ ≤ (snapH fmt).toNat * (snapW fmt).toNat := Nat.mul_le_mul_right _ hd.1
  have hcard : (snapBox fmt d).card = (snapFactor fmt).toNat * (snapFactor fmt).toNat := by
    rw [snapBox_eq hd hsum]
    simp [Nat.succ_mul]
  have hfactor : snapFactor fmt * snapFactor fmt = UInt32.ofNat (snapBox fmt d).card := by
    rw [hcard, UInt32.ofNat_mul, UInt32.ofNat_toNat]
  rw [frameToSnapshot_table, tableAt_cell _ _ hd.2 hindex, snapLoops_eq fmt buf hd hsum, hfactor]
  refine mean_toNat (lumaAt_le fmt buf) ?_
  rw [hcard, snapFactor_toNat hsum, ← Nat.pow_two]
  exact hsum

theorem frameToSnapshot_untouched (buf snap : Mem) {i : ℕ} (hi : snapshotMaxLen ≤ i) :
    (frameToSnapshot fmt buf snap).1 i = snap i := by
  have harea : (snapH fmt).toNat * (snapW fmt).toNat ≤ snapshotMaxLen := by
    calc (snapH fmt).toNat * (snapW fmt).toNat ≤ 180 * 320 :=
          Nat.mul_le_mul (snapH_toNat hsum).2 (snapW_toNat hsum).2
      _ = snapshotMaxLen := rfl
  rw [frameToSnapshot_table]
  exact tableAt_outside _ _ (harea.trans hi)

theorem frameToSnapshot_encodes (hw : 0 < (snapW fmt).toNat) (hh : 0 < (snapH fmt).toNat)
    (buf snap out : Mem) :
    (pngGrayEncode (frameToSnapshot fmt buf snap).1 (snapW fmt) (snapH fmt) out pngBufSize).1 ≠
      -ENOMEM := by
  have hsize := encodedSize_le (snapW_toNat hsum).2 (snapH_toNat hsum).2
  have hshort : pngBufSize < 2 ^ 31 := by decide
  rw [pngGrayEncode_fits _ hw hh out hsize (hsize.trans_lt hshort)]
  have hnomem : (-ENOMEM : ℤ) < 0 := by decide
  omega

/-- A cell of the snapshot is a pixel, or as it was. -/
theorem frameToSnapshot_reads {buf buf' : Mem} (snap : Mem)
    (h : ∀ q : ℕ × ℕ, q.1 < fmt.height.toNat → q.2 < fmt.width.toNat →
      lumaAt fmt buf' q = lumaAt fmt buf q) :
    frameToSnapshot fmt buf' snap = frameToSnapshot fmt buf snap := by
  refine Prod.ext (funext fun i => ?_) rfl
  by_cases hi : i < (snapH fmt).toNat * (snapW fmt).toNat
  · have hw : 0 < (snapW fmt).toNat := by
      by_contra hzero
      rw [Nat.eq_zero_of_not_pos hzero, Nat.mul_zero] at hi
      exact Nat.not_lt_zero i hi
    -- the cell is that of a pixel
    have hd : Reported (snapW fmt) (snapH fmt) (i / (snapW fmt).toNat, i % (snapW fmt).toNat) :=
      ⟨Nat.div_lt_of_lt_mul (by rwa [Nat.mul_comm]), Nat.mod_lt i hw⟩
    have hplace : i / (snapW fmt).toNat * (snapW fmt).toNat + i % (snapW fmt).toNat = i :=
      Nat.div_add_mod' i _
    have hmean := frameToSnapshot_mean hsum buf snap hd
    have hmean' := frameToSnapshot_mean hsum buf' snap hd
    -- both frames have the same lumas in the block
    have hsame : boxMean (lumaAt fmt buf')
          (snapBox fmt (i / (snapW fmt).toNat, i % (snapW fmt).toNat))
        = boxMean (lumaAt fmt buf)
          (snapBox fmt (i / (snapW fmt).toNat, i % (snapW fmt).toNat)) := by
      rw [boxMean, boxMean, Finset.sum_congr rfl fun q hq => ?_]
      obtain ⟨hrow, hcol⟩ := snapBox_inside hsum hd hq
      exact h q hrow hcol
    rw [← hsame, ← hmean'] at hmean
    dsimp only at hmean
    rw [hplace] at hmean
    exact (UInt8.toNat_inj.mp hmean).symm
  · rw [frameToSnapshot_table, frameToSnapshot_table, tableAt_outside _ _ (Nat.le_of_not_lt hi),
      tableAt_outside _ _ (Nat.le_of_not_lt hi)]

end Sum

/-- **The snapshot fits.** For every frame whose blocks can be summed, the snapshot is read inside
the frame and written inside its buffer, it is reported with at most 320 x 180 pixels, each of them
the mean of its own block, and the PNG file of what is reported fits `png_buf`. -/
theorem snapshot_fits (fmt : VideoFormat)
    (hsum : 255 * leastFactor fmt.width.toNat fmt.height.toNat ^ 2 < 2 ^ 32) (buf snap : Mem) :
    SnapshotFits fmt buf snap (frameToSnapshot fmt buf snap).1 (frameToSnapshot fmt buf snap).2.1
      (frameToSnapshot fmt buf snap).2.2 where
  width_le := (snapW_toNat hsum).2
  height_le := (snapH_toNat hsum).2
  inside _ hd _ hq := snapBox_inside hsum hd hq
  block _ hd := snapBox_eq hd hsum
  mean _ hd := frameToSnapshot_mean hsum buf snap hd
  reads _ h := frameToSnapshot_reads hsum snap h
  untouched _ hi := frameToSnapshot_untouched hsum buf snap hi
  encodes hw hh := frameToSnapshot_encodes hsum hw hh buf snap

/-- The resolution the demo asks for is halved. -/
theorem snapshot_fits_qvga :
    (frameToSnapshot qvga (fun _ => 0) (fun _ => 0)).2 = (160, 120) ∧
      SnapshotFits qvga (fun _ => 0) (fun _ => 0)
        (frameToSnapshot qvga (fun _ => 0) (fun _ => 0)).1
        (frameToSnapshot qvga (fun _ => 0) (fun _ => 0)).2.1
        (frameToSnapshot qvga (fun _ => 0) (fun _ => 0)).2.2 :=
  ⟨by decide, snapshot_fits qvga (by decide) _ _⟩

end Image

end IotcDemos.Vision
