import IotcDemos.Lib.Errno
import IotcDemos.Lib.Png
import IotcDemos.Zip.Walk

set_option autoImplicit false

/-! # The PNG encoder of the snapshots (png_gray.c)

The file is put together in the caller's buffer, piece by piece; the first piece that does not fit
sets an error, and nothing is written from then on. The scanlines go into stored blocks byte by
byte, with a filter byte in front of each row. Their length and checksum are patched in at the end.
Lengths and offsets are natural numbers: none of them passes `2^32` where the file is shorter than
`2^31` bytes.
-/

namespace IotcDemos.Vision

/-- `struct png_writer`; the buffer is all of the memory from its start on. -/
structure PngWriter where
  buf : Mem
  cap : ℕ
  len : ℕ
  err : ℤ

def putBytes (data : Bytes) (pw : PngWriter) : PngWriter :=
  -- after an error nothing is written
  if pw.err ≠ 0 then pw
  else if pw.len + data.length > pw.cap then { pw with err := -ENOMEM }
  else { pw with buf := patch pw.buf pw.len data, len := pw.len + data.length }

def putBe32 (v : UInt32) (pw : PngWriter) : PngWriter := putBytes (toBe32 v) pw

def putChunk (tag payload : Bytes) (pw : PngWriter) : PngWriter :=
  let pw1 := putBe32 (UInt32.ofNat payload.length) pw
  let crcStart := pw1.len
  let pw2 := putBytes payload (putBytes tag pw1)
  if pw2.err = 0 then putBe32 (Crc32.ieee (bytesAt pw2.buf crcStart (4 + payload.length))) pw2
  else pw2

/-- `STORED_BLOCK_MAX`. -/
def storedBlockMax : ℕ := 65535

/-- `PNG_GRAY_MAX_SIZE`. -/
def pngGrayMaxSize (w h : ℕ) : ℕ := w * h + h + 128

/-- The variables of the loops over the scanlines. -/
structure Scan where
  pw : PngWriter
  adlerA : UInt32
  adlerB : UInt32
  row : UInt16
  /-- 0 where the filter byte is next, else 1 + the index of the next pixel. -/
  col : UInt16

section Encode

variable (gray : Mem) (w : UInt16)

/-- The next byte of the scanlines, with the row and the column after it. -/
def nextByte (s : Scan) : UInt8 × UInt16 × UInt16 :=
  if s.col = 0 then (0, s.row, 1)
  else
    let byte := gray (s.row.toNat * w.toNat + (s.col.toNat - 1))
    -- the last pixel of a row; the counters wrap
    if s.col + 1 = w + 1 then (byte, s.row + 1, 0) else (byte, s.row, s.col + 1)

/-- One round of the loop over the bytes of a block. -/
def emitByte (s : Scan) : Scan :=
  let (byte, row, col) := nextByte gray w s
  let adlerA := (s.adlerA + byte.toUInt32) % 65521
  { pw := putBytes [byte] s.pw
    adlerA := adlerA
    adlerB := (s.adlerB + adlerA) % 65521
    row := row
    col := col }

def emitBytes : ℕ → Scan → Scan
  | 0, s => s
  | n + 1, s => emitBytes n (emitByte gray w s)

def blockHeader (final : Bool) (block : ℕ) : Bytes :=
  (if final then 1 else 0) ::
    (toLe16 (UInt16.ofNat block) ++ toLe16 (~~~ UInt16.ofNat block))

/-- The loop over the blocks. -/
def emitBlocks (rawTotal emitted : ℕ) (s : Scan) : Scan :=
  if emitted < rawTotal then
    let block := min (rawTotal - emitted) storedBlockMax
    let pw := putBytes (blockHeader (emitted + block == rawTotal) block) s.pw
    emitBlocks rawTotal (emitted + block) (emitBytes gray w block { s with pw := pw })
  else s
termination_by rawTotal - emitted
decreasing_by
  unfold storedBlockMax
  omega

/-- `png_gray_encode` up to the Adler-32: the offsets of the length and of the tag of the `IDAT`
chunk, and the writer. -/
def putScanlines (h : UInt16) (out : Mem) (outSize : ℕ) : ℕ × ℕ × PngWriter :=
  let pw := putBytes [0x89, 0x50, 0x4E, 0x47, 13, 10, 0x1A, 10]
    { buf := out, cap := outSize, len := 0, err := 0 }
  let ihdr := toBe32 w.toUInt32 ++ (toBe32 h.toUInt32 ++ [8, 0, 0, 0, 0])
  let pw := putChunk (ascii "IHDR") ihdr pw
  let rawTotal := (w.toNat + 1) * h.toNat
  let idatLenPos := pw.len
  let pw := putBe32 0 pw
  let idatTagPos := pw.len
  let pw := putBytes [0x78, 0x01] (putBytes (ascii "IDAT") pw)
  let s := emitBlocks gray w rawTotal 0
    { pw := pw, adlerA := 1, adlerB := 0, row := 0, col := 0 }
  (idatLenPos, idatTagPos, putBe32 ((s.adlerB <<< 16) ||| s.adlerA) s.pw)

/-- The rest of `png_gray_encode`, when all has fitted so far: the length and the checksum of the
`IDAT` chunk, and the last chunk. -/
def closeIdat (idatLenPos idatTagPos : ℕ) (pw : PngWriter) : PngWriter :=
  let idatPayload := pw.len - idatTagPos - 4
  let buf := patch pw.buf idatLenPos (toBe32 (UInt32.ofNat idatPayload))
  let crc := Crc32.ieee (bytesAt buf idatTagPos (4 + idatPayload))
  putChunk (ascii "IEND") [] (putBe32 crc { pw with buf := buf })

/-- `png_gray_encode`: the return value, and the memory from `out` on. -/
def pngGrayEncode (h : UInt16) (out : Mem) (outSize : ℕ) : ℤ × Mem :=
  let (idatLenPos, idatTagPos, pw) := putScanlines gray w h out outSize
  if pw.err ≠ 0 then (pw.err, pw.buf)
  else
    let pw := closeIdat idatLenPos idatTagPos pw
    -- the length is cast to `int`
    (if pw.err = 0 then Int.bmod pw.len (2 ^ 32) else pw.err, pw.buf)

end Encode

/-! ## The writer -/

/-- `pw'` is what `pw` becomes when `data` is put, in whatever pieces. -/
structure Wrote (pw : PngWriter) (data : Bytes) (pw' : PngWriter) : Prop where
  cap : pw'.cap = pw.cap
  fits : pw.err = 0 → pw.len + data.length ≤ pw.cap →
    pw' = { pw with buf := patch pw.buf pw.len data, len := pw.len + data.length }
  full : pw.err = 0 → pw.cap < pw.len + data.length → pw'.err = -ENOMEM
  sticky : pw.err ≠ 0 → pw' = pw
  outside : ∀ i, pw.cap ≤ i → pw'.buf i = pw.buf i

section Writer

variable {pw pw1 pw2 : PngWriter} {a b : Bytes}

theorem putBytes_wrote (data : Bytes) (pw : PngWriter) : Wrote pw data (putBytes data pw) := by
  unfold putBytes
  by_cases herr : pw.err ≠ 0
  · rw [if_pos herr]
    exact ⟨rfl, fun h => absurd h herr, fun h => absurd h herr, fun _ => rfl, fun _ _ => rfl⟩
  · rw [if_neg herr]
    by_cases hroom : pw.len + data.length > pw.cap
    · rw [if_pos hroom]
      exact ⟨rfl, fun _ h => by omega, fun _ _ => rfl, fun h => absurd h herr, fun _ _ => rfl⟩
    · rw [if_neg hroom]
      refine ⟨rfl, fun _ _ => rfl, fun _ h => by omega, fun h => absurd h herr, fun i hi => ?_⟩
      exact patch_outside (by omega)

theorem Wrote.ok (h : Wrote pw a pw1) (herr : pw1.err = 0) :
    pw.err = 0 ∧ pw.len + a.length ≤ pw.cap := by
  -- an error would have stayed
  have hbefore : pw.err = 0 := by
    by_contra hne
    rw [h.sticky hne] at herr
    exact hne herr
  refine ⟨hbefore, ?_⟩
  by_contra hroom
  rw [h.full hbefore (by omega)] at herr
  exact absurd herr (by decide)

theorem Wrote.fits_len (h : Wrote pw a pw1) (herr : pw.err = 0)
    (hroom : pw.len + a.length ≤ pw.cap) : pw1.err = 0 ∧ pw1.len = pw.len + a.length := by
  rw [h.fits herr hroom]
  exact ⟨herr, rfl⟩

theorem Wrote.room (h : Wrote pw a pw1) : pw1.err = 0 → pw1.len ≤ pw1.cap := by
  intro herr
  obtain ⟨hbefore, hroom⟩ := h.ok herr
  rw [(h.fits_len hbefore hroom).2, h.cap]
  exact hroom

theorem Wrote.append (h1 : Wrote pw a pw1) (h2 : Wrote pw1 b pw2) : Wrote pw (a ++ b) pw2 where
  cap := h2.cap.trans h1.cap
  fits herr hroom := by
    rw [List.length_append] at hroom
    obtain ⟨herr1, hlen1⟩ := h1.fits_len herr (by omega)
    have hcap := h1.cap
    rw [h2.fits herr1 (by omega), h1.fits herr (by omega), List.length_append, Nat.add_assoc,
      patch_append]
  full herr hroom := by
    rw [List.length_append] at hroom
    by_cases hfirst : pw.len + a.length ≤ pw.cap
    · obtain ⟨herr1, hlen1⟩ := h1.fits_len herr hfirst
      have hcap := h1.cap
      exact h2.full herr1 (by omega)
    · have hfull := h1.full herr (by omega)
      rw [h2.sticky (by rw [hfull]; decide), hfull]
  sticky herr := by
    have hpw1 := h1.sticky herr
    rw [h2.sticky (by rw [hpw1]; exact herr), hpw1]
  outside i hi := by
    rw [h2.outside i (by rw [h1.cap]; exact hi), h1.outside i hi]

/-- After an error everything can be put. -/
theorem wrote_failed (data : Bytes) (herr : pw.err ≠ 0) : Wrote pw data pw :=
  ⟨rfl, fun h => absurd h herr, fun h => absurd h herr, fun _ => rfl, fun _ _ => rfl⟩

/-- What did not fit would not have fitted with more behind it. -/
theorem Wrote.longer (h : Wrote pw a pw1) (herr : pw1.err ≠ 0) (hlen : a.length ≤ b.length) :
    Wrote pw b pw1 where
  cap := h.cap
  fits hbefore hroom := absurd (h.fits_len hbefore (by omega)).1 herr
  full hbefore _ := by
    refine h.full hbefore ?_
    -- the shorter text would have fitted
    by_contra hroom
    exact herr (h.fits_len hbefore (by omega)).1
  sticky := h.sticky
  outside := h.outside

theorem wrote_nil (herr : pw.err = 0 → pw.len ≤ pw.cap) : Wrote pw [] pw where
  cap := rfl
  fits _ _ := by simp
  full h hroom := absurd hroom (by simp only [List.length_nil]; have := herr h; omega)
  sticky _ := rfl
  outside _ _ := rfl

/-- What was put last can be read back. -/
theorem Wrote.read (h : Wrote pw (a ++ b) pw1) (herr : pw1.err = 0) :
    bytesAt pw1.buf (pw.len + a.length) b.length = b := by
  obtain ⟨hbefore, hroom⟩ := h.ok herr
  rw [h.fits hbefore hroom, ← patch_append]
  exact bytesAt_patch _ _ b

/-- A part of what was put can be overwritten. -/
theorem Wrote.patched {x y : Bytes} (h : Wrote pw (a ++ (x ++ b)) pw1) (herr : pw1.err = 0)
    (hlen : x.length = y.length) :
    Wrote pw (a ++ (y ++ b)) { pw1 with buf := patch pw1.buf (pw.len + a.length) y } := by
  obtain ⟨hbefore, hroom⟩ := h.ok herr
  have hsame : (a ++ (y ++ b)).length = (a ++ (x ++ b)).length := by
    simp only [List.length_append, hlen]
  refine ⟨h.cap, ?_, ?_, ?_, ?_⟩
  · intro _ _
    rw [h.fits hbefore hroom, hsame, patch_replace _ _ hlen]
  · intro _ hfull
    omega
  · intro hne
    exact absurd hbefore hne
  · intro i hi
    have hbehind : pw.len + a.length + y.length ≤ i := by
      simp only [List.length_append] at hroom
      omega
    calc patch pw1.buf (pw.len + a.length) y i
        = pw1.buf i := patch_outside (Or.inr hbehind)
      _ = pw.buf i := h.outside i hi

/-- A chunk is put with the checksum of its tag and payload. -/
theorem putChunk_wrote {tag : Bytes} (payload : Bytes) (pw : PngWriter) (htag : tag.length = 4) :
    Wrote pw (Png.chunk tag payload) (putChunk tag payload pw) := by
  have hlen : Wrote pw (toBe32 (UInt32.ofNat payload.length))
      (putBe32 (UInt32.ofNat payload.length) pw) := putBytes_wrote _ pw
  have hbody := (putBytes_wrote tag (putBe32 (UInt32.ofNat payload.length) pw)).append
    (putBytes_wrote payload _)
  have hall := hlen.append hbody
  unfold putChunk Png.chunk
  dsimp only
  generalize hpw1 : putBe32 (UInt32.ofNat payload.length) pw = pw1 at hlen hbody hall
  generalize hpw2 : putBytes payload (putBytes tag pw1) = pw2 at hbody hall
  by_cases herr : pw2.err = 0
  · rw [if_pos herr]
    obtain ⟨hstart, hroom⟩ := hall.ok herr
    have hpos : pw1.len = pw.len + (toBe32 (UInt32.ofNat payload.length)).length := by
      rw [List.length_append] at hroom
      exact (hlen.fits_len hstart (by omega)).2
    -- the checksum is computed from what has just been put
    have hread : bytesAt pw2.buf pw1.len (4 + payload.length) = tag ++ payload := by
      rw [hpos, ← htag, ← List.length_append]
      exact hall.read herr
    rw [hread]
    exact hall.append (putBytes_wrote _ pw2)
  · rw [if_neg herr]
    exact hall.append (wrote_failed _ herr)

end Writer

/-! ## The scanlines -/

/-- Byte `k` of the scanlines of rows of `width` pixels. -/
def rawByte (gray : Mem) (width k : ℕ) : UInt8 :=
  if k % (width + 1) = 0 then 0 else gray (k / (width + 1) * width + (k % (width + 1) - 1))

/-- The loops are at byte `k`: the place in the rows, and the sums of the bytes before. -/
structure ScanAt (gray : Mem) (w : UInt16) (k : ℕ) (s : Scan) : Prop where
  pos : s.row.toNat * (w.toNat + 1) + s.col.toNat = k
  col_le : s.col.toNat ≤ w.toNat
  sums : Zlib.adlerSums ((List.range k).map (rawByte gray w.toNat)) =
    (s.adlerA.toNat, s.adlerB.toNat)

section Scanlines

variable {gray : Mem} {w : UInt16} {k height : ℕ} {s : Scan}

theorem rawByte_at {row col width : ℕ} (hcol : col ≤ width) :
    rawByte gray width (row * (width + 1) + col) =
      if col = 0 then 0 else gray (row * width + (col - 1)) := by
  have hmod : (row * (width + 1) + col) % (width + 1) = col := by
    rw [Nat.mul_add_mod', Nat.mod_eq_of_lt (by omega)]
  have hdiv : (row * (width + 1) + col) / (width + 1) = row := by
    rw [Nat.add_comm, Nat.add_mul_div_right _ _ (by omega), Nat.div_eq_of_lt (by omega),
      Nat.zero_add]
  rw [rawByte, hmod, hdiv]

variable (gray) in
/-- The byte that comes next, and the place after it; the counters do not wrap too early. -/
theorem nextByte_at (hrow : s.row.toNat + 1 < 2 ^ 16) (hcol : s.col.toNat ≤ w.toNat)
    (hw : 0 < w.toNat) :
    (nextByte gray w s).1 = rawByte gray w.toNat (s.row.toNat * (w.toNat + 1) + s.col.toNat) ∧
      (nextByte gray w s).2.1.toNat * (w.toNat + 1) + (nextByte gray w s).2.2.toNat =
        s.row.toNat * (w.toNat + 1) + s.col.toNat + 1 ∧
      (nextByte gray w s).2.2.toNat ≤ w.toNat := by
  rw [rawByte_at hcol]
  have hwlt := w.toNat_lt
  have hzero : s.col = 0 ↔ s.col.toNat = 0 := by
    rw [← UInt16.toNat_inj]
    rfl
  unfold nextByte
  by_cases hfilter : s.col = 0
  · rw [if_pos hfilter, if_pos (hzero.mp hfilter)]
    refine ⟨rfl, ?_, ?_⟩
    · show s.row.toNat * (w.toNat + 1) + 1 = _
      rw [hzero.mp hfilter]
    · exact hw
  · rw [if_neg hfilter, if_neg (fun h => hfilter (hzero.mpr h))]
    by_cases hlast : s.col + 1 = w + 1
    · -- the last pixel of a row, also where the column counter wraps
      have hcolw : s.col.toNat = w.toNat := by
        have hmod := congrArg UInt16.toNat hlast
        rw [UInt16.toNat_add, UInt16.toNat_add, UInt16.toNat_one] at hmod
        omega
      have hsucc : (s.row + 1).toNat = s.row.toNat + 1 := by
        rw [UInt16.toNat_add, UInt16.toNat_one, Nat.mod_eq_of_lt hrow]
      dsimp only
      rw [if_pos hlast]
      refine ⟨rfl, ?_, Nat.zero_le _⟩
      show (s.row + 1).toNat * (w.toNat + 1) + 0 = _
      rw [hsucc, hcolw]
      ring
    · have hcolne : s.col.toNat ≠ w.toNat := fun h =>
        hlast (by rw [UInt16.toNat_inj.mp h])
      have hsucc : (s.col + 1).toNat = s.col.toNat + 1 := by
        rw [UInt16.toNat_add, UInt16.toNat_one, Nat.mod_eq_of_lt (by omega)]
      dsimp only
      rw [if_neg hlast]
      refine ⟨rfl, ?_, ?_⟩
      · show s.row.toNat * (w.toNat + 1) + (s.col + 1).toNat = _
        rw [hsucc, Nat.add_assoc]
      · show (s.col + 1).toNat ≤ _
        rw [hsucc]
        omega

/-- The sums in 32 bits are those of the checksum. -/
theorem adler_words {a b : UInt32} (x : UInt8) (ha : a.toNat < Zlib.adlerBase)
    (hb : b.toNat < Zlib.adlerBase) :
    (((a + x.toUInt32) % 65521).toNat, ((b + (a + x.toUInt32) % 65521) % 65521).toNat) =
      Zlib.adlerStep (a.toNat, b.toNat) x := by
  have hx := x.toNat_lt
  have hbase : Zlib.adlerBase = 65521 := rfl
  have hmod : (65521 : UInt32).toNat = 65521 := rfl
  have ha' : ((a + x.toUInt32) % 65521).toNat = (a.toNat + x.toNat) % 65521 :=
    calc ((a + x.toUInt32) % 65521).toNat
        = (a.toNat + x.toNat) % 2 ^ 32 % 65521 := by
          rw [UInt32.toNat_mod, UInt32.toNat_add, UInt8.toNat_toUInt32, hmod]
      _ = (a.toNat + x.toNat) % 65521 := by
          rw [Nat.mod_eq_of_lt (by omega : a.toNat + x.toNat < 2 ^ 32)]
  have hb' : ((b + (a + x.toUInt32) % 65521) % 65521).toNat =
      (b.toNat + (a.toNat + x.toNat) % 65521) % 65521 :=
    calc ((b + (a + x.toUInt32) % 65521) % 65521).toNat
        = (b.toNat + (a.toNat + x.toNat) % 65521) % 2 ^ 32 % 65521 := by
          rw [UInt32.toNat_mod, UInt32.toNat_add, ha', hmod]
      _ = (b.toNat + (a.toNat + x.toNat) % 65521) % 65521 := by
          rw [Nat.mod_eq_of_lt (by omega : b.toNat + (a.toNat + x.toNat) % 65521 < 2 ^ 32)]
  rw [ha', hb']
  rfl

theorem emitByte_at (h : ScanAt gray w k s) (hw : 0 < w.toNat)
    (hk : k < (w.toNat + 1) * height) (hheight : height < 2 ^ 16) :
    ScanAt gray w (k + 1) (emitByte gray w s) ∧
      (emitByte gray w s).pw = putBytes [rawByte gray w.toNat k] s.pw := by
  -- byte `k` lies in one of the rows
  have hrow : s.row.toNat < height := by
    have hpos := h.pos
    by_contra hge
    have hmul := Nat.mul_le_mul_right (w.toNat + 1) (Nat.not_lt.mp hge)
    rw [Nat.mul_comm height] at hmul
    omega
  obtain ⟨hbyte, hnext, hcol⟩ := nextByte_at gray (s := s) (by omega) h.col_le hw
  rw [h.pos] at hbyte hnext
  have hlt := Zlib.adlerSums_lt ((List.range k).map (rawByte gray w.toNat))
  rw [h.sums] at hlt
  refine ⟨⟨hnext, hcol, ?_⟩, ?_⟩
  · rw [List.range_succ, List.map_append, List.map_singleton, Zlib.adlerSums_snoc, h.sums,
      ← hbyte]
    exact (adler_words _ hlt.1 hlt.2).symm
  · show putBytes [(nextByte gray w s).1] s.pw = _
    rw [hbyte]

/-- The bytes `k, …, k + n - 1` of the scanlines. -/
def rawBytes (gray : Mem) (width k n : ℕ) : Bytes := (List.range' k n).map (rawByte gray width)

theorem rawBytes_length (gray : Mem) (width k n : ℕ) : (rawBytes gray width k n).length = n := by
  rw [rawBytes, List.length_map, List.length_range']

theorem rawBytes_append (gray : Mem) (width k m n : ℕ) :
    rawBytes gray width k (m + n) = rawBytes gray width k m ++ rawBytes gray width (k + m) n := by
  rw [rawBytes, ← List.range'_append_1, List.map_append]
  rfl

/-- A row is a filter byte and the pixels. -/
theorem rawBytes_row (gray : Mem) (width row : ℕ) :
    rawBytes gray width (row * (width + 1)) (width + 1) =
      0 :: bytesAt gray (row * width) width := by
  have hfilter : rawByte gray width (row * (width + 1)) = 0 := by
    have hbyte : rawByte gray width (row * (width + 1) + 0) = _ := rawByte_at (Nat.zero_le width)
    rwa [Nat.add_zero, if_pos rfl] at hbyte
  rw [rawBytes, List.range'_succ, List.map_cons, hfilter]
  congr 1
  apply List.ext_getElem
  · simp
  · intro j hj hj'
    have hjw : j < width := by simpa using hj'
    have hpixel : rawByte gray width (row * (width + 1) + (j + 1)) = _ := rawByte_at (by omega)
    rw [if_neg (Nat.succ_ne_zero j)] at hpixel
    simp only [bytesAt, List.getElem_map, List.getElem_range', Nat.one_mul]
    rw [Nat.add_assoc, Nat.add_comm 1 j, hpixel, Nat.add_sub_cancel]

/-- The bytes of the loops are the scanlines of the image. -/
theorem scanlines_rawBytes (gray : Mem) (width row rows : ℕ) :
    Png.scanlines width rows (bytesAt gray (row * width) (width * rows)) =
      rawBytes gray width (row * (width + 1)) ((width + 1) * rows) := by
  induction rows generalizing row with
  | zero => rfl
  | succ rows ih =>
      have hnext : row * width + width = (row + 1) * width := by ring
      have hnext' : row * (width + 1) + (width + 1) = (row + 1) * (width + 1) := by ring
      have htotal : (width + 1) * (rows + 1) = (width + 1) + (width + 1) * rows := by ring
      calc Png.scanlines width (rows + 1) (bytesAt gray (row * width) (width * (rows + 1)))
          = Png.scanlines width (rows + 1) (bytesAt gray (row * width) width
              ++ bytesAt gray ((row + 1) * width) (width * rows)) := by
            rw [Nat.mul_succ, Nat.add_comm (width * rows), bytesAt_append, hnext]
        _ = (0 :: bytesAt gray (row * width) width)
              ++ Png.scanlines width rows (bytesAt gray ((row + 1) * width) (width * rows)) := by
            rw [Png.scanlines, List.take_left' (bytesAt_length _ _ _),
              List.drop_left' (bytesAt_length _ _ _)]
            rfl
        _ = rawBytes gray width (row * (width + 1)) (width + 1)
              ++ rawBytes gray width ((row + 1) * (width + 1)) ((width + 1) * rows) := by
            rw [ih (row + 1), rawBytes_row]
        _ = rawBytes gray width (row * (width + 1)) ((width + 1) * (rows + 1)) := by
            rw [htotal, rawBytes_append gray width _ (width + 1), hnext']

/-! ## The loops -/

/-- `n` rounds of the loop over bytes put the next `n` bytes. -/
theorem emitBytes_at {n : ℕ} (h : ScanAt gray w k s) (hw : 0 < w.toNat)
    (hk : k + n ≤ (w.toNat + 1) * height) (hheight : height < 2 ^ 16)
    (hroom : s.pw.err = 0 → s.pw.len ≤ s.pw.cap) :
    ScanAt gray w (k + n) (emitBytes gray w n s) ∧
      Wrote s.pw (rawBytes gray w.toNat k n) (emitBytes gray w n s).pw := by
  induction n generalizing k s with
  | zero => exact ⟨h, wrote_nil hroom⟩
  | succ n ih =>
      obtain ⟨hnext, hpw⟩ := emitByte_at h hw (by omega : k < (w.toNat + 1) * height) hheight
      have hput : Wrote s.pw [rawByte gray w.toNat k] (emitByte gray w s).pw := by
        rw [hpw]
        exact putBytes_wrote _ s.pw
      obtain ⟨hat, hrest⟩ := ih hnext (by omega) hput.room
      have hbytes : rawBytes gray w.toNat k (n + 1) =
          [rawByte gray w.toNat k] ++ rawBytes gray w.toNat (k + 1) n := by
        rw [Nat.add_comm n 1, rawBytes_append]
        rfl
      have hplace : k + 1 + n = k + (n + 1) := by omega
      rw [hbytes, ← hplace]
      exact ⟨hat, hput.append hrest⟩

/-- One round of the loop over blocks puts a stored block. -/
theorem emitBlock_at {block : ℕ} (final : Bool) (h : ScanAt gray w k s) (hw : 0 < w.toNat)
    (hk : k + block ≤ (w.toNat + 1) * height) (hheight : height < 2 ^ 16) :
    let s' := emitBytes gray w block { s with pw := putBytes (blockHeader final block) s.pw }
    ScanAt gray w (k + block) s' ∧
      Wrote s.pw (Zlib.storedBlock final (rawBytes gray w.toNat k block)) s'.pw := by
  have hhead := putBytes_wrote (blockHeader final block) s.pw
  have hat : ScanAt gray w k { s with pw := putBytes (blockHeader final block) s.pw } :=
    ⟨h.pos, h.col_le, h.sums⟩
  obtain ⟨hnext, hdata⟩ := emitBytes_at hat hw hk hheight hhead.room
  have hblock : Zlib.storedBlock final (rawBytes gray w.toNat k block) =
      blockHeader final block ++ rawBytes gray w.toNat k block := by
    rw [Zlib.storedBlock, rawBytes_length]
    rfl
  rw [hblock]
  exact ⟨hnext, hhead.append hdata⟩

/-- **The loop over the blocks puts the rest of the scanlines in stored blocks.** -/
theorem emitBlocks_at (h : ScanAt gray w k s) (hw : 0 < w.toNat)
    (hk : k < (w.toNat + 1) * height) (hheight : height < 2 ^ 16) :
    ScanAt gray w ((w.toNat + 1) * height) (emitBlocks gray w ((w.toNat + 1) * height) k s) ∧
      Wrote s.pw (Zlib.stored (rawBytes gray w.toNat k ((w.toNat + 1) * height - k)))
        (emitBlocks gray w ((w.toNat + 1) * height) k s).pw := by
  generalize htotal : (w.toNat + 1) * height = total at hk ⊢
  have hmax : storedBlockMax = Zlib.blockMax := rfl
  induction hleft : total - k using Nat.strong_induction_on generalizing k s with
  | _ left ih =>
      rw [emitBlocks, if_pos hk]
      dsimp only
      by_cases hlast : left ≤ Zlib.blockMax
      · -- the last block, behind which the loop ends
        have hblock : min left storedBlockMax = left := by omega
        have hend : k + left = total := by omega
        obtain ⟨hat, hwrote⟩ := emitBlock_at true h hw
          (by omega : k + left ≤ (w.toNat + 1) * height) hheight
        rw [hleft, hblock, hend, emitBlocks, if_neg (Nat.lt_irrefl _), beq_self_eq_true,
          Zlib.stored, if_pos (by rw [rawBytes_length]; exact hlast)]
        rw [hend] at hat
        exact ⟨hat, hwrote⟩
      · have hblock : min left storedBlockMax = Zlib.blockMax := by omega
        have hmore : (k + Zlib.blockMax == total) = false := by
          rw [beq_eq_false_iff_ne]
          omega
        have hpos : 0 < Zlib.blockMax := by decide
        obtain ⟨hat, hwrote⟩ := emitBlock_at false h hw
          (by omega : k + Zlib.blockMax ≤ (w.toNat + 1) * height) hheight
        obtain ⟨hend, hrest⟩ := ih (total - (k + Zlib.blockMax)) (by omega) hat (by omega) rfl
        have hcount : Zlib.blockMax + (total - (k + Zlib.blockMax)) = left := by omega
        -- a full block, and the rest of the scanlines
        have hsplit : rawBytes gray w.toNat k left = rawBytes gray w.toNat k Zlib.blockMax
            ++ rawBytes gray w.toNat (k + Zlib.blockMax) (total - (k + Zlib.blockMax)) := by
          rw [← rawBytes_append, hcount]
        rw [hleft, hblock, hmore, Zlib.stored, if_neg (by rw [rawBytes_length]; exact hlast),
          hsplit, List.take_left' (rawBytes_length _ _ _ _),
          List.drop_left' (rawBytes_length _ _ _ _)]
        exact ⟨hend, hwrote.append hrest⟩

end Scanlines

/-! ## The file -/

/-- The checksum word that is put. -/
theorem adler_word {a b : UInt32} {data : Bytes}
    (hsums : Zlib.adlerSums data = (a.toNat, b.toNat)) :
    (b <<< 16) ||| a = Zlib.adler32 data := by
  have hlt := Zlib.adlerSums_lt data
  rw [hsums] at hlt
  have hbase : Zlib.adlerBase = 65521 := rfl
  have hshift : (b <<< 16).toNat = 2 ^ 16 * b.toNat :=
    calc (b <<< 16).toNat
        = b.toNat <<< 16 % 2 ^ 32 := UInt32.toNat_shiftLeft b 16
      _ = 2 ^ 16 * b.toNat := by
          rw [Nat.shiftLeft_eq, Nat.mul_comm, Nat.mod_eq_of_lt (by omega)]
  apply UInt32.toNat_inj.mp
  calc ((b <<< 16) ||| a).toNat
      = 2 ^ 16 * b.toNat ||| a.toNat := by rw [UInt32.toNat_or, hshift]
    _ = 2 ^ 16 * b.toNat + a.toNat := (Nat.two_pow_add_eq_or_of_lt (by omega) _).symm
    _ = (b.toNat * 65536 + a.toNat) % 2 ^ 32 := by rw [Nat.mod_eq_of_lt (by omega), Nat.mul_comm]
    _ = (Zlib.adler32 data).toNat := by rw [Zlib.adler32, hsums, UInt32.toNat_ofNat']

section File

variable {gray : Mem} {w h : UInt16} {out : Mem} {outSize : ℕ}

/-- The signature and the header chunk. -/
def pngFront (w h : UInt16) : Bytes :=
  Png.signature ++ Png.chunk (ascii "IHDR") (Png.header w.toNat h.toNat)

/-- The compressed scanlines. -/
def pngData (gray : Mem) (w h : UInt16) : Bytes :=
  Zlib.compressStored (rawBytes gray w.toNat 0 ((w.toNat + 1) * h.toNat))

variable (gray out outSize) in
/-- Up to the Adler-32 the file is put with a length of 0 in its `IDAT` chunk. -/
theorem putScanlines_wrote (hw : 0 < w.toNat) (hh : 0 < h.toNat) :
    let (idatLenPos, idatTagPos, pw) := putScanlines gray w h out outSize
    Wrote { buf := out, cap := outSize, len := 0, err := 0 }
        (pngFront w h ++ (toBe32 0 ++ (ascii "IDAT" ++ pngData gray w h))) pw ∧
      (pw.err = 0 → idatLenPos = (pngFront w h).length ∧
        idatTagPos = (pngFront w h).length + 4) := by
  have htotal : 0 < (w.toNat + 1) * h.toNat := Nat.mul_pos (Nat.succ_pos _) hh
  have hword : ∀ x : UInt16, x.toUInt32 = UInt32.ofNat x.toNat := fun x =>
    UInt32.toNat_inj.mp (by simp)
  have hihdr : toBe32 w.toUInt32 ++ (toBe32 h.toUInt32 ++ [8, 0, 0, 0, 0]) =
      Png.header w.toNat h.toNat := by
    rw [hword, hword]
    rfl
  unfold putScanlines
  dsimp only
  rw [hihdr]
  generalize hpw0 : ({ buf := out, cap := outSize, len := 0, err := 0 } : PngWriter) = pw0
  have hsig := putBytes_wrote Png.signature pw0
  have hfront : Wrote pw0 (pngFront w h) _ :=
    hsig.append (putChunk_wrote (Png.header w.toNat h.toNat) _ rfl)
  rw [show ([0x89, 0x50, 0x4E, 0x47, 13, 10, 0x1A, 10] : Bytes) = Png.signature from rfl]
  generalize putChunk (ascii "IHDR") (Png.header w.toNat h.toNat) (putBytes Png.signature pw0) = pw2
    at hfront ⊢
  have hlen : Wrote pw2 (toBe32 0) (putBe32 0 pw2) := putBytes_wrote _ pw2
  generalize putBe32 0 pw2 = pw3 at hlen ⊢
  have htag := putBytes_wrote (ascii "IDAT") pw3
  have hzhdr := putBytes_wrote [0x78, 0x01] (putBytes (ascii "IDAT") pw3)
  generalize putBytes [0x78, 0x01] (putBytes (ascii "IDAT") pw3) = pw5 at hzhdr ⊢
  have hstart : ScanAt gray w 0 { pw := pw5, adlerA := 1, adlerB := 0, row := 0, col := 0 } :=
    ⟨by simp, Nat.zero_le _, rfl⟩
  obtain ⟨hend, hblocks⟩ := emitBlocks_at hstart hw htotal h.toNat_lt
  generalize emitBlocks gray w _ 0 _ = s at hend hblocks ⊢
  have hsum : (s.adlerB <<< 16) ||| s.adlerA =
      Zlib.adler32 (rawBytes gray w.toNat 0 ((w.toNat + 1) * h.toNat)) := by
    refine adler_word ?_
    rw [rawBytes, ← List.range_eq_range']
    exact hend.sums
  rw [hsum]
  have hadler : Wrote s.pw _ (putBe32 _ s.pw) := putBytes_wrote (toBe32 (Zlib.adler32
    (rawBytes gray w.toNat 0 ((w.toNat + 1) * h.toNat)))) s.pw
  have hall := hfront.append (hlen.append (htag.append ((hzhdr.append hblocks).append hadler)))
  refine ⟨hall, fun herr => ?_⟩
  obtain ⟨hok, hroom⟩ := hall.ok herr
  have hzero : pw0.len = 0 := by rw [← hpw0]
  rw [List.length_append, List.length_append, toBe32_length] at hroom
  obtain ⟨herr2, hlen2⟩ := hfront.fits_len hok (by omega)
  have hcap2 := hfront.cap
  obtain ⟨-, hlen3⟩ := hlen.fits_len herr2 (by rw [toBe32_length]; omega)
  rw [toBe32_length] at hlen3
  constructor <;> omega

/-- The file of the scanlines. -/
def pngFile (gray : Mem) (w h : UInt16) : Bytes :=
  pngFront w h ++ (Png.chunk (ascii "IDAT") (pngData gray w h) ++ Png.chunk (ascii "IEND") [])

/-- The length and the checksum of the `IDAT` chunk and the last chunk complete what was put. -/
theorem closeIdat_wrote {pw0 pw : PngWriter} {front data : Bytes} (hstart : pw0.len = 0)
    (hput : Wrote pw0 (front ++ (toBe32 0 ++ (ascii "IDAT" ++ data))) pw) (herr : pw.err = 0) :
    Wrote pw0 (front ++ (Png.chunk (ascii "IDAT") data ++ Png.chunk (ascii "IEND") []))
      (closeIdat front.length (front.length + 4) pw) := by
  have hidat : (ascii "IDAT" ++ data).length = 4 + data.length := List.length_append
  obtain ⟨hok, hroom⟩ := hput.ok herr
  have hpayload : pw.len - (front.length + 4) - 4 = data.length := by
    rw [(hput.fits_len hok hroom).2, hstart, List.length_append, List.length_append, toBe32_length,
      hidat]
    omega
  have hpatched := hput.patched herr (y := toBe32 (UInt32.ofNat data.length)) rfl
  rw [hstart, Nat.zero_add] at hpatched
  unfold closeIdat
  simp only [hpayload]
  generalize hbuf : patch pw.buf front.length (toBe32 (UInt32.ofNat data.length)) = buf
    at hpatched ⊢
  -- the tag and the data lie behind the patched length
  have hread : bytesAt buf (front.length + 4) (4 + data.length) = ascii "IDAT" ++ data := by
    rw [← List.append_assoc] at hpatched
    have hpart := hpatched.read herr
    rwa [hstart, Nat.zero_add, List.length_append, toBe32_length, hidat] at hpart
  rw [hread]
  have hrest := (putBytes_wrote (toBe32 (Crc32.ieee (ascii "IDAT" ++ data)))
    { pw with buf := buf }).append (putChunk_wrote [] _ (rfl : (ascii "IEND").length = 4))
  have hfile : front ++ (Png.chunk (ascii "IDAT") data ++ Png.chunk (ascii "IEND") []) =
      front ++ (toBe32 (UInt32.ofNat data.length) ++ (ascii "IDAT" ++ data)) ++
        (toBe32 (Crc32.ieee (ascii "IDAT" ++ data)) ++ Png.chunk (ascii "IEND") []) := by
    simp only [Png.chunk, List.append_assoc]
  rw [hfile]
  exact hpatched.append hrest

/-- The image that `gray` holds. -/
def grayImage (gray : Mem) (w h : UInt16) (hw : 0 < w.toNat) (hh : 0 < h.toNat) :
    Png.GrayImage where
  width := w.toNat
  height := h.toNat
  pixels := bytesAt gray 0 (w.toNat * h.toNat)
  width_pos := hw
  width_lt := lt_trans w.toNat_lt (by decide)
  height_pos := hh
  height_lt := lt_trans h.toNat_lt (by decide)
  pixels_length := bytesAt_length _ _ _

theorem pngFile_eq_encode (hw : 0 < w.toNat) (hh : 0 < h.toNat) :
    pngFile gray w h = Png.encode (grayImage gray w h hw hh) := by
  have hraw := scanlines_rawBytes gray w.toNat 0 h.toNat
  rw [Nat.zero_mul, Nat.zero_mul] at hraw
  rw [pngFile, pngFront, pngData, ← hraw, List.append_assoc]
  rfl

/-- The cast keeps a length below `2^31`. -/
theorem cast_len {n : ℕ} (hn : n < 2 ^ 31) : Int.bmod n (2 ^ 32) = n := by
  have hmod : (n : ℤ) % ((2 ^ 32 : ℕ) : ℤ) = n := Int.emod_eq_of_lt (by omega) (by omega)
  rw [Int.bmod_def, hmod, if_pos (by omega)]

variable (gray out outSize) in
/-- What is returned comes from a writer that puts the file of the image. -/
theorem pngGrayEncode_wrote (hw : 0 < w.toNat) (hh : 0 < h.toNat) :
    ∃ pw, Wrote { buf := out, cap := outSize, len := 0, err := 0 }
        (Png.encode (grayImage gray w h hw hh)) pw ∧
      pngGrayEncode gray w h out outSize =
        (if pw.err = 0 then Int.bmod pw.len (2 ^ 32) else pw.err, pw.buf) := by
  have hspec := putScanlines_wrote gray out outSize hw hh
  rcases hput : putScanlines gray w h out outSize with ⟨idatLenPos, idatTagPos, pw⟩
  rw [hput] at hspec
  obtain ⟨hwrote, hplaces⟩ := hspec
  have hidat : (ascii "IDAT").length = 4 := rfl
  rw [← pngFile_eq_encode hw hh, pngFile]
  unfold pngGrayEncode
  simp only [hput]
  by_cases herr : pw.err = 0
  · obtain ⟨rfl, rfl⟩ := hplaces herr
    rw [if_neg (not_not.mpr herr)]
    exact ⟨_, closeIdat_wrote rfl hwrote herr, rfl⟩
  · -- the scanlines did not fit, and nothing is put after them
    rw [if_pos herr]
    refine ⟨pw, hwrote.longer herr ?_, by rw [if_neg herr]⟩
    simp only [List.length_append, toBe32_length, Png.chunk_length _ hidat]
    omega

/-- **The PNG round trip.** The encoder returns the length of the file exactly when the file fits;
then the file is in the buffer, nothing is written behind it, and it decodes to the image. Otherwise
it returns `-ENOMEM`, and nothing is written behind the buffer. -/
theorem png_round_trip (gray : Mem) (w h : UInt16) (hw : 0 < w.toNat) (hh : 0 < h.toNat)
    (hsize : Png.encodedSize w.toNat h.toNat < 2 ^ 31) (out : Mem) (outSize : ℕ) :
    let count := Png.encodedSize w.toNat h.toNat
    let img := grayImage gray w h hw hh
    let r := pngGrayEncode gray w h out outSize
    (count ≤ outSize → r.1 = count ∧ (∀ i, count ≤ i → r.2 i = out i) ∧
        bytesAt r.2 0 count = Png.encode img ∧ Png.decode (bytesAt r.2 0 count) = some img) ∧
      (outSize < count → r.1 = -ENOMEM ∧ ∀ i, outSize ≤ i → r.2 i = out i) := by
  intro count img r
  have hcount : (Png.encode img).length = count := Png.encode_length img
  have hshort : count < 2 ^ 31 := hsize
  obtain ⟨pw, hwrote, hr⟩ := pngGrayEncode_wrote gray out outSize hw hh
  rw [show r = _ from hr]
  constructor
  · intro hle
    have hpw := hwrote.fits rfl (by rw [hcount, Nat.zero_add]; exact hle)
    rw [hcount, Nat.zero_add] at hpw
    have hbytes : bytesAt (patch out 0 (Png.encode img)) 0 count = Png.encode img := by
      rw [← hcount]
      exact bytesAt_patch out 0 _
    have hbehind : ∀ i, count ≤ i → patch out 0 (Png.encode img) i = out i := by
      intro i hi
      exact patch_outside (by omega)
    rw [hpw, if_pos rfl]
    dsimp only
    refine ⟨cast_len hshort, hbehind, hbytes, ?_⟩
    rw [hbytes]
    exact Png.decode_encode img hsize
  · intro hlt
    have hnomem := hwrote.full rfl (by rw [hcount, Nat.zero_add]; exact hlt)
    rw [hnomem, if_neg (by decide)]
    exact ⟨rfl, hwrote.outside⟩

end File

/-- A row of two pixels makes a file of 71 bytes, which needs a buffer of 71 bytes. -/
theorem png_round_trip_two_pixels :
    Png.encodedSize 2 1 = 71 ∧
      (pngGrayEncode (byteAt [10, 200]) 2 1 (fun _ => 0) 71).1 = Png.encodedSize 2 1 ∧
      (pngGrayEncode (byteAt [10, 200]) 2 1 (fun _ => 0) 70).1 = -ENOMEM := by
  refine ⟨by decide, ?_, ?_⟩
  · exact ((png_round_trip (byteAt [10, 200]) 2 1 (by decide) (by decide) (by decide)
      (fun _ => 0) 71).1 (by decide)).1
  · exact ((png_round_trip (byteAt [10, 200]) 2 1 (by decide) (by decide) (by decide)
      (fun _ => 0) 70).2 (by decide)).1

/-! ## The advertised size -/

/-- The encoder does not run out of a buffer that the file fits. -/
theorem pngGrayEncode_fits (gray : Mem) {w h : UInt16} (hw : 0 < w.toNat) (hh : 0 < h.toNat)
    (out : Mem) {outSize : ℕ} (hsize : Png.encodedSize w.toNat h.toNat ≤ outSize)
    (hshort : Png.encodedSize w.toNat h.toNat < 2 ^ 31) :
    (pngGrayEncode gray w h out outSize).1 = Png.encodedSize w.toNat h.toNat := by
  obtain ⟨pw, hwrote, hresult⟩ := pngGrayEncode_wrote gray out outSize hw hh
  have hlength : (Png.encode (grayImage gray w h hw hh)).length =
      Png.encodedSize w.toNat h.toNat := Png.encode_length _
  obtain ⟨herr, hlen⟩ := hwrote.fits_len rfl (by rw [hlength, Nat.zero_add]; exact hsize)
  rw [hlength, Nat.zero_add] at hlen
  rw [hresult, if_pos herr, hlen]
  dsimp only
  exact cast_len hshort

/-- The encoder runs out of a buffer that the file does not fit. -/
theorem pngGrayEncode_full (gray : Mem) {w h : UInt16} (hw : 0 < w.toNat) (hh : 0 < h.toNat)
    (out : Mem) {outSize : ℕ} (hsize : outSize < Png.encodedSize w.toNat h.toNat) :
    (pngGrayEncode gray w h out outSize).1 = -ENOMEM := by
  obtain ⟨pw, hwrote, hresult⟩ := pngGrayEncode_wrote gray out outSize hw hh
  have hlength : (Png.encode (grayImage gray w h hw hh)).length =
      Png.encodedSize w.toNat h.toNat := Png.encode_length _
  have hfull := hwrote.full rfl (by rw [hlength, Nat.zero_add]; exact hsize)
  rw [hresult, hfull, if_neg (by decide)]

/-- The 65 bytes that are left for the headers of the blocks are enough for 13 of them. -/
theorem encodedSize_le_max_iff {w h : ℕ} (hh : 0 < h) :
    Png.encodedSize w h ≤ pngGrayMaxSize w h ↔ (w + 1) * h ≤ 13 * storedBlockMax := by
  have hraw : (w + 1) * h = w * h + h := Nat.succ_mul w h
  unfold Png.encodedSize pngGrayMaxSize Zlib.blockCount Zlib.blockMax storedBlockMax
  omega

/-- **The advertised size.** The encoder does not run out of a buffer of `PNG_GRAY_MAX_SIZE` bytes
exactly when the scanlines take at most 13 stored blocks. -/
theorem png_gray_max_size_iff (gray : Mem) (w h : UInt16) (hw : 0 < w.toNat) (hh : 0 < h.toNat)
    (hsize : pngGrayMaxSize w.toNat h.toNat < 2 ^ 31) (out : Mem) :
    (pngGrayEncode gray w h out (pngGrayMaxSize w.toNat h.toNat)).1 ≠ -ENOMEM ↔
      (w.toNat + 1) * h.toNat ≤ 13 * storedBlockMax := by
  rw [← encodedSize_le_max_iff hh]
  constructor
  · intro hok
    by_contra hlt
    exact hok (pngGrayEncode_full gray hw hh out (not_le.mp hlt))
  · intro hle
    have hnomem : (-ENOMEM : ℤ) < 0 := by decide
    rw [pngGrayEncode_fits gray hw hh out hle (hle.trans_lt hsize)]
    omega

/-- The largest snapshot fits a buffer of the advertised size. -/
theorem png_gray_max_size_snapshot :
    (pngGrayEncode (fun _ => 0) 320 180 (fun _ => 0) (pngGrayMaxSize 320 180)).1 ≠ -ENOMEM :=
  (png_gray_max_size_iff (fun _ => 0) 320 180 (by decide) (by decide) (by decide)
    fun _ => 0).mpr (by decide)

/-- A square of 1024 x 1024 pixels takes 17 blocks. -/
theorem png_gray_max_size_square :
    pngGrayMaxSize 1024 1024 < 2 ^ 31 ∧
      (pngGrayEncode (fun _ => 0) 1024 1024 (fun _ => 0) (pngGrayMaxSize 1024 1024)).1 =
        -ENOMEM := by
  refine ⟨by decide, ?_⟩
  exact pngGrayEncode_full (fun _ => 0) (by decide) (by decide) (fun _ => 0) (by decide)

end IotcDemos.Vision
