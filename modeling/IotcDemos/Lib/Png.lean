import IotcDemos.Lib.Crc32
import IotcDemos.Lib.Zlib

set_option autoImplicit false

/-! # Gray PNG files

A file is a signature and three chunks: `IHDR` with the size of the image, `IDAT` with its rows, and
`IEND`. `encode` writes the rows unfiltered and in stored blocks. `decode` reads such files: it is
a PNG reader for gray images of 8 bits with one `IDAT` chunk, unfiltered rows and stored blocks, and
accepts a file only if all lengths and checksums in it are right.
-/

namespace IotcDemos.Png

/-- An image with its pixels row by row. -/
structure GrayImage where
  width : ℕ
  height : ℕ
  pixels : Bytes
  width_pos : 0 < width
  width_lt : width < 2 ^ 31
  height_pos : 0 < height
  height_lt : height < 2 ^ 31
  pixels_length : pixels.length = width * height

/-! ## Writing -/

def signature : Bytes := [0x89, 0x50, 0x4E, 0x47, 13, 10, 0x1A, 10]

/-- The length of the payload, the tag, the payload, and the checksum of tag and payload. -/
def chunk (tag payload : Bytes) : Bytes :=
  toBe32 (UInt32.ofNat payload.length) ++ (tag ++ payload) ++ toBe32 (Crc32.ieee (tag ++ payload))

/-- Bit depth 8, gray; compression, filter and interlace methods 0. -/
def grayFormat : Bytes := [8, 0, 0, 0, 0]

def header (width height : ℕ) : Bytes :=
  toBe32 (UInt32.ofNat width) ++ (toBe32 (UInt32.ofNat height) ++ grayFormat)

/-- Each row behind its filter byte. -/
def scanlines (width : ℕ) : ℕ → Bytes → Bytes
  | 0, _ => []
  | height + 1, pixels => 0 :: (pixels.take width ++ scanlines width height (pixels.drop width))

def encode (img : GrayImage) : Bytes :=
  signature ++ (chunk (ascii "IHDR") (header img.width img.height) ++
    (chunk (ascii "IDAT") (Zlib.compressStored (scanlines img.width img.height img.pixels)) ++
      chunk (ascii "IEND") []))

/-! ## Reading -/

/-- A chunk of the given tag, and what follows it. -/
def readChunk (tag s : Bytes) : Option (Bytes × Bytes) :=
  let len := (be32At (byteAt s) 0).toNat
  let body := (s.drop 4).take (4 + len)
  if s.length < 12 + len then none
  else if body.take 4 ≠ tag then none
  else if be32At (byteAt s) (8 + len) ≠ Crc32.ieee body then none
  else some (body.drop 4, s.drop (12 + len))

/-- The pixels of unfiltered rows. -/
def unfilter (width : ℕ) : ℕ → Bytes → Option Bytes
  | 0, raw => if raw = [] then some [] else none
  | _ + 1, [] => none
  | height + 1, filter :: raw =>
      if filter ≠ 0 ∨ raw.length < width then none
      else (unfilter width height (raw.drop width)).map fun pixels => raw.take width ++ pixels

def readImage (hdr raw : Bytes) : Option GrayImage :=
  let width := (be32At (byteAt hdr) 0).toNat
  let height := (be32At (byteAt hdr) 4).toNat
  if hdr.drop 8 ≠ grayFormat then none
  else (unfilter width height raw).bind fun pixels =>
    if h : 0 < width ∧ width < 2 ^ 31 ∧ 0 < height ∧ height < 2 ^ 31 ∧
        pixels.length = width * height then
      some ⟨width, height, pixels, h.1, h.2.1, h.2.2.1, h.2.2.2.1, h.2.2.2.2⟩
    else none

/-- Decode a file, given the decompression of what its `IDAT` chunk holds. -/
def decodeWith (decompress : Bytes → Option Bytes) (s : Bytes) : Option GrayImage :=
  if s.take 8 ≠ signature then none
  else (readChunk (ascii "IHDR") (s.drop 8)).bind fun (hdr, s1) =>
    (readChunk (ascii "IDAT") s1).bind fun (data, s2) =>
      if readChunk (ascii "IEND") s2 ≠ some ([], []) then none
      else (decompress data).bind fun raw => readImage hdr raw

/-- Decode a file of stored blocks. -/
def decode (s : Bytes) : Option GrayImage := decodeWith Zlib.decompress s

/-! ## The round trip -/

theorem chunk_length {tag : Bytes} (payload : Bytes) (htag : tag.length = 4) :
    (chunk tag payload).length = 12 + payload.length := by
  simp only [chunk, List.length_append, toBe32_length, htag]
  omega

/-- A chunk reads back. -/
theorem readChunk_chunk {tag payload : Bytes} (rest : Bytes) (htag : tag.length = 4)
    (hlen : payload.length < 2 ^ 32) :
    readChunk tag (chunk tag payload ++ rest) = some (payload, rest) := by
  have hfield : (be32At (byteAt (chunk tag payload ++ rest)) 0).toNat = payload.length := by
    have hword : be32At (byteAt (chunk tag payload ++ rest)) 0 = UInt32.ofNat payload.length :=
      be32At_eq rfl rfl rfl rfl
    rw [hword, UInt32.toNat_ofNat', Nat.mod_eq_of_lt hlen]
  have hbodylen : (tag ++ payload).length = 4 + payload.length := by
    rw [List.length_append, htag]
  have hbody : ((chunk tag payload ++ rest).drop 4).take (4 + payload.length) = tag ++ payload := by
    have hdrop : (chunk tag payload ++ rest).drop 4 =
        (tag ++ payload) ++ (toBe32 (Crc32.ieee (tag ++ payload)) ++ rest) := by
      simp [chunk, toBe32]
    rw [hdrop, ← hbodylen, List.take_left]
  have hcrc : be32At (byteAt (chunk tag payload ++ rest)) (8 + payload.length) =
      Crc32.ieee (tag ++ payload) := by
    have hword := be32At_append (toBe32 (UInt32.ofNat payload.length) ++ (tag ++ payload))
      (Crc32.ieee (tag ++ payload)) rest
    have hoff : (toBe32 (UInt32.ofNat payload.length) ++ (tag ++ payload)).length =
        8 + payload.length := by
      rw [List.length_append, hbodylen, toBe32_length]
      omega
    rw [hoff] at hword
    rw [chunk, List.append_assoc]
    exact hword
  have hrest : (chunk tag payload ++ rest).drop (12 + payload.length) = rest := by
    rw [← chunk_length payload htag, List.drop_left]
  unfold readChunk
  simp only [hfield, hbody, hcrc, hrest]
  rw [if_neg (by rw [List.length_append, chunk_length payload htag]; omega),
    if_neg (by rw [← htag, List.take_left]; simp), if_neg (by simp), ← htag, List.drop_left]

/-- Rows that were not filtered give the pixels back. -/
theorem unfilter_scanlines {width height : ℕ} {pixels : Bytes}
    (h : pixels.length = width * height) :
    unfilter width height (scanlines width height pixels) = some pixels := by
  induction height generalizing pixels with
  | zero =>
      obtain rfl : pixels = [] := List.eq_nil_of_length_eq_zero h
      rfl
  | succ height ih =>
      rw [Nat.mul_succ] at h
      have hrow : (pixels.take width).length = width := List.length_take_of_le (by omega)
      have hrest : (pixels.drop width).length = width * height := by
        rw [List.length_drop]
        omega
      rw [scanlines, unfilter, if_neg (by rw [List.length_append]; simp; omega)]
      rw [List.take_left' hrow, List.drop_left' hrow, ih hrest, Option.map_some,
        List.take_append_drop]

theorem readImage_header (img : GrayImage) :
    readImage (header img.width img.height) (scanlines img.width img.height img.pixels) =
      some img := by
  have hw : (be32At (byteAt (header img.width img.height)) 0).toNat = img.width := by
    have hword : be32At (byteAt (header img.width img.height)) 0 = UInt32.ofNat img.width :=
      be32At_eq rfl rfl rfl rfl
    rw [hword, UInt32.toNat_ofNat']
    exact Nat.mod_eq_of_lt (lt_trans img.width_lt (by decide))
  have hh : (be32At (byteAt (header img.width img.height)) 4).toNat = img.height := by
    have hword : be32At (byteAt (header img.width img.height)) 4 = UInt32.ofNat img.height :=
      be32At_eq rfl rfl rfl rfl
    rw [hword, UInt32.toNat_ofNat']
    exact Nat.mod_eq_of_lt (lt_trans img.height_lt (by decide))
  unfold readImage
  simp only [hw, hh]
  rw [if_neg (by exact not_not.mpr rfl), unfilter_scanlines img.pixels_length, Option.bind_some,
    dif_pos ⟨img.width_pos, img.width_lt, img.height_pos, img.height_lt, img.pixels_length⟩]

theorem scanlines_length {width height : ℕ} {pixels : Bytes}
    (h : pixels.length = width * height) :
    (scanlines width height pixels).length = (width + 1) * height := by
  induction height generalizing pixels with
  | zero => rfl
  | succ height ih =>
      rw [Nat.mul_succ] at h
      have hrow : (pixels.take width).length = width := List.length_take_of_le (by omega)
      have hrest : (pixels.drop width).length = width * height := by
        rw [List.length_drop]
        omega
      calc (scanlines width (height + 1) pixels).length
          = width + (width + 1) * height + 1 := by
            rw [scanlines, List.length_cons, List.length_append, hrow, ih hrest]
        _ = (width + 1) * (height + 1) := by ring

/-- The length of the file of an image. -/
def encodedSize (width height : ℕ) : ℕ :=
  63 + 5 * Zlib.blockCount ((width + 1) * height) + (width + 1) * height

theorem encode_length (img : GrayImage) :
    (encode img).length = encodedSize img.width img.height := by
  simp only [encode, List.length_append, chunk_length _ (rfl : (ascii "IHDR").length = 4),
    chunk_length _ (rfl : (ascii "IDAT").length = 4),
    chunk_length _ (rfl : (ascii "IEND").length = 4), Zlib.compressStored_length,
    scanlines_length img.pixels_length, header, toBe32_length, signature, grayFormat,
    List.length_cons, List.length_nil, encodedSize]
  omega

/-- A file whose `IDAT` chunk decompresses to the rows of an image decodes to that image. -/
theorem decodeWith_file {decompress : Bytes → Option Bytes} {data : Bytes} (img : GrayImage)
    (hdata : decompress data = some (scanlines img.width img.height img.pixels))
    (hlen : data.length < 2 ^ 32) :
    decodeWith decompress (signature ++ (chunk (ascii "IHDR") (header img.width img.height) ++
      (chunk (ascii "IDAT") data ++ chunk (ascii "IEND") []))) = some img := by
  have hhdr : (header img.width img.height).length < 2 ^ 32 := by
    simp [header, grayFormat]
  have hend : readChunk (ascii "IEND") (chunk (ascii "IEND") []) = some ([], []) := by
    have hread : readChunk (ascii "IEND") (chunk (ascii "IEND") [] ++ []) = some ([], []) :=
      readChunk_chunk [] rfl (by simp)
    rwa [List.append_nil] at hread
  have hsig : ∀ rest : Bytes, (signature ++ rest).take 8 = signature := fun _ => rfl
  have hdrop : ∀ rest : Bytes, (signature ++ rest).drop 8 = rest := fun _ => rfl
  unfold decodeWith
  rw [if_neg (not_not.mpr (hsig _)), hdrop, readChunk_chunk _ rfl hhdr, Option.bind_some]
  dsimp only
  rw [readChunk_chunk _ rfl hlen, Option.bind_some]
  dsimp only
  rw [if_neg (not_not.mpr hend), hdata, Option.bind_some, readImage_header]

/-- **What is encoded decodes,** if the file is not too long for the length of its `IDAT` chunk. -/
theorem decode_encode (img : GrayImage) (hsize : encodedSize img.width img.height < 2 ^ 31) :
    decode (encode img) = some img := by
  have hdata : (Zlib.compressStored (scanlines img.width img.height img.pixels)).length
      < 2 ^ 32 := by
    rw [Zlib.compressStored_length, scanlines_length img.pixels_length]
    unfold encodedSize at hsize
    omega
  exact decodeWith_file img (Zlib.decompress_compressStored _) hdata

end IotcDemos.Png
