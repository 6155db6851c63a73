import IotcDemos.Lib.Base64
import IotcDemos.Lib.Png
import IotcDemos.Lib.PyText
import IotcDemos.Vision.SnapshotImage
import Mathlib.Data.Bool.AllAny

set_option autoImplicit false

/-! # Snapshots on the console

`vision snap` prints a snapshot in base64 between two markers, in lines of 120 characters.
`decode_console_snap.py` finds the last such block in a capture of the console and makes a PNG file
of it, four times as large. What zlib makes of the rows is a parameter. The digits in a capture are
ASCII ones.
-/

namespace IotcDemos.Vision

/-! ## `cmd_vision_snap` -/

/-- `base64_encode` into a buffer of `dlen` bytes; it ends the text with a NUL. -/
def base64Encode (dlen : ℕ) (src : Bytes) : Option (List Char) :=
  if dlen < (src.length + 2) / 3 * 4 + 1 ∧ src ≠ [] then none else some (Base64.encode src)

/-- The loop that prints the text, from `off` on. -/
def snapLines (b64 : List Char) (off : ℕ) : List (List Char) :=
  if off < b64.length then (b64.drop off).take 120 :: snapLines b64 (off + 120) else []
termination_by b64.length - off

/-- `frame` is what `vision_camera_capture` leaves in `snap`, `w` and `h`. The answer is an error,
or the lines that are printed. -/
def cmdVisionSnap (camOk : Bool) (frame : Option (Bytes × ℕ × ℕ)) :
    Except String (List (List Char)) :=
  if ¬ camOk then .error "camera not available"
  else
    match frame with
    | none => .error "no frame"
    | some (snap, w, h) =>
        match base64Encode ((snapshotMaxLen + 2) / 3 * 4 + 4) (snap.take (w * h)) with
        | none => .error "base64 failed"
        | some b64 =>
            .ok (("SNAP-BEGIN ".toList ++ Nat.toDigits 10 w ++ ' ' :: Nat.toDigits 10 h ++
              ' ' :: Nat.toDigits 10 b64.length) :: snapLines b64 0 ++ ["SNAP-END".toList])

/-! ## The tool -/

/-- The groups of a match. -/
structure SnapBlock where
  w : List Char
  h : List Char
  b64len : List Char
  body : List Char

/-- A snapshot that was printed: the buffer, of which `w * h` bytes count. -/
structure Dump where
  snap : Bytes
  w : ℕ
  h : ℕ
  w_pos : 0 < w
  h_pos : 0 < h
  fits : w * h ≤ snapshotMaxLen
  filled : w * h ≤ snap.length

def Dump.pixels (d : Dump) : Bytes := d.snap.take (d.w * d.h)

def Dump.b64 (d : Dump) : List Char := Base64.encode d.pixels

/-- The lines between the markers. -/
def Dump.body (d : Dump) : List Char := (snapLines d.b64 0).flatMap (· ++ ['\n'])

/-- What `vision snap` prints. -/
def Dump.text (d : Dump) : List Char :=
  match cmdVisionSnap true (some (d.snap, d.w, d.h)) with
  | .ok lines => lines.flatMap (· ++ ['\n'])
  | .error _ => []

theorem pixels_length (d : Dump) : d.pixels.length = d.w * d.h :=
  List.length_take_of_le d.filled

/-- The groups that a printed snapshot matches with. -/
def Dump.block (d : Dump) : SnapBlock :=
  ⟨Nat.toDigits 10 d.w, Nat.toDigits 10 d.h, Nat.toDigits 10 d.b64.length, d.body⟩

/-- The rows of the picture, four times as large. -/
def Dump.row (d : Dump) (y : ℕ) : Bytes :=
  (List.range (d.w * 4)).map fun x => byteAt ((d.pixels.drop (y / 4 * d.w)).take d.w) (x / 4)

theorem row_length (d : Dump) (y : ℕ) : (d.row y).length = d.w * 4 := by
  rw [Dump.row, List.length_map, List.length_range]

def Dump.image (d : Dump) : Png.GrayImage where
  width := d.w * 4
  height := d.h * 4
  pixels := ((List.range (d.h * 4)).map d.row).flatten
  width_pos := Nat.mul_pos d.w_pos (by decide)
  width_lt := by
    have hle : d.w ≤ d.w * d.h := Nat.le_mul_of_pos_right _ d.h_pos
    have hfits : d.w * d.h ≤ 57600 := d.fits
    omega
  height_pos := Nat.mul_pos d.h_pos (by decide)
  height_lt := by
    have hle : d.h ≤ d.w * d.h := Nat.le_mul_of_pos_left _ d.w_pos
    have hfits : d.w * d.h ≤ 57600 := d.fits
    omega
  pixels_length := by
    rw [← List.flatMap_def, flatMap_const_length fun y _ => row_length d y, List.length_range]

end IotcDemos.Vision
