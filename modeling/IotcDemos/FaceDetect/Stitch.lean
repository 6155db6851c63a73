import IotcDemos.FaceDetect.Pixels

set_option autoImplicit false

/-! # The picture the model sees

The camera delivers a frame in slices. `copy_slice_to_model_input` puts each slice, thinned out by
the stride, into `model_input_buf`, and `face_det` copies the middle of that picture into the input
tensor of the model. The width of a slice is a multiple of the width of the picture.
-/

namespace IotcDemos.FaceDetect

section Slice

variable {s h : ℕ} (hs : 0 < s) (hh : 0 < h)

end Slice

/-! ## Any number of slices -/

/-- A slice and its place in the frame. -/
abbrev Slice : Type := ℕ × (ℕ → UInt16)

/-- The last slice copied to a place. -/
def latest (copies : List Slice) (idx : ℕ) : Option (ℕ → UInt16) :=
  (copies.reverse.find? fun p => p.1 = idx).map Prod.snd

section Run

variable {s h : ℕ} (hs : 0 < s) (hh : 0 < h)
include hs hh

end Run

/-! ## The tensor -/

section Tensor

variable {inW copyW srcX0 srcY0 dstX0 dstY0 : ℕ} (picture : ℕ → UInt8)

end Tensor

end IotcDemos.FaceDetect
