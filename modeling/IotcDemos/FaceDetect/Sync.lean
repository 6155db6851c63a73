import IotcDemos.FaceDetect.Rectangles
import IotcDemos.Lib.Run

set_option autoImplicit false

/-! # The results on the screen

The main loop draws its copy of the results on each slice and shows it. At the start of a frame
`sync_slice_rectangles` brings the copy up to date, with a frame without rectangles in between. A
step is a round of the main loop, which the inference thread does not interrupt, or the end of
`face_det`. A frame has several slices, and the camera delivers them in order.
-/

namespace IotcDemos.FaceDetect

/-- `inf_results_t`, of which the first `odRetCnt` entries of `odRets` count. -/
structure InfResults (F : Type) where
  odRets : List (ODResult F)
  odRetCnt : ℕ
  retsTimeStamp : ℕ

structure Display (F : Type) where
  /-- `g_InfResults`. -/
  global : InfResults F
  /-- `infResults`, the copy of the main loop; it is not initialised. -/
  copy : InfResults F
  /-- The slice that the camera delivers next. -/
  next : ℕ
  /-- The slices of the screen. -/
  screen : ℕ → PixelBuf
  /-- What each slice of the screen was made of. No step depends on it. -/
  madeOf : ℕ → PixelBuf × InfResults F

section Step

variable {F : Type}

/-- The entries that are drawn. -/
def InfResults.faces (r : InfResults F) : List (ODResult F) := r.odRets.take r.odRetCnt

/-- Before the first results. -/
def InfResults.zero : InfResults F where
  odRets := []
  odRetCnt := 0
  retsTimeStamp := 0

-- The width and the height of a slice, and `slices_per_frame`.
variable (w h n : ℕ)

/-- The screen shows the background, and the copy holds anything. -/
def Display.start (global copy : InfResults F) (background : ℕ → PixelBuf) : Display F where
  global := global
  copy := copy
  next := 0
  screen := background
  madeOf := fun i => (background i, .zero)

/-! ## One result on the screen -/

def Display.faces (s : Display F) (i : ℕ) : List (ODResult F) := (s.madeOf i).2.faces

variable {w h n}

end Step

end IotcDemos.FaceDetect
