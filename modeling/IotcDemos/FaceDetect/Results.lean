import IotcDemos.FaceDetect.Detector
import Mathlib.Algebra.Order.Floor.Ring

set_option autoImplicit false

/-! # The faces that are reported

`DoPostProcess` cuts the boxes that survive off at the edges of the image, and `face_det` copies
those with a high score into `odRets`, which has `MAX_OD_BOX_CNT` places. Nothing compares the count
with that: it is the limit `topN` that keeps the copy inside, where there is one.
-/

namespace IotcDemos.FaceDetect

structure DetectionResult (F : Type) where
  score : F
  x0 : F
  y0 : F
  w : F
  h : F
  cls : ℕ

structure ODResult (F : Type) where
  x1 : ℤ
  y1 : ℤ
  x2 : ℤ
  y2 : ℤ
  score : F

def MAX_OD_BOX_CNT : ℕ := 3

section Results

variable {F : Type} [Field F] [LinearOrder F]

/-- One side of a box: its start and its length, cut off at `0` and at `limit`. -/
def clampSide (limit : ℕ) (centre size : F) : F × F :=
  let lo := centre - size / 2
  let hi := centre + size / 2
  let lo := if lo < 0 then 0 else lo
  let hi := if hi > limit then (limit : F) else hi
  (lo, hi - lo)

def resultOf (imageWidth imageHeight : ℕ) (it : Detection F) (j : ℕ) :
    Option (DetectionResult F) :=
  let sideX := clampSide imageWidth it.bbox.x it.bbox.w
  let sideY := clampSide imageHeight it.bbox.y it.bbox.h
  let score := it.probAt j
  if score > 0 ∧ score < 1 then
    some { score := score, x0 := sideX.1, y0 := sideY.1, w := sideX.2, h := sideY.2, cls := j }
  else none

variable (exp : F → F) (net : Network F) (imageWidth imageHeight : ℕ) (threshold nms : F)

def doPostProcess : List (DetectionResult F) :=
  let detections :=
    calculateNMS (getNetworkBoxes exp net imageWidth imageHeight threshold) net.numClasses nms
  detections.flatMap fun it =>
    (List.range net.numClasses).filterMap (resultOf imageWidth imageHeight it)

/-- The conversion of a number to an integer type. -/
def toInt [FloorRing F] (x : F) : ℤ := if 0 ≤ x then ⌊x⌋ else ⌈x⌉

def odResult [FloorRing F] (result : DetectionResult F) : ODResult F where
  x1 := toInt result.x0
  y1 := toInt result.y0
  x2 := toInt (result.x0 + result.w)
  y2 := toInt (result.y0 + result.h)
  score := result.score

/-- `odRets[0]`, `odRets[1]`, … as `face_det` writes them. -/
def faceDet [FloorRing F] : List (ODResult F) :=
  ((doPostProcess exp net imageWidth imageHeight threshold nms).filter
    fun result => decide (result.score > 9 / 10)).map odResult

variable [IsStrictOrderedRing F]

variable {exp net imageWidth imageHeight threshold nms}

variable (exp net imageWidth imageHeight threshold nms)

end Results

/-- Without a limit, as the demo is built, a fourth face is written behind the end of `odRets`. -/
theorem faceDet_overruns :
    MAX_OD_BOX_CNT < (faceDet nearExp (fourFaces 0) 320 240 (7 / 10) (45 / 100)).length := by
  -- the boxes come sorted, so that the pass need not sort them
  have hsorted : (getNetworkBoxes nearExp (fourFaces 0) 320 240 (7 / 10)).Pairwise
      fun d e => compareProbs d e = true := by decide +kernel
  have hnms : calculateNMS (getNetworkBoxes nearExp (fourFaces 0) 320 240 (7 / 10))
      (fourFaces 0).numClasses (45 / 100) =
        suppress (scored 0) (Detection.clear 0) (overlapping (45 / 100))
          (getNetworkBoxes nearExp (fourFaces 0) 320 240 (7 / 10)) := by
    show nmsClass _ _ _ = _
    rw [nmsClass, List.mergeSort_of_pairwise hsorted]
  rw [faceDet, doPostProcess, hnms]
  decide +kernel

end IotcDemos.FaceDetect
