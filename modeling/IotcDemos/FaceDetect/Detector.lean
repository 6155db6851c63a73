import IotcDemos.FaceDetect.Nms
import IotcDemos.Lib.TopN
import Mathlib.Data.List.TakeWhile

set_option autoImplicit false

/-! # From the model's outputs to detections

`GetNetworkBoxes` goes through the cells of the output tensors, each with `numBox` anchors, and
collects the detections whose objectness is over the threshold, at most `topN` of them where `topN`
is positive. `float` is a linearly ordered field `F`, and `std::exp` a parameter.
-/

namespace IotcDemos.FaceDetect

/-- The data of an output tensor. -/
inductive Output (F : Type) where
  | float32 (data : ℕ → F)
  | int8 (data : ℕ → ℤ) (scale : F) (zeroPoint : ℤ)

structure Branch (F : Type) where
  width : ℕ
  height : ℕ
  numBox : ℕ
  anchor : List F
  modelOutput : Output F

structure Network (F : Type) where
  inputWidth : ℕ
  inputHeight : ℕ
  inputWidth_pos : 0 < inputWidth
  inputHeight_pos : 0 < inputHeight
  numClasses : ℕ
  branches : List (Branch F)
  topN : ℤ

/-! ## The best detections -/

section Top

variable {F : Type} [LinearOrder F]

/-- Behind the detections that are not better, and the worst one falls out in front. -/
def insertTopNDetections (detections : List (Detection F)) (det : Detection F) :
    List (Detection F) :=
  let before := detections.takeWhile fun it => !decide (it.objectness > det.objectness)
  let behind := detections.dropWhile fun it => !decide (it.objectness > det.objectness)
  -- where the loop stops at the first one, all are better and the new one is dropped
  if before = [] then detections else (before ++ det :: behind).tail

/-- `det_objectness_comparator`, as "may stand before". -/
def objectnessComparator (pa pb : Detection F) : Bool := !decide (pb.objectness < pa.objectness)

/-- What `GetNetworkBoxes` does with a detection; `num` counts up to `topN + 1`. -/
def collect (topN : ℤ) (s : ℤ × List (Detection F)) (det : Detection F) :
    ℤ × List (Detection F) :=
  if s.1 < topN ∨ topN ≤ 0 then (s.1 + 1, det :: s.2)
  else if s.1 = topN then
    (s.1 + 1, insertTopNDetections (s.2.mergeSort objectnessComparator) det)
  else (s.1, insertTopNDetections s.2 det)

end Top

/-! ## The layout of a tensor -/

section Layout

variable {F : Type}

/-- `bbox_obj_offset`. -/
def objOffset (numClasses : ℕ) (b : Branch F) (h w anc : ℕ) : ℕ :=
  let channel := b.numBox * (5 + numClasses)
  h * b.width * channel + w * channel + anc * (numClasses + 5) + 4

/-- The numbers of a tensor: for each cell and anchor a box, an objectness and the classes. -/
def Branch.size (numClasses : ℕ) (b : Branch F) : ℕ :=
  b.height * b.width * (b.numBox * (5 + numClasses))

/-- Other data from index `n` on. -/
def Output.beyond (n : ℕ) (f : ℕ → F) (g : ℕ → ℤ) : Output F → Output F
  | .float32 data => .float32 fun i => if i < n then data i else f i
  | .int8 data scale zeroPoint => .int8 (fun i => if i < n then data i else g i) scale zeroPoint

def Branch.beyond (numClasses : ℕ) (f : ℕ → F) (g : ℕ → ℤ) (b : Branch F) : Branch F :=
  { b with modelOutput := b.modelOutput.beyond (b.size numClasses) f g }

/-- The tensors as they are, and other data behind each of them. -/
def Network.beyond (f : ℕ → F) (g : ℕ → ℤ) (net : Network F) : Network F :=
  { net with branches := net.branches.map (Branch.beyond net.numClasses f g) }

variable [Field F]

def Output.read : Output F → ℕ → F
  | .float32 data, i => data i
  | .int8 data scale zeroPoint, i => ((data i - zeroPoint : ℤ) : F) * scale

end Layout

/-! ## The cells -/

section Cells

variable {F : Type} [Field F] [LinearOrder F] (exp : F → F)

def sigmoid (x : F) : F := 1 / (1 + exp (-x))

variable (net : Network F) (imageWidth imageHeight : ℕ) (threshold : F)

def scoreOf (objectness x : F) : F :=
  let sig := sigmoid exp x * objectness
  if sig > threshold then sig else 0

/-- The detection of an anchor in a cell. -/
def detectionAt (b : Branch F) (h w anc : ℕ) : Option (Detection F) :=
  let offset := objOffset net.numClasses b h w anc
  let objectness := sigmoid exp (b.modelOutput.read offset)
  if objectness > threshold then
    let xOffset := offset - 4
    let x := sigmoid exp (b.modelOutput.read xOffset)
    let y := sigmoid exp (b.modelOutput.read (xOffset + 1))
    let width := exp (b.modelOutput.read (xOffset + 2)) * b.anchor.getD (anc * 2) 0 / net.inputWidth
    let height :=
      exp (b.modelOutput.read (xOffset + 3)) * b.anchor.getD (anc * 2 + 1) 0 / net.inputHeight
    some {
      bbox := {
        x := (x + w) / b.width * imageWidth
        y := (y + h) / b.height * imageHeight
        w := width * imageWidth
        h := height * imageHeight }
      prob := (List.range net.numClasses).map fun s =>
        scoreOf exp threshold objectness (b.modelOutput.read (xOffset + 5 + s))
      objectness := objectness }
  else none

/-- One anchor of the loop. -/
def visit (b : Branch F) (h w : ℕ) (s : ℤ × List (Detection F)) (anc : ℕ) :
    ℤ × List (Detection F) :=
  match detectionAt exp net imageWidth imageHeight threshold b h w anc with
  | some det => collect net.topN s det
  | none => s

def getNetworkBoxes : List (Detection F) :=
  (net.branches.foldl (fun s b =>
    (List.range b.height).foldl (fun s h =>
      (List.range b.width).foldl (fun s w =>
        (List.range b.numBox).foldl (visit exp net imageWidth imageHeight threshold b h w) s) s) s)
    (0, [])).2

/-- Everything over the threshold, in the order of the loops. -/
def offers : List (Detection F) :=
  net.branches.flatMap fun b => (List.range b.height).flatMap fun h =>
    (List.range b.width).flatMap fun w => (List.range b.numBox).filterMap fun anc =>
      detectionAt exp net imageWidth imageHeight threshold b h w anc

/-- `exp (-4.6)` is near `1 / 99`. -/
def nearExp : ℚ → ℚ := fun x => if x = -46 / 10 then 1 / 99 else 1

/-- Four faces side by side. All logits are `4.6`, but for those of the sides, which are `-4.6`. -/
def fourFaces (topN : ℤ) : Network ℚ where
  inputWidth := 160
  inputHeight := 160
  inputWidth_pos := by decide
  inputHeight_pos := by decide
  numClasses := 1
  branches := [{
    width := 4, height := 1, numBox := 1, anchor := [51, 64]
    modelOutput := .float32 fun i => if i % 6 = 2 ∨ i % 6 = 3 then -46 / 10 else 46 / 10 }]
  topN := topN

end Cells

end IotcDemos.FaceDetect
