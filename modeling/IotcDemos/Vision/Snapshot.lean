import IotcDemos.Vision.Camera
import IotcDemos.Vision.Install
import IotcDemos.Vision.Name
import IotcDemos.Vision.Occupancy
import IotcDemos.Vision.PngGray

set_option autoImplicit false

/-! # Snapshots: the requests, the vision loop and the worker

`snapshot_request` may be called from any number of threads. The vision loop captures the frames,
and hands one that was asked for to the worker, which encodes and uploads it. The threads share two
plain flags, a semaphore and the buffers of the frame. A step reads or writes one flag, or is
the part of a function between two of these, so that a list of steps is an interleaving of the
threads. What is done under `model_lock` is one step. The camera and the TFLM library are
parameters.

`History` keeps of the past what the properties speak of. No step depends on it.
-/

namespace IotcDemos.Vision

/-- What `vision_camera_capture` makes of a frame: the model input, and, written over the buffer, a
snapshot with its width and height. -/
structure Camera (ι : Type) where
  gray : ι → Bytes
  snap : ι → Mem → Mem × UInt16 × UInt16

/-- The camera, the TFLM library and the flash: `invoke` gives the two scores of a model for an
input, in percent. -/
structure Platform (ι : Type) where
  camera : Camera ι
  tflite : Bytes → LoadResult
  invoke : Bytes → Bytes → Int32 × Int32
  flash : FlashArea

/-- The fields of the text in `snap_cf`. -/
structure Classification where
  occupied : Bool
  personPct : Int32
  name : Bytes
  modelVer : UInt16
  deriving DecidableEq

/-- The text, cut by `snprintf` to the 128 bytes of `snap_cf`. -/
def Classification.text (c : Classification) : Bytes :=
  (ascii ("\x7b\"state\":\"" ++ (if c.occupied then "occupied" else "clear") ++
    "\",\"person_pct\":" ++ toString c.personPct.toInt ++ ",\"model\":\"") ++ c.name ++
    ascii (" v" ++ toString c.modelVer.toNat ++ "\"\x7d")).take 127

/-- Where a caller is in `snapshot_request`, with the number of frames captured before its call
began. -/
inductive RequestPc where
  | idle
  | readWant (began : ℕ)
  | readBusy (began : ℕ)
  | setWant (began : ℕ)
  deriving DecidableEq

/-- The local variables of `vision_step`, and the frame it has captured. -/
structure StepVars (ι : Type) where
  wantSnap : Bool
  sw : UInt16
  sh : UInt16
  person : Int32
  flipped : Bool
  frame : ι

/-- What `vision_step` does next; it is called in `idle`. -/
inductive LoopPc (ι : Type) where
  | idle
  /-- `snap_want` was set. -/
  | readBusy
  | capture (wantSnap : Bool)
  | infer (v : StepVars ι)
  | writeW (v : StepVars ι)
  | writeH (v : StepVars ι)
  | classify (v : StepVars ι)
  | clearWant (v : StepVars ι)
  | setBusy (v : StepVars ι)
  | give (v : StepVars ι)

/-- What the worker does next; `count` is what the encoder has returned. -/
inductive WorkerPc where
  | take
  | encode
  | upload (count : ℤ)
  | clearBusy
  deriving DecidableEq

/-- What `vision_infer_run` has computed, with the model that was active. -/
structure Verdict (ι : Type) where
  active : Mem
  frame : ι
  personPct : Int32

structure History (ι : Type) where
  /-- The calls of `vision_step` so far. -/
  steps : ℕ
  /-- The frames captured so far. -/
  captures : ℕ
  /-- The `vision_step` that has last written each buffer. -/
  frameBy : ℕ
  wBy : ℕ
  hBy : ℕ
  cfBy : ℕ
  /-- The frame in `snap_frame`. -/
  frame : Option ι
  /-- The verdict of the last inference, if it has succeeded. -/
  verdict : Option (Verdict ι)
  /-- How often the worker has taken `snap_go`. -/
  activations : ℕ
  /-- The calls that have set `snap_want`, in order, each as the number of frames captured before
  it began. -/
  calls : List ℕ
  /-- The snapshots that were answered for by clearing `snap_want`, each as the number of its
  frame. -/
  shots : List ℕ

/-- The shared variables, and where every thread is. -/
structure Snap (κ ι : Type) where
  camOk : Bool
  snapWant : Bool
  snapBusy : Bool
  /-- The count of `snap_go`. -/
  snapGo : ℕ
  gray96 : Bytes
  snapFrame : Mem
  snapW : UInt16
  snapH : UInt16
  snapCf : Classification
  pngBuf : Mem
  occupancy : Occupancy
  model : ModelState
  request : κ → RequestPc
  loop : LoopPc ι
  worker : WorkerPc
  hist : History ι

inductive SnapAct (κ ι : Type) where
  /-- `main` sets `cam_ok` before it calls `vision_step`. -/
  | camera (ok : Bool)
  /-- A call of `snapshot_request`, up to the answer of `iotc_fu_available`. -/
  | call (c : κ) (fuAvailable : Bool)
  /-- The next step of a call. -/
  | request (c : κ)
  /-- A call of `vision_step`: `snap_want` is read. -/
  | vision
  /-- The next step of the loop where it does not depend on the outside. -/
  | loop
  | noFrame
  | frame (f : ι)
  /-- The inference; `ok` is what the interpreter answers. The threshold and the LED mode are the
  ones that `occupancy_update` reads. -/
  | infer (ok : Bool) (thresholdPct : Int32) (ledMode : LedMode)
  /-- `install_from_staging`, on another thread. -/
  | install (c : Call)
  /-- The next step of the worker. -/
  | worker

/-- What a step shows to the outside. -/
inductive SnapOut (κ : Type) where
  | returned (c : κ) (ret : ℤ)
  | stepped (flipped : Bool)
  | uploaded (png cf : Bytes)
  | silent

/-- `sizeof(png_buf)`. -/
def pngBufSize : ℕ := pngGrayMaxSize snapshotMaxW.toNat snapshotMaxH.toNat

/-- The name and the version of the active model, as the texts show them. -/
def shownModel (active : Mem) : Bytes × UInt16 :=
  (shownName (iotvHdr active), (iotvHdr active).modelVer)

section Step

variable {κ ι : Type} [DecidableEq κ] (p : Platform ι)

/-- `vision_infer_run`: the two scores, if there is an interpreter and it succeeds. -/
def visionInferRun (ok : Bool) (gray96 : Bytes) (m : ModelState) : Option (Int32 × Int32) :=
  match m.interp with
  | none => none
  | some r => if ok then some (p.invoke (payload (m.region r)) gray96) else none

def Snap.at (s : Snap κ ι) (c : κ) (pc : RequestPc) : Snap κ ι :=
  { s with request := Function.update s.request c pc }

@[simp] theorem Snap.at_request_self (s : Snap κ ι) (c : κ) (pc : RequestPc) :
    (s.at c pc).request c = pc := by simp [Snap.at]

theorem Snap.at_request_of_ne (s : Snap κ ι) {c c' : κ} (pc : RequestPc) (h : c' ≠ c) :
    (s.at c pc).request c' = s.request c' := by simp [Snap.at, h]

def cameraStep (ok : Bool) (s : Snap κ ι) : SnapOut κ × Snap κ ι :=
  match s.loop with
  | .idle => (.silent, { s with camOk := ok })
  | _ => (.silent, s)

/-- The first two checks of `snapshot_request`. -/
def callStep (c : κ) (fuAvailable : Bool) (s : Snap κ ι) : SnapOut κ × Snap κ ι :=
  match s.request c with
  | .idle =>
      if !s.camOk then (.returned c (-ENODEV), s)
      else if !fuAvailable then (.returned c (-ENOTSUP), s)
      else (.silent, s.at c (.readWant s.hist.captures))
  | _ => (.silent, s)

/-- The rest of `snapshot_request`. -/
def requestStep (c : κ) (s : Snap κ ι) : SnapOut κ × Snap κ ι :=
  match s.request c with
  | .idle => (.silent, s)
  | .readWant began =>
      if s.snapWant then (.returned c (-EBUSY), s.at c .idle)
      else (.silent, s.at c (.readBusy began))
  | .readBusy began =>
      if s.snapBusy then (.returned c (-EBUSY), s.at c .idle)
      else (.silent, s.at c (.setWant began))
  | .setWant began =>
      (.returned c 0, { s.at c .idle with
        snapWant := true
        hist := { s.hist with calls := s.hist.calls ++ [began] } })

/-- `want_snap` is known. Without a camera `vision_step` returns. -/
def enterCapture (wantSnap : Bool) (s : Snap κ ι) : SnapOut κ × Snap κ ι :=
  if s.camOk then (.silent, { s with loop := .capture wantSnap })
  else (.stepped false, { s with loop := .idle })

/-- `vision_step` is called. -/
def visionStep (s : Snap κ ι) : SnapOut κ × Snap κ ι :=
  match s.loop with
  | .idle =>
      let s1 := { s with hist := { s.hist with steps := s.hist.steps + 1 } }
      if s.snapWant then (.silent, { s1 with loop := .readBusy })
      else enterCapture false s1
  | _ => (.silent, s)

/-- `vision_camera_capture` returns `-EAGAIN`. -/
def noFrameStep (s : Snap κ ι) : SnapOut κ × Snap κ ι :=
  match s.loop with
  | .capture _ => (.stepped false, { s with loop := .idle })
  | _ => (.silent, s)

/-- A frame is there: `vision_camera_capture` returns 0. -/
def frameStep (f : ι) (s : Snap κ ι) : SnapOut κ × Snap κ ι :=
  match s.loop with
  | .capture wantSnap =>
      let s1 := { s with
        gray96 := p.camera.gray f
        hist := { s.hist with captures := s.hist.captures + 1 } }
      if wantSnap then
        let (snapFrame, sw, sh) := p.camera.snap f s.snapFrame
        (.silent, { s1 with
          snapFrame := snapFrame
          loop := .infer ⟨true, sw, sh, 0, false, f⟩
          hist := { s1.hist with frameBy := s.hist.steps, frame := some f } })
      else (.silent, { s1 with loop := .infer ⟨false, 0, 0, 0, false, f⟩ })
  | _ => (.silent, s)

/-- The first critical section of `vision_step`, with the update behind it. -/
def inferStep (ok : Bool) (thresholdPct : Int32) (ledMode : LedMode) (s : Snap κ ι) :
    SnapOut κ × Snap κ ι :=
  match s.loop with
  | .infer v =>
      let (v', s1) := match visionInferRun p ok s.gray96 s.model with
        | some (person, _) =>
            let (flipped, occupancy) := occupancyUpdate ⟨person, thresholdPct, ledMode⟩ s.occupancy
            ({ v with person := person, flipped := flipped }, { s with
              occupancy := occupancy
              hist := { s.hist with verdict := some ⟨s.model.active, v.frame, person⟩ } })
        | none => (v, { s with hist := { s.hist with verdict := none } })
      if v.wantSnap && v.sw > 0 then (.silent, { s1 with loop := .writeW v' })
      else (.stepped v'.flipped, { s1 with loop := .idle })
  | _ => (.silent, s)

/-- The other steps of `vision_step`. -/
def loopStep (s : Snap κ ι) : SnapOut κ × Snap κ ι :=
  match s.loop with
  | .readBusy => enterCapture (!s.snapBusy) s
  | .writeW v => (.silent, { s with
      snapW := v.sw
      loop := .writeH v
      hist := { s.hist with wBy := s.hist.steps } })
  | .writeH v => (.silent, { s with
      snapH := v.sh
      loop := .classify v
      hist := { s.hist with hBy := s.hist.steps } })
  -- under `model_lock`
  | .classify v => (.silent, { s with
      snapCf :=
        { occupied := s.occupancy.occupied
          personPct := v.person
          name := (shownModel s.model.active).1
          modelVer := (shownModel s.model.active).2 }
      loop := .clearWant v
      hist := { s.hist with cfBy := s.hist.steps } })
  | .clearWant v => (.silent, { s with
      snapWant := false
      loop := .setBusy v
      hist := { s.hist with shots := s.hist.shots ++ [s.hist.captures] } })
  | .setBusy v => (.silent, { s with snapBusy := true, loop := .give v })
  | .give v => (.stepped v.flipped, { s with snapGo := min 1 (s.snapGo + 1), loop := .idle })
  | _ => (.silent, s)

/-- `snapshot_worker`. -/
def workerStep (s : Snap κ ι) : SnapOut κ × Snap κ ι :=
  match s.worker with
  | .take =>
      if s.snapGo = 0 then (.silent, s)
      else (.silent, { s with
        snapGo := s.snapGo - 1
        worker := .encode
        hist := { s.hist with activations := s.hist.activations + 1 } })
  | .encode =>
      let (count, pngBuf) := pngGrayEncode s.snapFrame s.snapW s.snapH s.pngBuf pngBufSize
      (.silent, { s with pngBuf := pngBuf, worker := .upload count })
  | .upload count =>
      -- the answer of the upload is logged only
      (if count > 0 then .uploaded (bytesAt s.pngBuf 0 count.toNat) s.snapCf.text else .silent,
        { s with worker := .clearBusy })
  | .clearBusy => (.silent, { s with snapBusy := false, worker := .take })

def snapStep : SnapAct κ ι → Snap κ ι → SnapOut κ × Snap κ ι
  | .camera ok, s => cameraStep ok s
  | .call c fuAvailable, s => callStep c fuAvailable s
  | .request c, s => requestStep c s
  | .vision, s => visionStep s
  | .loop, s => loopStep s
  | .noFrame, s => noFrameStep s
  | .frame f, s => frameStep p f s
  | .infer ok thresholdPct ledMode, s => inferStep p ok thresholdPct ledMode s
  | .install c, s => (.silent, { s with model := (installStep p.tflite p.flash c s.model).2 })
  | .worker, s => workerStep s

end Step

/-! ## What each function does -/

section Cases

variable {κ ι : Type} (p : Platform ι)

/-- When a call began, if one is going on. -/
def RequestPc.began : RequestPc → Option ℕ
  | idle => none
  | readWant b => some b
  | readBusy b => some b
  | setWant b => some b

theorem cameraStep_cases (ok : Bool) (s : Snap κ ι) :
    (cameraStep ok s).2 = s ∨ (cameraStep ok s).2 = { s with camOk := ok } := by
  unfold cameraStep
  split
  · exact Or.inr rfl
  · exact Or.inl rfl

theorem callStep_cases [DecidableEq κ] (c : κ) (fuAvailable : Bool) (s : Snap κ ι) :
    (callStep c fuAvailable s).2 = s ∨
      (callStep c fuAvailable s).2 = s.at c (.readWant s.hist.captures) := by
  unfold callStep
  split
  · split_ifs
    · exact Or.inl rfl
    · exact Or.inl rfl
    · exact Or.inr rfl
  · exact Or.inl rfl

/-- A call goes on or ends, or it sets `snap_want`. -/
theorem requestStep_cases [DecidableEq κ] (c : κ) (s : Snap κ ι) :
    (∃ pc, (∀ b, s.request c ≠ .setWant b) ∧ (∀ b ∈ pc.began, b ∈ (s.request c).began) ∧
      (requestStep c s).2 = s.at c pc) ∨
    ∃ b, s.request c = .setWant b ∧ (requestStep c s).2 = { s.at c .idle with
      snapWant := true
      hist := { s.hist with calls := s.hist.calls ++ [b] } } := by
  unfold requestStep
  split
  · next hpc =>
      have hself : s = s.at c .idle := by
        rw [Snap.at, ← hpc, Function.update_eq_self]
      exact Or.inl ⟨.idle, by simp [hpc], nofun, hself⟩
  · next b hpc =>
      split_ifs
      · exact Or.inl ⟨.idle, by simp [hpc], nofun, rfl⟩
      · exact Or.inl ⟨.readBusy b, by simp [hpc], by rw [hpc]; exact fun _ => id, rfl⟩
  · next b hpc =>
      split_ifs
      · exact Or.inl ⟨.idle, by simp [hpc], nofun, rfl⟩
      · exact Or.inl ⟨.setWant b, by simp [hpc], by rw [hpc]; exact fun _ => id, rfl⟩
  · next b hpc => exact Or.inr ⟨b, hpc, rfl⟩

/-- A `vision_step` begins: `snap_busy` comes next only where `snap_want` is set. -/
theorem visionStep_cases (s : Snap κ ι) :
    (visionStep s).2 = s ∨ s.loop = .idle ∧
      ∃ pc, (pc = .idle ∨ pc = .capture false ∨ pc = .readBusy ∧ s.snapWant = true) ∧
        (visionStep s).2 = { s with
          loop := pc
          hist := { s.hist with steps := s.hist.steps + 1 } } := by
  unfold visionStep enterCapture
  split
  · next hpc =>
      refine Or.inr ⟨hpc, ?_⟩
      dsimp only
      split_ifs with hwant
      · exact ⟨.readBusy, Or.inr (Or.inr ⟨rfl, hwant⟩), rfl⟩
      · exact ⟨.capture false, Or.inr (Or.inl rfl), rfl⟩
      · exact ⟨.idle, Or.inl rfl, rfl⟩
  · exact Or.inl rfl

theorem noFrameStep_cases (s : Snap κ ι) :
    (noFrameStep s).2 = s ∨
      (∃ wantSnap, s.loop = .capture wantSnap) ∧ (noFrameStep s).2 = { s with loop := .idle } := by
  unfold noFrameStep
  split
  · next wantSnap hpc => exact Or.inr ⟨⟨wantSnap, hpc⟩, rfl⟩
  · exact Or.inl rfl

/-- A frame goes into the model input, and, where it is wanted, into `snap_frame`. -/
theorem frameStep_cases (f : ι) (s : Snap κ ι) :
    (frameStep p f s).2 = s ∨
    (s.loop = .capture false ∧ (frameStep p f s).2 = { s with
      gray96 := p.camera.gray f
      loop := .infer ⟨false, 0, 0, 0, false, f⟩
      hist := { s.hist with captures := s.hist.captures + 1 } }) ∨
    s.loop = .capture true ∧ (frameStep p f s).2 = { s with
      gray96 := p.camera.gray f
      snapFrame := (p.camera.snap f s.snapFrame).1
      loop := .infer ⟨true, (p.camera.snap f s.snapFrame).2.1, (p.camera.snap f s.snapFrame).2.2, 0,
        false, f⟩
      hist := { s.hist with
        captures := s.hist.captures + 1
        frameBy := s.hist.steps
        frame := some f } } := by
  unfold frameStep
  split
  · next wantSnap hpc =>
      cases wantSnap with
      | false => exact Or.inr (Or.inl ⟨hpc, rfl⟩)
      | true => exact Or.inr (Or.inr ⟨hpc, rfl⟩)
  · exact Or.inl rfl

/-- Where `vision_step` goes on after the inference. -/
def StepVars.next (v v' : StepVars ι) : LoopPc ι :=
  if v.wantSnap && v.sw > 0 then .writeW v' else .idle

/-- The inference fails, or its score is the verdict. -/
theorem inferStep_cases (ok : Bool) (thresholdPct : Int32) (ledMode : LedMode) (s : Snap κ ι) :
    (inferStep p ok thresholdPct ledMode s).2 = s ∨
    ∃ v, s.loop = .infer v ∧
      ((visionInferRun p ok s.gray96 s.model = none ∧
        (inferStep p ok thresholdPct ledMode s).2 = { s with
          loop := v.next v
          hist := { s.hist with verdict := none } }) ∨
      ∃ scores occupancy flipped, visionInferRun p ok s.gray96 s.model = some scores ∧
        (inferStep p ok thresholdPct ledMode s).2 = { s with
          occupancy := occupancy
          loop := v.next { v with person := scores.1, flipped := flipped }
          hist := { s.hist with verdict := some ⟨s.model.active, v.frame, scores.1⟩ } }) := by
  unfold inferStep
  split
  · next v hpc =>
      refine Or.inr ⟨v, hpc, ?_⟩
      unfold StepVars.next
      cases visionInferRun p ok s.gray96 s.model with
      | none =>
          refine Or.inl ⟨rfl, ?_⟩
          dsimp only
          split_ifs <;> rfl
      | some scores =>
          let update := occupancyUpdate ⟨scores.1, thresholdPct, ledMode⟩ s.occupancy
          refine Or.inr ⟨scores, update.2, update.1, rfl, ?_⟩
          dsimp only
          split_ifs <;> rfl
  · exact Or.inl rfl

/-- Where it finds `snap_want`, the loop looks at `snap_busy`, and returns without a camera. -/
theorem loopStep_readBusy {s : Snap κ ι} (hpc : s.loop = .readBusy) :
    (loopStep s).2 = { s with loop := .capture (!s.snapBusy) } ∨
      (loopStep s).2 = { s with loop := .idle } := by
  simp only [loopStep, hpc, enterCapture]
  split_ifs
  · exact Or.inl rfl
  · exact Or.inr rfl

/-- The worker takes the semaphore, goes on, or clears `snap_busy`. -/
theorem workerStep_cases (s : Snap κ ι) :
    (workerStep s).2 = s ∨
    (s.worker = .take ∧ s.snapGo ≠ 0 ∧ (workerStep s).2 = { s with
      snapGo := s.snapGo - 1
      worker := .encode
      hist := { s.hist with activations := s.hist.activations + 1 } }) ∨
    (s.worker ≠ .take ∧ ∃ pc pngBuf, pc ≠ .take ∧
      (workerStep s).2 = { s with pngBuf := pngBuf, worker := pc }) ∨
    s.worker = .clearBusy ∧ (workerStep s).2 = { s with snapBusy := false, worker := .take } := by
  unfold workerStep
  split
  · next hpc =>
      split_ifs with hgo
      · exact Or.inl rfl
      · exact Or.inr (Or.inl ⟨hpc, hgo, rfl⟩)
  · next hpc => exact Or.inr (Or.inr (Or.inl ⟨by simp [hpc], .upload _, _, by simp, rfl⟩))
  · next count hpc => exact Or.inr (Or.inr (Or.inl ⟨by simp [hpc], .clearBusy, _, by simp, rfl⟩))
  · next hpc => exact Or.inr (Or.inr (Or.inr ⟨hpc, rfl⟩))

end Cases

end IotcDemos.Vision
