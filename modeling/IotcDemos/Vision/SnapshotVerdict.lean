import IotcDemos.Vision.SnapshotRequests

set_option autoImplicit false

/-! # The verdict in a snapshot

`vision_step` runs the model in one critical section and writes `snap_cf` in another. Between the
two an install may change the active model, and after an inference that has failed the snapshot is
handed over all the same. `Sound` says, for each place of the loop, what the captured frame and the
verdict have to do with the buffers, where neither happens.
-/

namespace IotcDemos.Vision

variable {κ ι : Type}

/-- The classification is the verdict `v`, which the model named there has computed for the frame
in the buffers. -/
structure CarriesVerdict (p : Platform ι) (s : Snap κ ι) (v : Verdict ι) : Prop where
  computed : s.hist.verdict = some v
  score : v.personPct = (p.invoke (payload v.active) (p.camera.gray v.frame)).1
  frame : s.hist.frame = some v.frame
  image : ∃ old, (s.snapFrame, s.snapW, s.snapH) = p.camera.snap v.frame old
  person : s.snapCf.personPct = v.personPct
  model : (s.snapCf.name, s.snapCf.modelVer) = shownModel v.active

/-- The loop is between the inference and the classification. -/
def LoopPc.judged : LoopPc ι → Bool
  | writeW _ => true
  | writeH _ => true
  | classify _ => true
  | _ => false

/-- The step is the inference for a snapshot, and it fails. -/
def inferenceFails (p : Platform ι) : SnapAct κ ι → Snap κ ι → Bool
  | .infer ok _ _, s =>
      match s.loop with
      | .infer v => v.wantSnap && v.sw > 0 && (visionInferRun p ok s.gray96 s.model).isNone
      | _ => false
  | _, _ => false

/-- The step is an install between an inference and its classification, and changes the name or the
version that is shown. -/
def modelChanges (p : Platform ι) : SnapAct κ ι → Snap κ ι → Bool
  | .install c, s => s.loop.judged &&
      shownModel (installStep p.tflite p.flash c s.model).2.active != shownModel s.model.active
  | _, _ => false

def VerdictStays (p : Platform ι) (a : SnapAct κ ι) (s : Snap κ ι) : Prop :=
  inferenceFails p a s = false ∧ modelChanges p a s = false

instance VerdictStays.decidable (p : Platform ι) (a : SnapAct κ ι) (s : Snap κ ι) :
    Decidable (VerdictStays p a s) :=
  inferInstanceAs (Decidable (inferenceFails p a s = false ∧ modelChanges p a s = false))

/-! ## What holds at each place of the loop -/

/-- The frame of this `vision_step` is in the buffers of the loop. -/
structure Shot (p : Platform ι) (s : Snap κ ι) (v : StepVars ι) : Prop where
  frame : s.hist.frame = some v.frame
  image : ∃ old, (s.snapFrame, v.sw, v.sh) = p.camera.snap v.frame old
  gray : s.gray96 = p.camera.gray v.frame

/-- The score of this `vision_step` is the one that a model shown as `shown` has computed. -/
def Judged (p : Platform ι) (s : Snap κ ι) (v : StepVars ι) (shown : Bytes × UInt16) : Prop :=
  ∃ active, s.hist.verdict = some ⟨active, v.frame, v.person⟩ ∧
    v.person = (p.invoke (payload active) (p.camera.gray v.frame)).1 ∧ shownModel active = shown

/-- The classification is written, from the local variables of this `vision_step`. -/
structure Classified (p : Platform ι) (s : Snap κ ι) (v : StepVars ι) : Prop where
  shot : Shot p s v
  w : s.snapW = v.sw
  h : s.snapH = v.sh
  person : s.snapCf.personPct = v.person
  judged : Judged p s v (s.snapCf.name, s.snapCf.modelVer)

def LoopPc.Sound (p : Platform ι) (s : Snap κ ι) : LoopPc ι → Prop
  | infer v => v.wantSnap = true → Shot p s v
  | writeW v => Shot p s v ∧ Judged p s v (shownModel s.model.active)
  | writeH v => Shot p s v ∧ Judged p s v (shownModel s.model.active) ∧ s.snapW = v.sw
  | classify v => Shot p s v ∧ Judged p s v (shownModel s.model.active) ∧ s.snapW = v.sw ∧
      s.snapH = v.sh
  | clearWant v => Classified p s v
  | setBusy v => Classified p s v
  | give v => Classified p s v
  | _ => True

/-- The interpreter runs the active model, and the buffers are as the loop left them. -/
structure Sound (p : Platform ι) (s : Snap κ ι) : Prop where
  running : Running p.tflite s.model
  loop : s.loop.Sound p s

section Sound

variable {p : Platform ι} {s s' : Snap κ ι}

/-- The hand-over, at the end of a `vision_step`. -/
theorem Classified.carries {v : StepVars ι} (h : Classified p s v) :
    ∃ verdict, CarriesVerdict p s verdict := by
  obtain ⟨active, hcomputed, hscore, hshown⟩ := h.judged
  refine ⟨⟨active, v.frame, v.person⟩, hcomputed, hscore, h.shot.frame, ?_, h.person, hshown.symm⟩
  obtain ⟨old, himage⟩ := h.shot.image
  exact ⟨old, by rw [h.w, h.h, himage]⟩

/-- What the loop relies on. -/
structure SameView (s s' : Snap κ ι) : Prop where
  gray96 : s'.gray96 = s.gray96
  snapFrame : s'.snapFrame = s.snapFrame
  snapW : s'.snapW = s.snapW
  snapH : s'.snapH = s.snapH
  snapCf : s'.snapCf = s.snapCf
  frame : s'.hist.frame = s.hist.frame
  verdict : s'.hist.verdict = s.hist.verdict

theorem Shot.congr {v : StepVars ι} (h : Shot p s v) (hview : SameView s s') : Shot p s' v where
  frame := hview.frame.trans h.frame
  image := by rw [hview.snapFrame]; exact h.image
  gray := hview.gray96.trans h.gray

theorem Judged.congr {v : StepVars ι} {shown : Bytes × UInt16} (h : Judged p s v shown)
    (hview : SameView s s') : Judged p s' v shown := by
  rw [Judged, hview.verdict]
  exact h

theorem Classified.congr {v : StepVars ι} (h : Classified p s v) (hview : SameView s s') :
    Classified p s' v where
  shot := h.shot.congr hview
  w := hview.snapW.trans h.w
  h := hview.snapH.trans h.h
  person := by rw [hview.snapCf]; exact h.person
  judged := by rw [hview.snapCf]; exact h.judged.congr hview

/-- A step aside: the active model may change where nothing is between an inference and its
classification. -/
theorem LoopPc.Sound.congr {pc : LoopPc ι} (h : pc.Sound p s) (hview : SameView s s')
    (hmodel : pc.judged = true → shownModel s'.model.active = shownModel s.model.active) :
    pc.Sound p s' := by
  cases pc with
  | infer v => exact fun hwant => (h hwant).congr hview
  | writeW v =>
      obtain ⟨hshot, hjudged⟩ := h
      refine ⟨hshot.congr hview, ?_⟩
      -- here the shown model must stay
      rw [hmodel rfl]
      exact hjudged.congr hview
  | writeH v =>
      obtain ⟨hshot, hjudged, hw⟩ := h
      refine ⟨hshot.congr hview, ?_, hview.snapW.trans hw⟩
      rw [hmodel rfl]
      exact hjudged.congr hview
  | classify v =>
      obtain ⟨hshot, hjudged, hw, hh⟩ := h
      refine ⟨hshot.congr hview, ?_, hview.snapW.trans hw, hview.snapH.trans hh⟩
      rw [hmodel rfl]
      exact hjudged.congr hview
  | clearWant v => exact Classified.congr h hview
  | setBusy v => exact Classified.congr h hview
  | give v => exact Classified.congr h hview
  | _ => trivial

/-- A step of another thread that touches neither the buffers nor the model. -/
theorem Sound.aside (h : Sound p s) (hloop : s'.loop = s.loop) (hmodel : s'.model = s.model)
    (hview : SameView s s') : Sound p s' where
  running := hmodel ▸ h.running
  loop := by rw [hloop]; exact h.loop.congr hview fun _ => by rw [hmodel]

end Sound

section Step

variable {p : Platform ι} {s : Snap κ ι}

/-- With its interpreter on the active model, `vision_infer_run` computes what that model does. -/
theorem visionInferRun_running {m : ModelState} (hrun : Running p.tflite m) (ok : Bool)
    (gray96 : Bytes) : visionInferRun p ok gray96 m =
      if ok then some (p.invoke (payload m.active) gray96) else none := by
  rw [visionInferRun, hrun.bound]
  rfl

theorem Sound.frameStep (h : Sound p s) (f : ι) : Sound p (frameStep p f s).2 := by
  rcases frameStep_cases p f s with hstep | ⟨-, hstep⟩ | ⟨-, hstep⟩
  · rw [hstep]
    exact h
  · rw [hstep]
    exact ⟨h.running, nofun⟩
  · rw [hstep]
    exact ⟨h.running, fun _ => ⟨rfl, ⟨s.snapFrame, rfl⟩, rfl⟩⟩

theorem Sound.inferStep (h : Sound p s) (ok : Bool) (thresholdPct : Int32) (ledMode : LedMode)
    (hstays : VerdictStays p (.infer ok thresholdPct ledMode : SnapAct κ ι) s) :
    Sound p (inferStep p ok thresholdPct ledMode s).2 := by
  rcases inferStep_cases p ok thresholdPct ledMode s with
    hstep | ⟨v, hpc, ⟨hnone, hstep⟩ | ⟨scores, occupancy, flipped, hscores, hstep⟩⟩
  · rw [hstep]
    exact h
  · -- an inference that fails is for no snapshot, and `vision_step` returns
    have hfails := hstays.1
    simp only [inferenceFails, hpc, hnone, Option.isNone_none, Bool.and_true] at hfails
    rw [hstep, StepVars.next, hfails]
    exact ⟨h.running, trivial⟩
  · have hloop := h.loop
    rw [hpc] at hloop
    rw [visionInferRun_running h.running] at hscores
    have hscore : (p.invoke (payload s.model.active) s.gray96).1 = scores.1 := by
      split_ifs at hscores
      rw [Option.some.inj hscores]
    rw [hstep, StepVars.next]
    split
    · next hwant =>
        -- the model has judged the frame of this `vision_step`
        obtain ⟨hframe, himage, hgray⟩ := hloop (Bool.and_elim_left hwant)
        refine ⟨h.running, ⟨hframe, himage, hgray⟩, s.model.active, rfl, ?_, rfl⟩
        rw [← hgray, hscore]
    · exact ⟨h.running, trivial⟩

theorem Sound.loopStep (h : Sound p s) : Sound p (loopStep s).2 := by
  have hself := h
  obtain ⟨hrunning, hloop⟩ := h
  unfold Vision.loopStep enterCapture
  cases hpc : s.loop with
  | idle | capture wantSnap | infer v => exact hself
  | readBusy =>
      dsimp only
      split_ifs <;> exact ⟨hrunning, trivial⟩
  | writeW v =>
      rw [hpc] at hloop
      obtain ⟨⟨hframe, himage, hgray⟩, hjudged⟩ := hloop
      exact ⟨hrunning, ⟨hframe, himage, hgray⟩, hjudged, rfl⟩
  | writeH v =>
      rw [hpc] at hloop
      obtain ⟨⟨hframe, himage, hgray⟩, hjudged, hw⟩ := hloop
      exact ⟨hrunning, ⟨hframe, himage, hgray⟩, hjudged, hw, rfl⟩
  | classify v =>
      rw [hpc] at hloop
      obtain ⟨⟨hframe, himage, hgray⟩, hjudged, hw, hh⟩ := hloop
      exact ⟨hrunning, ⟨hframe, himage, hgray⟩, hw, hh, rfl, hjudged⟩
  | clearWant v | setBusy v =>
      rw [hpc] at hloop
      obtain ⟨⟨hframe, himage, hgray⟩, hw, hh, hperson, hjudged⟩ := hloop
      exact ⟨hrunning, ⟨hframe, himage, hgray⟩, hw, hh, hperson, hjudged⟩
  | give v => exact ⟨hrunning, trivial⟩

/-- An install leaves the interpreter on the active model, whatever it answers. -/
theorem Running.installStep {fa : FlashArea} {tflite : Bytes → LoadResult} {m : ModelState}
    (h : Running tflite m) (c : Call) : Running tflite (installStep tflite fa c m).2 := by
  rcases installFromStaging_cases tflite fa c.len c.src c.persist { m with staging := c.staged } with
    ⟨-, -, hkeep⟩ | ⟨-, -, -, hnew⟩
  · exact hkeep ⟨h.bound, h.valid, h.loads⟩
  · exact hnew

theorem installStep_running {fa : FlashArea} {tflite : Bytes → LoadResult} {m : ModelState}
    {c : Call} (h : (installStep tflite fa c m).1.1 = 0) :
    Running tflite (installStep tflite fa c m).2 := by
  rcases installFromStaging_cases tflite fa c.len c.src c.persist { m with staging := c.staged } with
    ⟨hfail, -, -⟩ | ⟨-, -, -, hnew⟩
  · exact absurd (hfail.symm.trans h) (by decide)
  · exact hnew

theorem Sound.install (h : Sound p s) (c : Call)
    (hstays : VerdictStays p (.install c : SnapAct κ ι) s) :
    Sound p { s with model := (installStep p.tflite p.flash c s.model).2 } where
  running := h.running.installStep c
  loop := by
    refine h.loop.congr ⟨rfl, rfl, rfl, rfl, rfl, rfl, rfl⟩ fun hjudged => ?_
    have hchanges := hstays.2
    simpa [modelChanges, hjudged] using hchanges

/-- What every step preserves that neither fails an inference for a snapshot nor changes the model
before its classification. -/
theorem sound_step [DecidableEq κ] (a : SnapAct κ ι) (hstays : VerdictStays p a s)
    (h : Sound p s) : Sound p (snapStep p a s).2 := by
  cases a with
  | camera ok =>
      show Sound p (cameraStep ok s).2
      rcases cameraStep_cases ok s with hstep | hstep
      · rw [hstep]
        exact h
      · rw [hstep]
        exact h.aside rfl rfl ⟨rfl, rfl, rfl, rfl, rfl, rfl, rfl⟩
  | call c fu =>
      show Sound p (callStep c fu s).2
      rcases callStep_cases c fu s with hstep | hstep
      · rw [hstep]
        exact h
      · rw [hstep]
        exact h.aside rfl rfl ⟨rfl, rfl, rfl, rfl, rfl, rfl, rfl⟩
  | request c =>
      show Sound p (requestStep c s).2
      rcases requestStep_cases c s with ⟨pc, -, -, hstep⟩ | ⟨b, -, hstep⟩
      · rw [hstep]
        exact h.aside rfl rfl ⟨rfl, rfl, rfl, rfl, rfl, rfl, rfl⟩
      · rw [hstep]
        exact h.aside rfl rfl ⟨rfl, rfl, rfl, rfl, rfl, rfl, rfl⟩
  | vision =>
      show Sound p (visionStep s).2
      rcases visionStep_cases s with hstep | ⟨-, pc, hnext, hstep⟩
      · rw [hstep]
        exact h
      · rw [hstep]
        rcases hnext with rfl | rfl | ⟨rfl, -⟩ <;> exact ⟨h.running, trivial⟩
  | loop => exact h.loopStep
  | noFrame =>
      show Sound p (noFrameStep s).2
      rcases noFrameStep_cases s with hstep | ⟨-, hstep⟩
      · rw [hstep]
        exact h
      · rw [hstep]
        exact ⟨h.running, trivial⟩
  | frame f => exact h.frameStep f
  | infer ok thresholdPct ledMode => exact h.inferStep ok thresholdPct ledMode hstays
  | install c => exact h.install c hstays
  | worker =>
      show Sound p (workerStep s).2
      rcases workerStep_cases s with
        hstep | ⟨-, -, hstep⟩ | ⟨-, pc, pngBuf, -, hstep⟩ | ⟨-, hstep⟩
      · rw [hstep]
        exact h
      · rw [hstep]
        exact h.aside rfl rfl ⟨rfl, rfl, rfl, rfl, rfl, rfl, rfl⟩
      · rw [hstep]
        exact h.aside rfl rfl ⟨rfl, rfl, rfl, rfl, rfl, rfl, rfl⟩
      · rw [hstep]
        exact h.aside rfl rfl ⟨rfl, rfl, rfl, rfl, rfl, rfl, rfl⟩

/-- **The verdict in a snapshot.** In a run in which no inference for a snapshot fails and no
install changes the shown name or version between an inference and its classification, a snapshot
that is handed over carries the score that the model named there has computed for its frame. -/
theorem snapshot_carries_verdict [DecidableEq κ] (p : Platform ι) (camOk : Bool) (m : ModelState)
    (hm : Running p.tflite m) (acts : List (SnapAct κ ι))
    (h : Along (snapStep p) (VerdictStays p) acts (Snap.start camOk m)) :
    (runState (snapStep p) acts (Snap.start camOk m)).loop.giving = true →
      ∃ v, CarriesVerdict p (runState (snapStep p) acts (Snap.start camOk m)) v := by
  have hstart : Sound p (Snap.start camOk m : Snap κ ι) := ⟨hm, trivial⟩
  have hsound := (trace_inv_along (fun _ _ hstays hs => sound_step _ hstays hs) h hstart).2
  generalize runState (snapStep p) acts (Snap.start camOk m) = s at hsound
  intro hgiving
  have hloop := hsound.loop
  cases hpc : s.loop with
  | give v =>
      rw [hpc] at hloop
      exact hloop.carries
  | _ =>
      rw [hpc] at hgiving
      exact absurd hgiving Bool.false_ne_true

end Step

/-! ## A snapshot of the bench -/

/-- The small model is installed. -/
def benchModel : ModelState := (installStep schemaOnly slot1 smallCall blank).2

theorem benchModel_running : Running schemaOnly benchModel :=
  installStep_running (by decide +kernel)

/-- A request, and a `vision_step` up to `k_sem_give`, with an inference that succeeds or not, and
something else before the classification. -/
def benchSnapshot (ok : Bool) (between : List (SnapAct Caller Unit)) : List (SnapAct Caller Unit) :=
  [.call .shell true, .request .shell, .request .shell, .request .shell, .vision, .loop, .frame (),
    .infer ok 60 .auto] ++ between ++ [.loop, .loop, .loop, .loop, .loop]

def benchEnd (acts : List (SnapAct Caller Unit)) : Snap Caller Unit :=
  runState (snapStep bench) acts (Snap.start true benchModel)

theorem snapshot_carries_verdict_bench : (benchEnd (benchSnapshot true [])).loop.giving = true ∧
    ∃ v, CarriesVerdict bench (benchEnd (benchSnapshot true [])) v := by
  have hgiving : (benchEnd (benchSnapshot true [])).loop.giving = true := by decide +kernel
  exact ⟨hgiving, snapshot_carries_verdict bench true benchModel benchModel_running
    (benchSnapshot true []) (by decide +kernel) hgiving⟩

/-- The small flatbuffer under another name, as version 2. -/
def otherCall : Call where
  staged := iotvWrapInPlace (patch (fun _ => 0) hdrLen ([28, 0, 0, 0] ++ tflMagic)) 8 2 (ascii "b")
  len := 40
  src := ascii "cloud"
  persist := true

/-- After a failed inference the snapshot carries a score of 0 that no model has computed, and
after an install in between it names a model that has not seen the frame. -/
theorem snapshot_without_verdict :
    let failed := benchEnd (benchSnapshot false [])
    let swapped := benchEnd (benchSnapshot true [.install otherCall])
    failed.loop.giving = true ∧ failed.snapCf.personPct = 0 ∧
      (¬ ∃ v, CarriesVerdict bench failed v) ∧
      swapped.loop.giving = true ∧ ¬ ∃ v, CarriesVerdict bench swapped v := by
  intro failed swapped
  have hnone : failed.hist.verdict.isNone = true := by decide +kernel
  have hother : swapped.hist.verdict.map (fun v => shownModel v.active) ≠
      some (swapped.snapCf.name, swapped.snapCf.modelVer) := by decide +kernel
  refine ⟨by decide +kernel, by decide +kernel, ?_, by decide +kernel, ?_⟩
  · -- no verdict was ever computed
    rintro ⟨v, hv⟩
    rw [hv.computed] at hnone
    exact absurd hnone Bool.false_ne_true
  · rintro ⟨v, hv⟩
    rw [hv.computed, hv.model] at hother
    exact hother rfl

end IotcDemos.Vision
