import IotcDemos.Vision.Occupancy
import Mathlib.Data.List.Destutter

set_option autoImplicit false

/-! # What the cloud sees of the occupancy

While it is connected, the main loop classifies a frame in each round. It publishes when the
occupancy has changed, when its interval is over, and in the first round of a connection. A step is
an attempt to connect or a round. What the commands set is an input of the round, and so are the
camera, the model and the clock; snapshots are in `Vision.Snapshot`.
-/

namespace IotcDemos.Vision

/-- What `publish_vision` hands over of the loop's own figures. -/
structure VisionReport where
  person : Bool
  score : Int32
  clearScore : Int32
  inferMs : UInt32
  fpsX10 : Int32
  frames : UInt32
  camOk : Bool
  deriving DecidableEq

/-- The variables of a connection. -/
structure VisionSession where
  lastPub : Int
  winStart : Int
  winFrames : UInt32

structure VisionLoop where
  camOk : Bool
  occupancy : Occupancy
  lastPersonPct : Int32
  lastClearPct : Int32
  lastInferMs : UInt32
  totalFrames : UInt32
  fpsX10 : Int32
  /-- `none` while there is no connection. -/
  session : Option VisionSession
  /-- What was published, the latest first. -/
  reports : List VisionReport
  /-- The occupancy after each frame that was classified, the latest first. -/
  states : List Bool
  /-- What was published in this connection. -/
  sessionReports : ℕ
  /-- When the sleep of the last step ends. -/
  resumeAt : Int

/-- The inputs of a round. -/
structure VisionRound where
  /-- `iotconnect_sdk_is_connected()` -/
  connected : Bool
  /-- `vision_camera_capture` returns 0. -/
  captured : Bool
  /-- `person`, `clear` and `last_infer_ms`, if `vision_infer_run` returns 0 -/
  scores : Option (Int32 × Int32 × UInt32)
  thresholdPct : Int32
  ledMode : LedMode
  publishIntervalSec : Int32
  /-- `iotcl_telemetry_create` gives a message. -/
  msgCreated : Bool
  /-- `k_uptime_get()` after the frame -/
  now : Int

/-- `vision_step`, without the snapshot. -/
def VisionLoop.visionStep (s : VisionLoop) (r : VisionRound) : Bool × VisionLoop :=
  -- without a frame, or without its scores, nothing changes
  if s.camOk = false then (false, s)
  else if r.captured = false then (false, s)
  else
    match r.scores with
    | none => (false, s)
    | some (person, clear, inferMs) =>
        let (flipped, occupancy) :=
          occupancyUpdate ⟨person, r.thresholdPct, r.ledMode⟩ s.occupancy
        (flipped, { s with
          occupancy := occupancy
          lastPersonPct := person
          lastClearPct := clear
          lastInferMs := inferMs
          totalFrames := s.totalFrames + 1
          states := occupancy.occupied :: s.states })

def VisionLoop.report (s : VisionLoop) : VisionReport :=
  ⟨s.occupancy.occupied, s.lastPersonPct, s.lastClearPct, s.lastInferMs, s.fpsX10, s.totalFrames,
    s.camOk⟩

/-- `publish_vision` -/
def publishVision (msgCreated : Bool) (s : VisionLoop) : VisionLoop :=
  if msgCreated then { s with reports := s.report :: s.reports } else s

/-- The new value of `fps_x10`. -/
def measuredFps (now winStart : Int) (winFrames : UInt32) (fpsX10 : Int32) : Int32 :=
  if now > winStart then
    (winFrames * 10000 / UInt32.ofNat ((now - winStart) % 2 ^ 32).toNat).toInt32
  else fpsX10

/-- The `k_sleep` at the end of a round, in ms. -/
def pauseMs (camOk : Bool) : Int := if camOk then 200 else 1000

/-- A round with a connection. -/
def visionRound (r : VisionRound) (v : VisionSession) (s : VisionLoop) : VisionLoop :=
  let (flipped, s) := s.visionStep r
  -- a round counts, whether or not it had a frame
  let winFrames := if s.camOk then v.winFrames + 1 else v.winFrames
  let s :=
    if flipped ∨ v.lastPub = 0 ∨ r.now - v.lastPub ≥ r.publishIntervalSec.toInt * 1000 then
      let s := { s with fpsX10 := measuredFps r.now v.winStart winFrames s.fpsX10 }
      { publishVision r.msgCreated s with
        session := some ⟨r.now, r.now, 0⟩
        sessionReports := s.sessionReports + 1 }
    else { s with session := some { v with winFrames := winFrames } }
  { s with resumeAt := r.now + pauseMs s.camOk }

inductive VisionAct where
  /-- `iotconnect_sdk_connect`, which returns at `now`. -/
  | connect (ok : Bool) (now : Int)
  | round (r : VisionRound)

def visionAct : VisionAct → VisionLoop → VisionLoop
  | .connect ok now, s =>
      match s.session with
      | some _ => s
      | none =>
          if ok then
            -- `last_pub` is 0, so that the first round publishes
            { s with session := some ⟨0, now, 0⟩, sessionReports := 0, resumeAt := now }
          -- the next attempt is 5 s later
          else { s with resumeAt := now + 5000 }
  | .round r, s =>
      match s.session with
      | none => s
      | some v => if r.connected then visionRound r v s else { s with session := none }

def visionLoopStep (a : VisionAct) (s : VisionLoop) : Unit × VisionLoop := ((), visionAct a s)

/-- Before the first connection, with what the self-test has left. -/
def VisionLoop.start (camOk : Bool) (lastInferMs : UInt32) (now : Int) : VisionLoop where
  camOk := camOk
  occupancy := .init
  lastPersonPct := 0
  lastClearPct := 0
  lastInferMs := lastInferMs
  totalFrames := 0
  fpsX10 := 0
  session := none
  reports := []
  states := []
  sessionReports := 0
  resumeAt := now

/-! ## Changes -/

theorem destutter_cons_of_head {b c : Bool} {l : List Bool} (h : l.head? = some c) :
    (b :: l).destutter (· ≠ ·)
      = if b ≠ c then b :: l.destutter (· ≠ ·) else l.destutter (· ≠ ·) := by
  cases l with
  | nil => cases h
  | cons d l =>
      obtain rfl : d = c := Option.some.inj h
      rw [List.destutter_cons_cons, List.destutter_cons']
      split
      · rfl
      · next hbd => rw [not_not.mp hbd]

/-- The states that were published, and those that the occupancy went through, have the same
changes, and the last ones are the present one. -/
structure CloudSees (s : VisionLoop) : Prop where
  changes : (s.reports.map VisionReport.person ++ [false]).destutter (· ≠ ·)
    = (s.states ++ [false]).destutter (· ≠ ·)
  published : (s.reports.map VisionReport.person ++ [false]).head? = some s.occupancy.occupied
  state : (s.states ++ [false]).head? = some s.occupancy.occupied

section CloudSees

variable {s s' : VisionLoop} {r : VisionRound}

theorem CloudSees.congr (h : CloudSees s) (hreports : s'.reports = s.reports)
    (hstates : s'.states = s.states) (hoccupancy : s'.occupancy = s.occupancy) : CloudSees s' := by
  refine ⟨?_, ?_, ?_⟩
  · rw [hreports, hstates]
    exact h.changes
  · rw [hreports, hoccupancy]
    exact h.published
  · rw [hstates, hoccupancy]
    exact h.state

/-- The state is published, though it has not changed. -/
theorem CloudSees.publish (h : CloudSees s) {rep : VisionReport}
    (hrep : rep.person = s.occupancy.occupied) :
    CloudSees { s with reports := rep :: s.reports } := by
  refine ⟨?_, ?_, h.state⟩
  · show (rep.person :: (s.reports.map VisionReport.person ++ [false])).destutter _ = _
    rw [destutter_cons_of_head h.published, hrep, if_neg (not_not.mpr rfl)]
    exact h.changes
  · exact congrArg some hrep

/-- A frame is classified, and the state stays. -/
theorem CloudSees.stays (h : CloudSees s) (hocc : s'.occupancy.occupied = s.occupancy.occupied)
    (hreports : s'.reports = s.reports) (hstates : s'.states = s'.occupancy.occupied :: s.states) :
    CloudSees s' := by
  refine ⟨?_, ?_, ?_⟩
  · rw [hreports, hstates, List.cons_append, destutter_cons_of_head h.state, hocc,
      if_neg (not_not.mpr rfl)]
    exact h.changes
  · rw [hreports, hocc]
    exact h.published
  · rw [hstates]
    rfl

/-- A frame changes the state, and the new one is published. -/
theorem CloudSees.flips (h : CloudSees s) (hocc : s'.occupancy.occupied ≠ s.occupancy.occupied)
    {rep : VisionReport} (hrep : rep.person = s'.occupancy.occupied)
    (hreports : s'.reports = rep :: s.reports)
    (hstates : s'.states = s'.occupancy.occupied :: s.states) : CloudSees s' := by
  refine ⟨?_, ?_, ?_⟩
  · rw [hreports, hstates, List.map_cons, List.cons_append, List.cons_append,
      destutter_cons_of_head h.published, destutter_cons_of_head h.state, hrep, if_pos hocc,
      if_pos hocc, h.changes]
  · rw [hreports, ← hrep]
    rfl
  · rw [hstates]
    rfl

/-- What a frame does, if there is one and it is classified. -/
structure FrameSeen (s : VisionLoop) (flipped : Bool) (s' : VisionLoop) : Prop where
  flip : flipped = (s'.occupancy.occupied != s.occupancy.occupied)
  states : s'.states = s'.occupancy.occupied :: s.states
  reports : s'.reports = s.reports

theorem VisionLoop.visionStep_frameSeen (s : VisionLoop) (r : VisionRound) :
    s.visionStep r = (false, s) ∨ FrameSeen s (s.visionStep r).1 (s.visionStep r).2 := by
  unfold VisionLoop.visionStep
  split
  · exact Or.inl rfl
  · split
    · exact Or.inl rfl
    · cases r.scores with
      | none => exact Or.inl rfl
      | some scores => exact Or.inr ⟨occupancyUpdate_fst _ _, rfl, rfl⟩

/-- A frame is classified, and the state is published. -/
theorem CloudSees.frameSeen (h : CloudSees s) {flipped : Bool} {s'' : VisionLoop}
    (hc : FrameSeen s flipped s'') {rep : VisionReport}
    (hreports : s'.reports = rep :: s''.reports) (hrep : rep.person = s''.occupancy.occupied)
    (hstates : s'.states = s''.states) (hoccupancy : s'.occupancy = s''.occupancy) :
    CloudSees s' := by
  refine CloudSees.congr (s := { s'' with reports := rep :: s''.reports }) ?_ hreports hstates
    hoccupancy
  -- either publishing repeats the last state, or both lists get the new one
  by_cases hocc : s''.occupancy.occupied = s.occupancy.occupied
  · exact (h.stays hocc hc.reports hc.states).publish hrep
  · exact h.flips hocc hrep (by rw [hc.reports]) hc.states

theorem CloudSees.round (h : CloudSees s) (hr : r.msgCreated = true) (v : VisionSession) :
    CloudSees (visionRound r v s) := by
  unfold visionRound publishVision
  dsimp only
  rw [hr, if_pos rfl]
  rcases s.visionStep_frameSeen r with hsame | hc
  · rw [hsame]
    split
    · have hrep (fps : Int32) : { s.report with fpsX10 := fps }.person = s.occupancy.occupied := rfl
      exact (h.publish (hrep _)).congr rfl rfl rfl
    · exact h.congr rfl rfl rfl
  · split
    · exact h.frameSeen hc rfl rfl rfl rfl
    · next hquiet =>
        -- a change would have been published
        have hflip : (s.visionStep r).1 = false := by
          by_contra hf
          exact hquiet (Or.inl (Bool.of_not_eq_false hf))
        have hocc := hc.flip
        rw [hflip] at hocc
        have hstay : (s.visionStep r).2.occupancy.occupied = s.occupancy.occupied := by
          simpa using hocc.symm
        exact (h.stays hstay hc.reports hc.states).congr rfl rfl rfl

theorem CloudSees.act (h : CloudSees s) {a : VisionAct}
    (ha : ∀ r, a = .round r → r.msgCreated = true) : CloudSees (visionAct a s) := by
  cases a with
  | connect ok now =>
      cases hsession : s.session with
      | some v => simpa only [visionAct, hsession] using h
      | none =>
          simp only [visionAct, hsession]
          split
          · exact h.congr rfl rfl rfl
          · exact h.congr rfl rfl rfl
  | round r =>
      cases hsession : s.session with
      | none => simpa only [visionAct, hsession] using h
      | some v =>
          simp only [visionAct, hsession]
          split
          · exact h.round (ha r rfl) v
          · exact h.congr rfl rfl rfl

end CloudSees

/-- A round at `now` with a frame of the given score. -/
def scoreRound (now : Int) (person : Int32) : VisionRound :=
  ⟨true, true, some (person, 100 - person, 90), 60, .auto, 10, true, now⟩

/-- Somebody comes, and the connection is lost. -/
def arrival : List VisionAct :=
  [.connect true 100, .round (scoreRound 250 20), .round (scoreRound 550 80),
    .round (scoreRound 850 80), .round { scoreRound 1100 80 with connected := false }]

/-- The time goes on, in steps of less than 24 days, and the interval is one that the command
accepts. -/
def VisionAct.OnTime : VisionAct → VisionLoop → Prop
  | .connect _ now, s => s.resumeAt ≤ now
  | .round r, s => s.resumeAt ≤ r.now ∧ r.now < s.resumeAt + 2 ^ 31 ∧
      1 ≤ r.publishIntervalSec.toInt ∧ r.publishIntervalSec.toInt ≤ 3600

instance VisionAct.OnTime.decidable : ∀ a s, Decidable (VisionAct.OnTime a s)
  | .connect _ now, s => inferInstanceAs (Decidable (s.resumeAt ≤ now))
  | .round r, s => inferInstanceAs (Decidable (s.resumeAt ≤ r.now ∧ r.now < s.resumeAt + 2 ^ 31 ∧
      1 ≤ r.publishIntervalSec.toInt ∧ r.publishIntervalSec.toInt ≤ 3600))

/-- The rounds since the last report are 200 ms apart, and there are not too many. -/
structure Spaced (v : VisionSession) (resumeAt : Int) : Prop where
  published : 0 < v.lastPub
  start : v.winStart = v.lastPub
  apart : v.winStart + 200 * (v.winFrames.toNat + 1) ≤ resumeAt
  recent : resumeAt ≤ v.winStart + 3601000

/-- From the second report of a connection on the rate is at most 5 frames a second. -/
structure FpsOk (s : VisionLoop) : Prop where
  positive : 0 < s.resumeAt
  fps : 2 ≤ s.sessionReports → 0 ≤ s.fpsX10.toInt ∧ s.fpsX10.toInt ≤ 50
  session : ∀ v, s.session = some v →
    (v.lastPub = 0 ∧ s.sessionReports = 0) ∨ Spaced v s.resumeAt

/-- The rate of rounds that are 200 ms apart. -/
theorem measuredFps_le {now winStart : Int} {winFrames : UInt32} (fpsX10 : Int32)
    (hapart : winStart + 200 * winFrames.toNat ≤ now) (hpos : winStart < now)
    (hlt : now < winStart + 2 ^ 32) (hfew : winFrames.toNat * 10000 < 2 ^ 32) :
    0 ≤ (measuredFps now winStart winFrames fpsX10).toInt ∧
      (measuredFps now winStart winFrames fpsX10).toInt ≤ 50 := by
  obtain ⟨d, hd⟩ : ∃ d : ℕ, now - winStart = d := ⟨(now - winStart).toNat, by omega⟩
  have hdiff : ((now - winStart) % 2 ^ 32).toNat = d := by omega
  have hvalue : (winFrames * 10000 / UInt32.ofNat d).toNat = winFrames.toNat * 10000 / d := by
    have hten : (10000 : UInt32).toNat = 10000 := rfl
    rw [UInt32.toNat_div, UInt32.toNat_mul, hten, Nat.mod_eq_of_lt hfew, UInt32.toNat_ofNat',
      Nat.mod_eq_of_lt (by omega)]
  have hle : winFrames.toNat * 10000 / d ≤ 50 := by
    apply Nat.div_le_of_le_mul
    omega
  rw [measuredFps, if_pos hpos, hdiff]
  have hsigned : (winFrames * 10000 / UInt32.ofNat d).toInt32.toInt
      = (winFrames.toNat * 10000 / d : ℕ) := by
    rw [← hvalue]
    apply BitVec.toInt_eq_toNat_of_lt
    rw [UInt32.toBitVec_toInt32, UInt32.toNat_toBitVec]
    omega
  omega

/-- What a frame leaves alone. -/
theorem VisionLoop.visionStep_frame (s : VisionLoop) (r : VisionRound) :
    (s.visionStep r).2.camOk = s.camOk ∧ (s.visionStep r).2.fpsX10 = s.fpsX10 ∧
      (s.visionStep r).2.sessionReports = s.sessionReports := by
  unfold VisionLoop.visionStep
  split
  · exact ⟨rfl, rfl, rfl⟩
  · split
    · exact ⟨rfl, rfl, rfl⟩
    · cases r.scores with
      | none => exact ⟨rfl, rfl, rfl⟩
      | some scores => exact ⟨rfl, rfl, rfl⟩

theorem pauseMs_range (camOk : Bool) : 200 ≤ pauseMs camOk ∧ pauseMs camOk ≤ 1000 := by
  cases camOk <;> decide

/-- A round counts itself at most. -/
theorem countFrame_le (camOk : Bool) (n : UInt32) :
    (if camOk then n + 1 else n).toNat ≤ n.toNat + 1 := by
  split
  · rw [UInt32.toNat_add]
    exact Nat.mod_le _ _
  · exact Nat.le_succ _

section FpsOk

variable {s : VisionLoop} {r : VisionRound} {v : VisionSession}

/-- The first moment of a report's interval. -/
theorem Spaced.reported {now : Int} (hnow : 0 < now) (camOk : Bool) :
    Spaced ⟨now, now, 0⟩ (now + pauseMs camOk) := by
  obtain ⟨hshort, hlong⟩ := pauseMs_range camOk
  exact ⟨hnow, rfl, show now + 200 * (0 + 1) ≤ _ by omega, show _ ≤ now + 3601000 by omega⟩

/-- A round without a report. -/
theorem Spaced.counted {resumeAt now : Int} (h : Spaced v resumeAt) (hnow : resumeAt ≤ now)
    (hrecent : now - v.lastPub < 3600 * 1000) {n : UInt32} (hn : n.toNat ≤ v.winFrames.toNat + 1)
    (camOk : Bool) : Spaced { v with winFrames := n } (now + pauseMs camOk) := by
  obtain ⟨hshort, hlong⟩ := pauseMs_range camOk
  have hapart := h.apart
  have hstart := h.start
  refine ⟨h.published, h.start, ?_, ?_⟩
  · show v.winStart + 200 * (n.toNat + 1) ≤ _
    omega
  · show _ ≤ v.winStart + 3601000
    omega

/-- The rate of a report that is not the first. -/
theorem Spaced.fps {resumeAt now : Int} (h : Spaced v resumeAt) (hnow : resumeAt ≤ now)
    (hsoon : now < resumeAt + 2 ^ 31) {n : UInt32} (hn : n.toNat ≤ v.winFrames.toNat + 1)
    (fpsX10 : Int32) :
    0 ≤ (measuredFps now v.winStart n fpsX10).toInt ∧
      (measuredFps now v.winStart n fpsX10).toInt ≤ 50 := by
  have hapart := h.apart
  have hrecent := h.recent
  exact measuredFps_le fpsX10 (by omega) (by omega) (by omega) (by omega)

/-- What a round does to the figures of a connection: it reports, or it does not. -/
theorem visionRound_figures (r : VisionRound) (v : VisionSession) (s : VisionLoop) :
    ∃ n : UInt32, n.toNat ≤ v.winFrames.toNat + 1 ∧
      (visionRound r v s).resumeAt = r.now + pauseMs s.camOk ∧
      (((visionRound r v s).session = some ⟨r.now, r.now, 0⟩ ∧
          (visionRound r v s).sessionReports = s.sessionReports + 1 ∧
          (visionRound r v s).fpsX10 = measuredFps r.now v.winStart n s.fpsX10) ∨
        (v.lastPub ≠ 0 ∧ r.now - v.lastPub < r.publishIntervalSec.toInt * 1000 ∧
          (visionRound r v s).session = some { v with winFrames := n } ∧
          (visionRound r v s).sessionReports = s.sessionReports ∧
          (visionRound r v s).fpsX10 = s.fpsX10)) := by
  obtain ⟨hcam, hfps, hcount⟩ := s.visionStep_frame r
  refine ⟨_, countFrame_le s.camOk v.winFrames, ?_⟩
  unfold visionRound publishVision
  dsimp only
  rw [hcam]
  split
  · split
    · exact ⟨by rw [← hcam], Or.inl ⟨rfl, congrArg (· + 1) hcount, by rw [← hfps]⟩⟩
    · exact ⟨by rw [← hcam], Or.inl ⟨rfl, congrArg (· + 1) hcount, by rw [← hfps]⟩⟩
  · next hquiet =>
      push Not at hquiet
      exact ⟨by rw [← hcam], Or.inr ⟨hquiet.2.1, hquiet.2.2, rfl, hcount, hfps⟩⟩

theorem FpsOk.round (h : FpsOk s) (hr : VisionAct.OnTime (.round r) s)
    (hv : s.session = some v) : FpsOk (visionRound r v s) := by
  obtain ⟨hnow, hsoon, -, hinterval⟩ := hr
  have hpos := h.positive
  obtain ⟨hshort, -⟩ := pauseMs_range s.camOk
  obtain ⟨n, hn, hresume, hreport | hquiet⟩ := visionRound_figures r v s
  · obtain ⟨hsession, hcount, hfps⟩ := hreport
    refine ⟨by omega, fun htwo => ?_, fun v' hv' => Or.inr ?_⟩
    · rw [hfps]
      rcases h.session v hv with ⟨-, hnone⟩ | hspaced
      · omega
      · exact hspaced.fps hnow hsoon hn s.fpsX10
    · rw [hsession] at hv'
      rw [← Option.some.inj hv', hresume]
      exact Spaced.reported (by omega) s.camOk
  · obtain ⟨hlast, hrecent, hsession, hcount, hfps⟩ := hquiet
    refine ⟨by omega, fun htwo => ?_, fun v' hv' => Or.inr ?_⟩
    · rw [hfps]
      exact h.fps (hcount ▸ htwo)
    · rw [hsession] at hv'
      rw [← Option.some.inj hv', hresume]
      rcases h.session v hv with ⟨hzero, -⟩ | hspaced
      · exact absurd hzero hlast
      · exact hspaced.counted hnow (by omega) hn s.camOk

theorem FpsOk.act (h : FpsOk s) {a : VisionAct} (ha : a.OnTime s) : FpsOk (visionAct a s) := by
  have hpos := h.positive
  cases a with
  | connect ok now =>
      have hnow : s.resumeAt ≤ now := ha
      cases hsession : s.session with
      | some v => simpa only [visionAct, hsession] using h
      | none =>
          simp only [visionAct, hsession]
          split
          · refine ⟨show 0 < now by omega, fun htwo => ?_, ?_⟩
            · exact absurd (show 2 ≤ 0 from htwo) (by omega)
            · rintro v ⟨⟩
              exact Or.inl ⟨rfl, rfl⟩
          · refine ⟨show 0 < now + 5000 by omega, h.fps, ?_⟩
            rintro v ⟨⟩
  | round r =>
      cases hsession : s.session with
      | none => simpa only [visionAct, hsession] using h
      | some v =>
          simp only [visionAct, hsession]
          split
          · exact h.round ha hsession
          · exact ⟨hpos, h.fps, by simp⟩

end FpsOk

/-- **The frame rate.** In every run, at every point after the second report of a connection, the
rate of the last report is at least 0 and at most 5 frames a second. -/
theorem fps_in_range {camOk : Bool} {lastInferMs : UInt32} {now : Int} {acts : List VisionAct}
    (hnow : 0 < now)
    (hacts : Along visionLoopStep VisionAct.OnTime acts (.start camOk lastInferMs now))
    (htwo : 2 ≤ (runState visionLoopStep acts (.start camOk lastInferMs now)).sessionReports) :
    0 ≤ (runState visionLoopStep acts (.start camOk lastInferMs now)).fpsX10.toInt ∧
      (runState visionLoopStep acts (.start camOk lastInferMs now)).fpsX10.toInt ≤ 50 := by
  have hstart : FpsOk (.start camOk lastInferMs now) := by
    refine ⟨hnow, fun h => absurd (show 2 ≤ 0 from h) (by omega), ?_⟩
    intro v hv
    cases hv
  exact (trace_inv_along (fun a s ha h => FpsOk.act h ha) hacts hstart).2.fps htwo

theorem fps_in_range_arrival :
    0 < (50 : Int) ∧ Along visionLoopStep VisionAct.OnTime arrival (.start true 0 50) ∧
      2 ≤ (runState visionLoopStep arrival (.start true 0 50)).sessionReports ∧
      0 ≤ (runState visionLoopStep arrival (.start true 0 50)).fpsX10.toInt ∧
      (runState visionLoopStep arrival (.start true 0 50)).fpsX10.toInt ≤ 50 := by
  have hacts : Along visionLoopStep VisionAct.OnTime arrival (.start true 0 50) := by decide
  have htwo : 2 ≤ (runState visionLoopStep arrival (.start true 0 50)).sessionReports := by decide
  exact ⟨by decide, hacts, htwo, fps_in_range (by decide) hacts htwo⟩

/-- The first report of a connection counts a frame and no pause: 6.6 frames a second. -/
theorem first_report_overstates :
    (runState visionLoopStep (arrival.take 2) (.start true 0 50)).fpsX10 = 66 := by decide

end IotcDemos.Vision
