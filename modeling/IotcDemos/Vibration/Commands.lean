import IotcDemos.Lib.CNumber
import IotcDemos.Lib.Run

set_option autoImplicit false

/-! # The vibration demo: commands and the fault threshold

`on_command` looks for words anywhere in a command, and for the first number in it. `classify` makes
a state and a score of a vibration level. Floating point numbers are taken as exact rationals.
-/

namespace IotcDemos.Vibration

/-- `enum vib_state`. -/
inductive VibState where
  | idle
  | balanced
  | unbalanced
  | both
  deriving DecidableEq

/-- What the commands set. -/
structure Settings where
  demoState : VibState
  publishIntervalSec : ℤ
  threshFault : ℚ
  deriving DecidableEq

def Settings.start : Settings where
  demoState := .idle
  publishIntervalSec := 2
  threshFault := 35 / 100

/-! ## Commands -/

/-- The round of the loop of `ci_contains` at `h`. -/
def ciStarts : (needle h : Bytes) → Bool
  | [], _ => true
  | _ :: _, [] => false
  | n :: needle, c :: h => tolower c == tolower n && ciStarts needle h

/-- `ci_contains`. -/
def ciContains : (haystack needle : Bytes) → Bool
  | [], needle => needle.isEmpty
  | c :: haystack, needle => ciStarts needle (c :: haystack) || ciContains haystack needle

/-- What the acknowledgement says. A failed command goes with the text "unknown command". -/
inductive Reply where
  | success
  | unknownCommand
  /-- The board reboots after the acknowledgement. -/
  | reboot
  deriving DecidableEq

/-- `on_command`; the command may be missing. -/
def onCommand (cmd : Option Bytes) (s : Settings) : Reply × Settings :=
  match cmd with
  | none => (.unknownCommand, s)
  | some cmd =>
      -- the first word that occurs anywhere decides
      if ciContains cmd (ascii "fault") then (.success, { s with demoState := .unbalanced })
      else if ciContains cmd (ascii "healthy") then (.success, { s with demoState := .balanced })
      else if ciContains cmd (ascii "both") then (.success, { s with demoState := .both })
      else if ciContains cmd (ascii "stop") || ciContains cmd (ascii "idle") ||
          ciContains cmd (ascii "off") then (.success, { s with demoState := .idle })
      else if ciContains cmd (ascii "threshold") then
        let v := atof (strpbrk cmd (ascii "0123456789"))
        if v > 0 ∧ v < 2 then (.success, { s with threshFault := v })
        else (.unknownCommand, s)
      else if ciContains cmd (ascii "interval") then
        let v := atoi (strpbrk cmd (ascii "0123456789"))
        if v ≥ 1 ∧ v ≤ 3600 then (.success, { s with publishIntervalSec := v })
        else (.unknownCommand, s)
      else if ciContains cmd (ascii "reboot") then (.reboot, s)
      else (.unknownCommand, s)

/-- A command, with the boot that follows a reboot. -/
def commandStep (cmd : Option Bytes) (s : Settings) : Reply × Settings :=
  match onCommand cmd s with
  | (.reboot, _) => (.reboot, .start)
  | (reply, s') => (reply, s')

/-- The ranges that the commands check. -/
structure SettingsOk (s : Settings) : Prop where
  interval : 1 ≤ s.publishIntervalSec ∧ s.publishIntervalSec ≤ 3600
  threshold : 0 < s.threshFault ∧ s.threshFault < 2

theorem settingsOk_start : SettingsOk .start where
  interval := by decide
  threshold := by
    unfold Settings.start
    norm_num

/-- No command leaves the ranges. -/
theorem SettingsOk.onCommand {s : Settings} (h : SettingsOk s) (cmd : Option Bytes) :
    SettingsOk (onCommand cmd s).2 := by
  unfold Vibration.onCommand
  cases cmd with
  | none => exact h
  | some cmd =>
      dsimp only
      split_ifs with _ _ _ _ _ hv _ hv
      · exact ⟨h.interval, h.threshold⟩
      · exact ⟨h.interval, h.threshold⟩
      · exact ⟨h.interval, h.threshold⟩
      · exact ⟨h.interval, h.threshold⟩
      · exact ⟨h.interval, hv⟩
      · exact h
      · exact ⟨hv, h.threshold⟩
      · exact h
      · exact h
      · exact h

theorem SettingsOk.commandStep {s : Settings} (h : SettingsOk s) (cmd : Option Bytes) :
    SettingsOk (commandStep cmd s).2 := by
  have hnext := h.onCommand cmd
  unfold Vibration.commandStep
  split
  · exact settingsOk_start
  · next hcmd =>
      rw [hcmd] at hnext
      exact hnext

/-- The settings after the commands. -/
def afterCommands (cmds : List (Option Bytes)) : Settings := runState commandStep cmds .start

theorem settingsOk_run (cmds : List (Option Bytes)) : SettingsOk (afterCommands cmds) :=
  run_inv (fun cmd _ _ h => h.commandStep cmd) settingsOk_start

/-! ## The score -/

/-- The values of `vib.state`. -/
inductive Health where
  | healthy
  | warning
  | fault
  deriving DecidableEq

/-- `thresh_warn`, which no command changes. -/
def threshWarn : ℚ := 12 / 100

/-- What `classify` subtracts from a level. -/
def noiseFloor : ℚ := 3 / 100

/-- `classify`: the state and the score. Where the divisor is 0, the quotient here is 0; that of the
code is an infinity, or no number. -/
def classify (threshFault overall : ℚ) : Health × ℚ :=
  let s := (overall - noiseFloor) / (threshFault - noiseFloor)
  let score := if s < 0 then 0 else if s > 1 then 1 else s
  (if overall ≥ threshFault then .fault else if overall ≥ threshWarn then .warning else .healthy,
    score)

/-- The score agrees with the state. -/
structure ScoreAgrees (threshFault : ℚ) : Prop where
  divisor : threshFault - noiseFloor ≠ 0
  range : ∀ overall, 0 ≤ overall →
    0 ≤ (classify threshFault overall).2 ∧ (classify threshFault overall).2 ≤ 1
  mono : ∀ low high, 0 ≤ low → low ≤ high →
    (classify threshFault low).2 ≤ (classify threshFault high).2
  fault : ∀ overall, 0 ≤ overall → (classify threshFault overall).1 = .fault →
    (classify threshFault overall).2 = 1

/-- The score is clamped. -/
theorem classify_score (threshFault overall : ℚ) : (classify threshFault overall).2 =
    max 0 (min 1 ((overall - noiseFloor) / (threshFault - noiseFloor))) := by
  unfold classify
  dsimp only
  generalize (overall - noiseFloor) / (threshFault - noiseFloor) = s
  split_ifs with hneg hone
  · rw [min_eq_right (by linarith), max_eq_left hneg.le]
  · rw [min_eq_left hone.le, max_eq_right zero_le_one]
  · rw [min_eq_right (not_lt.mp hone), max_eq_right (not_lt.mp hneg)]

theorem classify_fault_iff (threshFault overall : ℚ) :
    (classify threshFault overall).1 = .fault ↔ threshFault ≤ overall := by
  unfold classify
  dsimp only
  split_ifs with hfault hwarn
  · simpa using hfault
  · simpa using hfault
  · simpa using hfault

/-- Above the noise floor, the score grows with the level and reaches 1 at the threshold. -/
theorem scoreAgrees_of_lt {threshFault : ℚ} (h : noiseFloor < threshFault) :
    ScoreAgrees threshFault := by
  have hpos : 0 < threshFault - noiseFloor := sub_pos.mpr h
  refine ⟨hpos.ne', ?_, ?_, ?_⟩
  · intro overall _
    rw [classify_score]
    exact ⟨le_max_left _ _, max_le zero_le_one (min_le_left _ _)⟩
  · intro low high _ hle
    rw [classify_score, classify_score]
    have hdiv : (low - noiseFloor) / (threshFault - noiseFloor) ≤
        (high - noiseFloor) / (threshFault - noiseFloor) := by
      gcongr
    exact max_le_max_left 0 (min_le_min_left 1 hdiv)
  · intro overall _ hfault
    rw [classify_fault_iff] at hfault
    -- at the threshold the quotient has reached 1
    have hone : 1 ≤ (overall - noiseFloor) / (threshFault - noiseFloor) := by
      rw [one_le_div hpos]
      linarith
    rw [classify_score, min_eq_left hone, max_eq_right zero_le_one]

/-- Below the noise floor, a level of `1` is a fault with a score of 0. -/
theorem classify_below {threshFault : ℚ} (h : threshFault < noiseFloor) :
    (classify threshFault 1).1 = .fault ∧ (classify threshFault 1).2 = 0 := by
  have hfloor : noiseFloor < 1 := by
    unfold noiseFloor
    norm_num
  have hneg : (1 - noiseFloor) / (threshFault - noiseFloor) ≤ 0 :=
    div_nonpos_of_nonneg_of_nonpos (by linarith) (by linarith)
  constructor
  · rw [classify_fault_iff]
    linarith
  · rw [classify_score]
    exact max_eq_left ((min_le_right _ _).trans hneg)

theorem lt_of_scoreAgrees {threshFault : ℚ} (h : ScoreAgrees threshFault) :
    noiseFloor < threshFault := by
  rcases lt_trichotomy threshFault noiseFloor with hlt | heq | hgt
  · -- a fault would have the score 0
    obtain ⟨hfault, hscore⟩ := classify_below hlt
    have hone := h.fault 1 zero_le_one hfault
    rw [hscore] at hone
    exact absurd hone zero_ne_one
  · exact absurd (sub_eq_zero.mpr heq) h.divisor
  · exact hgt

/-- **The score and the threshold.** Whatever the commands were, the score agrees with the state
exactly when the fault threshold is above the noise floor of 0.03. -/
theorem score_agrees_iff (cmds : List (Option Bytes)) :
    ScoreAgrees (afterCommands cmds).threshFault ↔
      3 / 100 < (afterCommands cmds).threshFault :=
  ⟨lt_of_scoreAgrees, scoreAgrees_of_lt⟩

/-- The command `set-threshold 0.03` is accepted, and then the score is divided by zero; with
`set-threshold 0.02` a fault has the score 0. -/
theorem score_disagrees :
    (onCommand (some (ascii "set-threshold 0.03")) .start).1 = .success ∧
      ¬ ScoreAgrees (afterCommands [some (ascii "set-threshold 0.03")]).threshFault ∧
      (onCommand (some (ascii "set-threshold 0.02")) .start).1 = .success ∧
      ¬ ScoreAgrees (afterCommands [some (ascii "set-threshold 0.02")]).threshFault := by
  have hfloor : (afterCommands [some (ascii "set-threshold 0.03")]).threshFault = noiseFloor := by
    decide +kernel
  have hbelow : (afterCommands [some (ascii "set-threshold 0.02")]).threshFault < noiseFloor := by
    decide +kernel
  refine ⟨by decide +kernel, fun h => ?_, by decide +kernel, fun h => ?_⟩
  · exact h.divisor (sub_eq_zero.mpr hfloor)
  · exact absurd (lt_of_scoreAgrees h) (not_lt.mpr hbelow.le)

end IotcDemos.Vibration
