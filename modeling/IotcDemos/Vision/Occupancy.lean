import IotcDemos.Lib.Hysteresis

set_option autoImplicit false

/-! # The occupancy state machine

`occupancy_update` takes the score of a frame, and reads a threshold and an LED mode that commands
may change between two frames. Its counters are `int`s. As long as they do not overflow it is the
switch of `Lib.Hysteresis` that enters after 2 frames and leaves after 5 (`after_on`).
-/

namespace IotcDemos.Vision

/-- `enum led_mode`. -/
inductive LedMode where
  | auto
  | on
  | off
  deriving DecidableEq

/-- The argument of a call, and the globals it reads. -/
structure Frame where
  personPct : Int32
  thresholdPct : Int32
  ledMode : LedMode

structure Occupancy where
  occupied : Bool
  consecAbove : Int32
  consecBelow : Int32
  ledState : Bool

def Occupancy.init : Occupancy := ⟨false, 0, 0, false⟩

def occEnterFrames : Int32 := 2
def occClearFrames : Int32 := 5

/-- The middle part of `occupancy_update`: the state, and whether it has flipped. -/
def occupancyFlip (occupied : Bool) (consecAbove consecBelow : Int32) : Bool × Bool :=
  if !occupied && consecAbove ≥ occEnterFrames then (true, true)
  else if occupied && consecBelow ≥ occClearFrames then (false, true)
  else (occupied, false)

/-- `occupancy_update`: it answers whether the state has flipped. -/
def occupancyUpdate (f : Frame) (s : Occupancy) : Bool × Occupancy :=
  let consecAbove := if f.personPct ≥ f.thresholdPct then s.consecAbove + 1 else 0
  let consecBelow := if f.personPct ≥ f.thresholdPct then 0 else s.consecBelow + 1
  let (occupied, flipped) := occupancyFlip s.occupied consecAbove consecBelow
  let ledState := if f.ledMode = .auto then occupied else s.ledState
  (flipped, ⟨occupied, consecAbove, consecBelow, ledState⟩)

/-- The state after the frames. -/
def after (frames : List Frame) : Occupancy := runState occupancyUpdate frames .init

/-- The frame is at or above its threshold. -/
def Frame.above (f : Frame) : Bool := f.personPct ≥ f.thresholdPct

/-- The frame `k` changes the state to `b`. -/
def ChangesTo (frames : List Frame) (b : Bool) (k : ℕ) : Prop :=
  k < frames.length ∧ (after (frames.take k)).occupied = !b ∧
    (after (frames.take (k + 1))).occupied = b

/-- What the frames say about the state after each of them, about the answers and about the
changes. -/
structure Hysteretic (frames : List Frame) : Prop where
  state : ∀ k, k ≤ frames.length → ((after (frames.take k)).occupied = true ↔
    SwitchedOn 2 5 ((frames.take k).map Frame.above))
  answer : ∀ k f, frames[k]? = some f → (occupancyUpdate f (after (frames.take k))).1 =
    ((after (frames.take (k + 1))).occupied != (after (frames.take k)).occupied)
  clears : ∀ m n, m < n → ChangesTo frames true m → ChangesTo frames false n → m + 5 ≤ n
  occupies : ∀ m n, m < n → ChangesTo frames false m → ChangesTo frames true n → m + 2 ≤ n

/-! ## The counters do not overflow -/

theorem toInt_succ {x : Int32} {n : ℕ} (h : x.toInt = n) (hn : n + 1 < 2 ^ 31) :
    (x + 1).toInt = (n + 1 : ℕ) := by
  rw [Int32.toInt_add, h, Int32.toInt_one]
  simp only [Int.bmod]
  omega

/-- The state is that of a switch that has seen `k` frames. -/
structure Refines (k : ℕ) (s : Occupancy) (t : Switch) : Prop where
  occupied : s.occupied = t.on
  above : s.consecAbove.toInt = t.above
  below : s.consecBelow.toInt = t.below
  aboveLe : t.above ≤ k
  belowLe : t.below ≤ k

/-- The flip is that of the switch with the same counts. -/
theorem occupancyFlip_eq (occupied : Bool) {a b : Int32} {m n : ℕ} (ha : a.toInt = m)
    (hb : b.toInt = n) : occupancyFlip occupied a b =
      (switchNext 2 5 occupied m n, switchNext 2 5 occupied m n != occupied) := by
  have henter : a ≥ occEnterFrames ↔ 2 ≤ m := by
    have htwo : occEnterFrames.toInt = 2 := rfl
    rw [ge_iff_le, Int32.le_iff_toInt_le, ha, htwo]
    omega
  have hclear : b ≥ occClearFrames ↔ 5 ≤ n := by
    have hfive : occClearFrames.toInt = 5 := rfl
    rw [ge_iff_le, Int32.le_iff_toInt_le, hb, hfive]
    omega
  simp only [occupancyFlip, switchNext, henter, hclear]
  cases occupied with
  | false => by_cases h : 2 ≤ m <;> simp [h]
  | true => by_cases h : 5 ≤ n <;> simp [h]

/-- A frame does to the state what its verdict does to the switch. -/
theorem occupancyUpdate_refines {f : Frame} {k : ℕ} {s : Occupancy} {t : Switch}
    (hk : k + 1 < 2 ^ 31) (h : Refines k s t) :
    (occupancyUpdate f s).1 = (switchStep 2 5 f.above t).1 ∧
      Refines (k + 1) (occupancyUpdate f s).2 (switchStep 2 5 f.above t).2 := by
  obtain ⟨hocc, habove, hbelow, haboveLe, hbelowLe⟩ := h
  have hzero : (0 : Int32).toInt = (0 : ℕ) := rfl
  by_cases hf : f.personPct ≥ f.thresholdPct
  · have hup := toInt_succ habove (by omega)
    have hflip := occupancyFlip_eq s.occupied hup hzero
    rw [hocc] at hflip
    simp only [occupancyUpdate, switchStep, Frame.above, hf, hocc, hflip, if_true, decide_true]
    exact ⟨trivial, rfl, hup, hzero, Nat.succ_le_succ haboveLe, Nat.zero_le _⟩
  · have hup := toInt_succ hbelow (by omega)
    have hflip := occupancyFlip_eq s.occupied hzero hup
    rw [hocc] at hflip
    simp only [occupancyUpdate, switchStep, Frame.above, hf, hocc, hflip, if_false, decide_false,
      Bool.false_eq_true]
    exact ⟨trivial, rfl, hzero, hup, Nat.zero_le _, Nat.succ_le_succ hbelowLe⟩

/-! ## Runs -/

/-- A run of the switch on the verdicts of the frames. -/
theorem switch_verdicts (frames : List Frame) (t : Switch) :
    runState (fun f => switchStep 2 5 (Frame.above f)) frames t =
      runState (switchStep 2 5) (frames.map Frame.above) t := by
  induction frames generalizing t with
  | nil => rfl
  | cons f frames ih => exact ih _

/-- After fewer than `2 ^ 31 - 1` frames the state is that of the switch. -/
theorem after_on {frames : List Frame} (h : frames.length < 2 ^ 31 - 1) :
    (after frames).occupied = (switchAfter 2 5 (frames.map Frame.above)).on := by
  have hinit : Refines 0 .init .init := ⟨rfl, rfl, rfl, Nat.le_refl _, Nat.le_refl _⟩
  have hbudget : 0 + (frames.map fun _ => 1).sum ≤ 2 ^ 31 - 2 := by
    simp only [List.map_const', List.sum_replicate, smul_eq_mul, mul_one]
    omega
  have hstep : ∀ f ∈ frames, ∀ k s t, k + 1 ≤ 2 ^ 31 - 2 → Refines k s t →
      (occupancyUpdate f s).1 = (switchStep 2 5 f.above t).1 ∧
        Refines (k + 1) (occupancyUpdate f s).2 (switchStep 2 5 f.above t).2 :=
    fun f _ k s t hk hst => occupancyUpdate_refines (by omega) hst
  have hrun := (run_refines_count hstep hbudget hinit).2
  have hoccupied := hrun.occupied
  rwa [switch_verdicts] at hoccupied

/-- The answer of a call says whether the state has flipped. -/
theorem occupancyUpdate_fst (f : Frame) (s : Occupancy) :
    (occupancyUpdate f s).1 = ((occupancyUpdate f s).2.occupied != s.occupied) := by
  have hflip : ∀ (occupied : Bool) (a b : Int32),
      (occupancyFlip occupied a b).2 = ((occupancyFlip occupied a b).1 != occupied) := by
    intro occupied a b
    unfold occupancyFlip
    cases occupied <;> split_ifs <;> simp_all
  exact hflip _ _ _

theorem after_snoc (frames : List Frame) (f : Frame) :
    after (frames ++ [f]) = (occupancyUpdate f (after frames)).2 := by
  rw [after, runState_append]
  rfl

/-- A change comes at the end of a run of verdicts. -/
theorem ChangesTo.endsRun {frames : List Frame} {b : Bool} {k : ℕ}
    (hlen : frames.length < 2 ^ 31 - 1) (h : ChangesTo frames b k) :
    EndsRun ((frames.map Frame.above).take (k + 1)) b (if b then 2 else 5) := by
  obtain ⟨hk, hbefore, hafter⟩ := h
  have htake : frames.take (k + 1) = frames.take k ++ [frames[k]] := by simp
  have hshort : ∀ j, (frames.take j).length < 2 ^ 31 - 1 := by
    intro j
    rw [List.length_take]
    omega
  rw [after_on (hshort _)] at hbefore hafter
  rw [← List.map_take]
  rw [htake, List.map_append] at hafter ⊢
  cases b with
  | true => exact endsRun_of_on (by decide) (by decide) hbefore hafter
  | false => exact endsRun_of_off (by decide) (by decide) hbefore hafter

/-- **Occupancy hysteresis.** For fewer than `2 ^ 31 - 1` frames, with any thresholds, the state
after each frame is occupied exactly when there was a last pair of frames in a row at or above their
thresholds and no five frames in a row below theirs lie behind it; a call answers `true` exactly
when the state has changed; and a change comes at least five frames after an opposite one, if it is
one to clear, and at least two if it is one to occupied. -/
theorem occupancy_hysteresis (frames : List Frame) (h : frames.length < 2 ^ 31 - 1) :
    Hysteretic frames := by
  constructor
  · intro k hk
    have hshort : (frames.take k).length < 2 ^ 31 - 1 := by
      rw [List.length_take]
      omega
    rw [after_on hshort]
    exact hysteresis_on_iff (by decide) (by decide) _
  · intro k f hf
    obtain ⟨hk, rfl⟩ := List.getElem?_eq_some_iff.mp hf
    have htake : frames.take (k + 1) = frames.take k ++ [frames[k]] := by simp
    rw [htake, after_snoc]
    exact occupancyUpdate_fst _ _
  · intro m n hmn hm hn
    have hapart := runs_apart (hm.endsRun h) (hn.endsRun h) (by decide) (by decide) (by decide)
      (Nat.succ_lt_succ hmn) (by rw [List.length_map]; exact hn.1)
    exact Nat.le_of_succ_le_succ (by simpa [Nat.add_right_comm] using hapart)
  · intro m n hmn hm hn
    have hapart := runs_apart (hm.endsRun h) (hn.endsRun h) (by decide) (by decide) (by decide)
      (Nat.succ_lt_succ hmn) (by rw [List.length_map]; exact hn.1)
    exact Nat.le_of_succ_le_succ (by simpa [Nat.add_right_comm] using hapart)

/-- Two frames at 80 % and one at 30 %, at the default threshold of 60 %. -/
def threeFrames : List Frame := [⟨80, 60, .auto⟩, ⟨80, 60, .auto⟩, ⟨30, 60, .auto⟩]

theorem occupancy_hysteresis_three : Hysteretic threeFrames ∧
    (after threeFrames).occupied = true :=
  ⟨occupancy_hysteresis threeFrames (by decide), by decide⟩

end IotcDemos.Vision
