import IotcDemos.Vibration.Commands

set_option autoImplicit false

/-! # The motors of the vibration demo

In connect mode `main` samples the sensor for a second, publishes, sleeps and starts again. The pin
of the unbalanced motor is pulsed by `motors_apply`, which only runs while samples are taken.
Commands come in at any time. A step is a part of the loop up to the next thing that takes time;
`ms` says how long that takes. The samples themselves are left out.

`VibHistory` keeps of the past what the properties speak of. No step depends on it.
-/

namespace IotcDemos.Vibration

/-- Where `main` is. -/
inductive LoopPc where
  /-- Before `iotconnect_sdk_connect`. -/
  | connect
  /-- Before `iotconnect_sdk_is_connected`. -/
  | check
  /-- In `vib_window`, with its local variables. -/
  | window (st : VibState) (t0 : ℕ)
  /-- In the rest of `publish_vib`. -/
  | publish
  | sleep
  deriving DecidableEq

structure VibHistory where
  /-- When `motors_apply` was last called. -/
  appliedAt : ℕ
  /-- Since when the pin of the unbalanced motor is high, if it is. -/
  highSince : Option ℕ

structure Vib where
  settings : Settings
  /-- `k_uptime_get()`. -/
  uptime : ℕ
  loop : LoopPc
  bal : Bool
  unb : Bool
  hist : VibHistory

/-- `hw_init` has made both pins inactive. -/
def Vib.start (uptime : ℕ) : Vib where
  settings := .start
  uptime := uptime
  loop := .connect
  bal := false
  unb := false
  hist := ⟨uptime, none⟩

/-- `unb_active`. -/
def VibState.unbActive (st : VibState) : Bool := st == .unbalanced || st == .both

/-- `motors_apply`: the levels of the two pins. -/
def motorsApply (st : VibState) (phaseMs : ℕ) : Bool × Bool :=
  (st == .balanced || st == .both, st.unbActive && phaseMs % 200 < 60)

inductive VibAct where
  /-- `on_command`, on another thread. -/
  | command (cmd : Option Bytes)
  | connect (ok : Bool) (ms : ℕ)
  | check (connected : Bool) (ms : ℕ)
  /-- The head of the loop in `vib_window`, with the round that takes `ms`. -/
  | sample (ms : ℕ)
  | publish (ms : ℕ)
  /-- `k_sleep` may take `ms` longer. -/
  | sleep (ms : ℕ)

def commandAct (cmd : Option Bytes) (s : Vib) : Option Reply × Vib :=
  match onCommand cmd s.settings with
  | (.reboot, _) => (some .reboot, .start 0)
  | (reply, settings) => (some reply, { s with settings := settings })

/-- `iotconnect_sdk_connect`. -/
def connectAct (ok : Bool) (ms : ℕ) (s : Vib) : Option Reply × Vib :=
  match s.loop with
  | .connect =>
      if ok then (none, { s with uptime := s.uptime + ms, loop := .check })
      -- the next attempt is 5 s later
      else (none, { s with uptime := s.uptime + ms + 5000 })
  | _ => (none, s)

/-- `iotconnect_sdk_is_connected`, with the start of `vib_window` or the disconnect. -/
def checkAct (connected : Bool) (ms : ℕ) (s : Vib) : Option Reply × Vib :=
  match s.loop with
  | .check =>
      let s1 := { s with uptime := s.uptime + ms }
      if connected then (none, { s1 with loop := .window s1.settings.demoState s1.uptime })
      else (none, { s1 with loop := .connect })
  | _ => (none, s)

/-- A round of the loop in `vib_window`, or its end. -/
def sampleAct (ms : ℕ) (s : Vib) : Option Reply × Vib :=
  match s.loop with
  | .window st t0 =>
      if s.uptime - t0 < 1000 then
        let (bal, unb) := motorsApply st s.uptime
        (none, { s with
          bal := bal
          unb := unb
          uptime := s.uptime + ms
          hist := ⟨s.uptime, if unb then some (s.hist.highSince.getD s.uptime) else none⟩ })
      -- the pin stays as the last round has set it
      else (none, { s with loop := .publish })
  | _ => (none, s)

def publishAct (ms : ℕ) (s : Vib) : Option Reply × Vib :=
  match s.loop with
  | .publish => (none, { s with uptime := s.uptime + ms, loop := .sleep })
  | _ => (none, s)

def sleepAct (ms : ℕ) (s : Vib) : Option Reply × Vib :=
  match s.loop with
  | .sleep =>
      let slept := (1000 * s.settings.publishIntervalSec).toNat + ms
      (none, { s with uptime := s.uptime + slept, loop := .check })
  | _ => (none, s)

def vibStep : VibAct → Vib → Option Reply × Vib
  | .command cmd, s => commandAct cmd s
  | .connect ok ms, s => connectAct ok ms s
  | .check connected ms, s => checkAct connected ms s
  | .sample ms, s => sampleAct ms s
  | .publish ms, s => publishAct ms s
  | .sleep ms, s => sleepAct ms s

/-! ## The pulses -/

/-- A round of the loop takes at least 10 ms, and at most `longest`. -/
def VibAct.Paced (longest : ℕ) : VibAct → Prop
  | sample ms => 10 ≤ ms ∧ ms ≤ longest
  | _ => True

instance VibAct.Paced.decidable (longest : ℕ) : ∀ a, Decidable (VibAct.Paced longest a)
  | sample ms => inferInstanceAs (Decidable (10 ≤ ms ∧ ms ≤ longest))
  | command _ | connect _ _ | check _ _ | publish _ | sleep _ => inferInstanceAs (Decidable True)

/-- The pin of the unbalanced motor has not been high for longer than 60 ms and a round. -/
def NeverHeld (longest : ℕ) (s : Vib) : Prop :=
  ∀ t, s.hist.highSince = some t → s.uptime ≤ t + 60 + longest

/-- A window ends whose last round was in the first 60 ms of a period, with the unbalanced motor
on. -/
def endsInPulse : VibAct → Vib → Bool
  | .sample _, s =>
      match s.loop with
      | .window st t0 =>
          1000 ≤ s.uptime - t0 && st.unbActive && s.hist.appliedAt % 200 < 60
      | _ => false
  | _, _ => false

/-- The last round of the window was at most `longest` ago, in the first 60 ms of a period, and the
pin is high since a round of the same period. -/
structure InPulse (longest : ℕ) (s : Vib) (st : VibState) : Prop where
  active : st.unbActive = true
  phase : s.hist.appliedAt % 200 < 60
  applied : s.hist.appliedAt ≤ s.uptime
  round : s.uptime ≤ s.hist.appliedAt + longest
  period : ∀ t, s.hist.highSince = some t →
    t ≤ s.hist.appliedAt ∧ t / 200 = s.hist.appliedAt / 200

/-- The pin is high in a window only. -/
structure Pulsed (longest : ℕ) (s : Vib) : Prop where
  since : s.hist.highSince.isSome = s.unb
  high : s.unb = true → ∃ st t0, s.loop = .window st t0 ∧ InPulse longest s st

theorem pulsed_start (longest uptime : ℕ) : Pulsed longest (Vib.start uptime) := ⟨rfl, nofun⟩

section Pulsed

variable {longest : ℕ} {s s' : Vib}

/-- Within a pulse fewer than 60 ms pass up to the last round. -/
theorem Pulsed.neverHeld (h : Pulsed longest s) : NeverHeld longest s := by
  intro t ht
  have hhigh : s.unb = true := by rw [← h.since, ht]; rfl
  obtain ⟨st, t0, -, hpulse⟩ := h.high hhigh
  have hphase := hpulse.phase
  have hperiod := hpulse.period t ht
  -- both rounds lie in the first 60 ms of one period
  have hpulsed : s.hist.appliedAt ≤ t + 60 := by omega
  calc s.uptime ≤ s.hist.appliedAt + longest := hpulse.round
    _ ≤ t + 60 + longest := Nat.add_le_add_right hpulsed longest

theorem Pulsed.low (h : Pulsed longest s) (hloop : ∀ st t0, s.loop ≠ .window st t0) :
    s.unb = false := by
  by_contra hhigh
  obtain ⟨st, t0, hwindow, -⟩ := h.high (Bool.of_not_eq_false hhigh)
  exact hloop st t0 hwindow

/-- Where the pin is low, everything but the pin may change. -/
theorem Pulsed.stays_low (h : Pulsed longest s) (hlow : s.unb = false) (hunb : s'.unb = s.unb)
    (hhist : s'.hist = s.hist) : Pulsed longest s' := by
  refine ⟨by rw [hunb, hhist]; exact h.since, fun hhigh => ?_⟩
  rw [hunb, hlow] at hhigh
  exact absurd hhigh Bool.false_ne_true

theorem Pulsed.commandAct (h : Pulsed longest s) (cmd : Option Bytes) :
    Pulsed longest (commandAct cmd s).2 := by
  unfold Vibration.commandAct
  split
  · exact pulsed_start longest 0
  · refine ⟨h.since, fun hhigh => ?_⟩
    obtain ⟨st, t0, hloop, hactive, hphase, happlied, hround, hperiod⟩ := h.high hhigh
    exact ⟨st, t0, hloop, hactive, hphase, happlied, hround, hperiod⟩

theorem Pulsed.connectAct (h : Pulsed longest s) (ok : Bool) (ms : ℕ) :
    Pulsed longest (connectAct ok ms s).2 := by
  unfold Vibration.connectAct
  split
  · next hpc =>
      have hlow := h.low (by simp [hpc])
      split_ifs
      · exact h.stays_low hlow rfl rfl
      · exact h.stays_low hlow rfl rfl
  · exact h

theorem Pulsed.checkAct (h : Pulsed longest s) (connected : Bool) (ms : ℕ) :
    Pulsed longest (checkAct connected ms s).2 := by
  unfold Vibration.checkAct
  split
  · next hpc =>
      have hlow := h.low (by simp [hpc])
      dsimp only
      split_ifs
      · exact h.stays_low hlow rfl rfl
      · exact h.stays_low hlow rfl rfl
  · exact h

theorem Pulsed.publishAct (h : Pulsed longest s) (ms : ℕ) :
    Pulsed longest (publishAct ms s).2 := by
  unfold Vibration.publishAct
  split
  · next hpc => exact h.stays_low (h.low (by simp [hpc])) rfl rfl
  · exact h

theorem Pulsed.sleepAct (h : Pulsed longest s) (ms : ℕ) : Pulsed longest (sleepAct ms s).2 := by
  unfold Vibration.sleepAct
  split
  · next hpc => exact h.stays_low (h.low (by simp [hpc])) rfl rfl
  · exact h

/-- A round sets the pin anew, and goes on with a pulse in the same period. -/
theorem Pulsed.round (h : Pulsed longest s) (hlongest : longest ≤ 20) {st : VibState} {t0 ms : ℕ}
    (hpc : s.loop = .window st t0) (hms : ms ≤ longest) {bal : Bool} :
    let unb := (motorsApply st s.uptime).2
    Pulsed longest { s with
      bal := bal
      unb := unb
      uptime := s.uptime + ms
      hist := ⟨s.uptime, if unb then some (s.hist.highSince.getD s.uptime) else none⟩ } := by
  intro unb
  have hlevel : unb = (st.unbActive && decide (s.uptime % 200 < 60)) := rfl
  refine ⟨by cases unb <;> rfl, fun hhigh => ?_⟩
  rw [hlevel, Bool.and_eq_true, decide_eq_true_eq] at hhigh
  refine ⟨st, t0, hpc, hhigh.1, hhigh.2, Nat.le_add_right _ _, Nat.add_le_add_left hms _, ?_⟩
  intro t ht
  have hset : unb = true := by simp [hlevel, hhigh]
  simp only [hset, if_true, Option.some.injEq] at ht
  show t ≤ s.uptime ∧ t / 200 = s.uptime / 200
  cases hsince : s.hist.highSince with
  | none =>
      rw [hsince, Option.getD_none] at ht
      rw [← ht]
      exact ⟨Nat.le_refl _, rfl⟩
  | some since =>
      -- the round before was at most 20 ms ago, in the same pulse
      obtain ⟨st', t0', hpc', hpulse⟩ := h.high (by rw [← h.since, hsince]; rfl)
      have hbefore := hpulse.period since hsince
      have hphase := hpulse.phase
      have hround := hpulse.round
      have happlied := hpulse.applied
      rw [hsince, Option.getD_some] at ht
      omega

/-- A round, or the end of a window that does not end in a pulse. -/
theorem Pulsed.sampleAct (h : Pulsed longest s) (hlongest : longest ≤ 20) {ms : ℕ}
    (hms : ms ≤ longest) (hends : endsInPulse (.sample ms) s = false) :
    Pulsed longest (sampleAct ms s).2 := by
  unfold Vibration.sampleAct
  split
  · next st t0 hpc =>
      split_ifs with hlast
      · exact h.round hlongest hpc hms
      · refine h.stays_low ?_ rfl rfl
        -- a window that ends with a high pin ends in a pulse
        by_contra hhigh
        obtain ⟨st', t0', hpc', hpulse⟩ := h.high (Bool.of_not_eq_false hhigh)
        obtain ⟨rfl, rfl⟩ := LoopPc.window.inj (hpc.symm.trans hpc')
        have hover : 1000 ≤ s.uptime - t0 := Nat.le_of_not_lt hlast
        simp [endsInPulse, hpc, hover, hpulse.active, hpulse.phase] at hends
  · exact h

theorem pulsed_step (hlongest : longest ≤ 20) (a : VibAct) (hpaced : a.Paced longest)
    (hends : endsInPulse a s = false) (h : Pulsed longest s) : Pulsed longest (vibStep a s).2 := by
  cases a with
  | command cmd => exact h.commandAct cmd
  | connect ok ms => exact h.connectAct ok ms
  | check connected ms => exact h.checkAct connected ms
  | sample ms => exact h.sampleAct hlongest hpaced.2 hends
  | publish ms => exact h.publishAct ms
  | sleep ms => exact h.sleepAct ms

end Pulsed

/-- **The unbalanced motor is never held on**, in a run in which every window that drives it ends
with its last round outside the first 60 ms of a period. -/
theorem unbalanced_never_held (longest : ℕ) (hlongest : longest ≤ 20) (uptime : ℕ)
    (acts : List VibAct) (hpaced : ∀ a ∈ acts, a.Paced longest)
    (hends : Along vibStep (fun a s => endsInPulse a s = false) acts (Vib.start uptime)) :
    NeverHeld longest (runState vibStep acts (Vib.start uptime)) := by
  have hstep : ∀ a s, a ∈ acts ∧ endsInPulse a s = false → Pulsed longest s →
      Pulsed longest (vibStep a s).2 :=
    fun a s ha h => pulsed_step hlongest a (hpaced a ha.1) ha.2 h
  exact (trace_inv_along hstep hends.mem (pulsed_start longest uptime)).2.neverHeld

/-- A window of 100 rounds, with what comes before it and after it. -/
def faultRun : List VibAct :=
  [.command (some (ascii "inject-fault")), .connect true 0, .check true 0] ++
    List.replicate 100 (.sample 10) ++ [.sample 10, .publish 0, .sleep 0]

theorem unbalanced_never_held_late :
    (∀ a ∈ faultRun, a.Paced 10) ∧
      Along vibStep (fun a s => endsInPulse a s = false) faultRun (Vib.start 100) ∧
      NeverHeld 10 (runState vibStep faultRun (Vib.start 100)) := by
  have hpaced : ∀ a ∈ faultRun, a.Paced 10 := by decide +kernel
  have hends : Along vibStep (fun a s => endsInPulse a s = false) faultRun (Vib.start 100) := by
    decide +kernel
  exact ⟨hpaced, hends, unbalanced_never_held 10 (by decide) 100 faultRun hpaced hends⟩

/-- Where the window starts 50 ms after the boot, its last round is at 1040 ms, and the pin stays
high for the two seconds up to the next window. -/
theorem unbalanced_held :
    ¬ ∀ (longest uptime : ℕ) (acts : List VibAct), longest ≤ 20 →
      (∀ a ∈ acts, a.Paced longest) →
      NeverHeld longest (runState vibStep acts (Vib.start uptime)) := by
  intro hheld
  have hsince : (runState vibStep faultRun (Vib.start 50)).hist.highSince = some 1000 := by
    decide +kernel
  have hnow : (runState vibStep faultRun (Vib.start 50)).uptime = 3050 := by decide +kernel
  have hbound := hheld 10 50 faultRun (by decide) (by decide +kernel) 1000 hsince
  rw [hnow] at hbound
  omega

end IotcDemos.Vibration
