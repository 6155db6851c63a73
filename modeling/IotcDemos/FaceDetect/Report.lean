import IotcDemos.Lib.Run

set_option autoImplicit false

/-! # The reports of the face detection demo

`iotc_thread` takes results from a fifo and reports the count of faces, at most once a period. When
the last report was is a local variable of the connection. A step is a part of the thread up to the
next call that takes time; `ms` says how long that takes. The reports of a run are a period apart
exactly when no connection takes a result too early (`reports_rate_limited_iff`).
-/

namespace IotcDemos.FaceDetect

/-- The local variables of a connection. -/
structure Conn where
  lastReport : ℕ
  pendingFaces : ℤ
  havePending : Bool
  deriving DecidableEq

def Conn.start : Conn where
  lastReport := 0
  pendingFaces := 0
  havePending := false

/-- Where `iotc_thread` is. -/
inductive CloudPc where
  /-- Before `iotconnect_sdk_connect`. -/
  | connect
  /-- Before `iotconnect_sdk_is_connected`. -/
  | check (l : Conn)
  /-- Before `k_fifo_get`. -/
  | get (l : Conn)
  deriving DecidableEq

structure Cloud where
  /-- `k_uptime_get()`. -/
  uptime : ℕ
  pc : CloudPc
  /-- When `publish_faces` was called. No step depends on it. -/
  reports : List ℕ
  /-- The value that `last_report` had when the last connection that set it was lost. No step
  depends on it. -/
  prior : Option ℕ

def Cloud.start (uptime : ℕ) : Cloud where
  uptime := uptime
  pc := .connect
  reports := []
  prior := none

inductive CloudAct where
  | connect (ok : Bool) (ms : ℕ)
  | check (connected : Bool) (ms : ℕ)
  /-- `k_fifo_get` gives a count of faces, or times out. -/
  | get (res : Option ℤ) (ms : ℕ)

/-- `CONFIG_IOTC_MQTT_DEVICE_REPORT_SEC`. The product in `period_ms` is one of two `int`s. -/
structure ReportPeriod where
  sec : ℤ
  fits : -2 ^ 31 ≤ 1000 * sec ∧ 1000 * sec < 2 ^ 31

/-- `period_ms`. -/
def ReportPeriod.ms (p : ReportPeriod) : ℤ := 1000 * p.sec

/-- Keep the latest count. -/
def Conn.note (l : Conn) : Option ℤ → Conn
  | some faces => { l with pendingFaces := faces, havePending := true }
  | none => l

/-- What there is to report at `now`. -/
def Conn.due (periodMs now : ℤ) (l : Conn) : Option ℤ :=
  if l.havePending ∧ now - l.lastReport ≥ periodMs then some l.pendingFaces
  else if ¬ l.havePending ∧ now - l.lastReport ≥ 3 * periodMs then some 0
  else none

/-- The variables after a report. -/
def Conn.reported (now : ℕ) (l : Conn) : Conn where
  lastReport := now
  pendingFaces := if l.havePending then 0 else l.pendingFaces
  havePending := false

/-- What `last_report` is, or was in the last connection that has set it. -/
def Cloud.latest (s : Cloud) : CloudPc → Option ℕ
  | .connect => s.prior
  | .check l | .get l => if l.lastReport = 0 then s.prior else some l.lastReport

section Step

variable (period : ReportPeriod)

def connectAct (ok : Bool) (ms : ℕ) (s : Cloud) : Option ℤ × Cloud :=
  match s.pc with
  | .connect =>
      if ok then (none, { s with uptime := s.uptime + ms, pc := .check .start })
      else (none, { s with uptime := s.uptime + ms + 5000 })
  | _ => (none, s)

def checkAct (connected : Bool) (ms : ℕ) (s : Cloud) : Option ℤ × Cloud :=
  match s.pc with
  | .check l =>
      let s1 := { s with uptime := s.uptime + ms }
      if connected then (none, { s1 with pc := .get l })
      else (none, { s1 with pc := .connect, prior := s.latest s.pc })
  | _ => (none, s)

/-- `k_fifo_get` and what follows it. The answer is the count that is published. -/
def getAct (res : Option ℤ) (ms : ℕ) (s : Cloud) : Option ℤ × Cloud :=
  match s.pc with
  | .get l =>
      let l1 := l.note res
      let now := s.uptime + ms
      match l1.due period.ms now with
      | some faces =>
          (some faces, { s with
            uptime := now
            pc := .check (l1.reported now)
            reports := s.reports ++ [now] })
      | none => (none, { s with uptime := now, pc := .check l1 })
  | _ => (none, s)

def cloudStep : CloudAct → Cloud → Option ℤ × Cloud
  | .connect ok ms, s => connectAct ok ms s
  | .check connected ms, s => checkAct connected ms s
  | .get res ms, s => getAct period res ms s

/-! ## The rate -/

/-- Each report comes at least a period after the one before. -/
def RateLimited (s : Cloud) : Prop :=
  s.reports.IsChain fun (a b : ℕ) => (a : ℤ) + 1000 * period.sec ≤ b

/-- A round in which `last_report` is still 0, and which takes a result or ends at three periods or
later, ends a period after the last value that `last_report` had. -/
def Waits : CloudAct → Cloud → Prop
  | .get res ms, s =>
      match s.pc with
      | .get l =>
          l.lastReport = 0 → (res ≠ none ∨ 3 * period.ms ≤ (s.uptime + ms : ℕ)) →
            ∀ last ∈ s.prior, (last : ℤ) + period.ms ≤ (s.uptime + ms : ℕ)
      | _ => True
  | _, _ => True

end Step

/-- The variables of the connection, if there is one. -/
def CloudPc.conn? : CloudPc → Option Conn
  | connect => none
  | check l | get l => some l

/-- The last report is the latest value of `last_report`; only where the period is not positive, it
may be the 0 that this starts with. -/
structure Timed (period : ReportPeriod) (s : Cloud) : Prop where
  prior : ∀ last ∈ s.prior, 0 < last ∧ last ≤ s.uptime ∧ period.ms ≤ last
  conn : ∀ l ∈ s.pc.conn?, l.lastReport ≠ 0 →
    l.lastReport ≤ s.uptime ∧ period.ms ≤ l.lastReport
  last : s.reports.getLast? = s.latest s.pc ∨
    s.reports.getLast? = some 0 ∧ s.latest s.pc = none ∧ period.ms ≤ 0
  /-- A result that has been taken is reported at once, if a period has passed since the start. -/
  pending : ∀ l ∈ s.pc.conn?, l.lastReport = 0 → l.havePending = true → s.prior = none

section Rate

variable {period : ReportPeriod} {s : Cloud}

theorem timed_start (uptime : ℕ) : Timed period (Cloud.start uptime) :=
  ⟨nofun, nofun, Or.inl rfl, nofun⟩

@[simp] theorem Conn.note_lastReport (l : Conn) (res : Option ℤ) :
    (l.note res).lastReport = l.lastReport := by
  cases res <;> rfl

/-- A report is due a period after the last one at the earliest, where the period is positive. -/
theorem Conn.due_after {periodMs now : ℤ} {l : Conn} {faces : ℤ} (hpos : 0 ≤ periodMs)
    (h : l.due periodMs now = some faces) : l.lastReport + periodMs ≤ now := by
  unfold Conn.due at h
  split_ifs at h with hpending hheartbeat
  · omega
  · omega

/-- Time goes on, and there is neither a report nor a loss. -/
theorem Timed.goes_on (h : Timed period s) (ms : ℕ) {pc : CloudPc}
    (hconn : ∀ l ∈ pc.conn?, l.lastReport ≠ 0 → ∃ l' ∈ s.pc.conn?, l.lastReport = l'.lastReport)
    (hlatest : s.latest pc = s.latest s.pc)
    (hpending : ∀ l ∈ pc.conn?, l.lastReport = 0 → l.havePending = true → s.prior = none) :
    Timed period { s with uptime := s.uptime + ms, pc := pc } where
  prior last hlast := by
    obtain ⟨hpos, hpast, hperiod⟩ := h.prior last hlast
    exact ⟨hpos, hpast.trans (Nat.le_add_right _ _), hperiod⟩
  conn l hl hne := by
    obtain ⟨l', hl', heq⟩ := hconn l hl hne
    obtain ⟨hpast, hperiod⟩ := h.conn l' hl' (heq ▸ hne)
    rw [heq]
    exact ⟨hpast.trans (Nat.le_add_right _ _), hperiod⟩
  last := by
    show s.reports.getLast? = s.latest pc ∨ _ ∧ s.latest pc = none ∧ _
    rw [hlatest]
    exact h.last
  pending := hpending

theorem Timed.connectAct (h : Timed period s) (ok : Bool) (ms : ℕ) :
    Timed period (connectAct ok ms s).2 := by
  unfold FaceDetect.connectAct
  split
  · next hpc =>
      split_ifs
      · refine h.goes_on ms ?_ (by rw [hpc]; rfl) ?_
        · rintro l ⟨⟩ hne
          exact absurd rfl hne
        · rintro l ⟨⟩ - hpending
          cases hpending
      · rw [Nat.add_assoc]
        exact h.goes_on (ms + 5000) (fun l hl _ => ⟨l, hl, rfl⟩) rfl (by rw [hpc]; nofun)
  · exact h

theorem Timed.checkAct (h : Timed period s) (connected : Bool) (ms : ℕ) :
    Timed period (checkAct connected ms s).2 := by
  unfold FaceDetect.checkAct
  split
  · next l hpc =>
      have hl : l ∈ s.pc.conn? := by rw [hpc]; rfl
      dsimp only
      split_ifs
      · refine h.goes_on ms ?_ (by rw [hpc]; rfl) ?_
        · rintro l' ⟨⟩ -
          exact ⟨l, hl, rfl⟩
        · rintro l' ⟨⟩
          exact h.pending l hl
      · -- the connection is lost, and `last_report` with it
        refine ⟨fun last hlast => ?_, nofun, h.last, nofun⟩
        have hmem : last ∈ (if l.lastReport = 0 then s.prior else some l.lastReport) := by
          rw [hpc] at hlast
          exact hlast
        split at hmem
        · obtain ⟨hpos, hpast, hperiod⟩ := h.prior last hmem
          exact ⟨hpos, hpast.trans (Nat.le_add_right _ _), hperiod⟩
        · next hne =>
            obtain ⟨hpast, hperiod⟩ := h.conn l hl hne
            rw [← Option.mem_some_iff.mp hmem]
            exact ⟨Nat.pos_of_ne_zero hne, hpast.trans (Nat.le_add_right _ _), hperiod⟩
  · exact h

/-- If an earlier connection has made a report, a round before the first one of this connection
makes one, or it takes no result and ends before three periods. -/
theorem Timed.due_first (h : Timed period s) {l : Conn} (hpc : s.pc = .get l)
    (hzero : l.lastReport = 0) {last : ℕ} (hprior : last ∈ s.prior) (res : Option ℤ) (ms : ℕ) :
    (l.note res).due period.ms (s.uptime + ms : ℕ) = none ↔
      res = none ∧ (s.uptime + ms : ℕ) < 3 * period.ms := by
  have hnone : l.havePending = false := by
    by_contra hpending
    have hempty := h.pending l (by rw [hpc]; rfl) hzero (Bool.of_not_eq_false hpending)
    rw [hempty] at hprior
    cases hprior
  obtain ⟨-, hpast, hperiod⟩ := h.prior last hprior
  cases res with
  | none => simp [Conn.note, Conn.due, hnone, hzero]
  | some faces =>
      have hlate : ¬ (s.uptime + ms : ℕ) < period.ms := by omega
      simp only [Conn.note, Conn.due, hzero]
      simpa using hlate

theorem Timed.getAct (h : Timed period s) (res : Option ℤ) (ms : ℕ) :
    Timed period (getAct period res ms s).2 := by
  unfold FaceDetect.getAct
  split
  · next l hpc =>
      have hl : l ∈ s.pc.conn? := by rw [hpc]; rfl
      dsimp only
      split
      · next faces hdue =>
          -- a report
          have hafter : period.ms ≤ (s.uptime + ms : ℕ) := by
            by_cases hpos : 0 ≤ period.ms
            · have hlast := Conn.due_after hpos hdue
              omega
            · omega
          have hprior : ∀ last ∈ s.prior,
              0 < last ∧ last ≤ s.uptime + ms ∧ period.ms ≤ last := by
            intro last hlast
            obtain ⟨hpos, hpast, hperiod⟩ := h.prior last hlast
            exact ⟨hpos, hpast.trans (Nat.le_add_right _ _), hperiod⟩
          refine ⟨hprior, ?_, ?_, ?_⟩
          · rintro l' ⟨⟩ -
            exact ⟨Nat.le_refl _, hafter⟩
          · rw [List.getLast?_concat]
            by_cases hzero : s.uptime + ms = 0
            · right
              have hnone : s.prior = none := by
                rw [Option.eq_none_iff_forall_not_mem]
                intro last hlast
                obtain ⟨hpos, hpast, -⟩ := hprior last hlast
                omega
              refine ⟨congrArg some hzero, (if_pos hzero).trans hnone, ?_⟩
              rwa [hzero] at hafter
            · exact Or.inl (if_neg hzero).symm
          · rintro l' ⟨⟩ - hpending
            cases hpending
      · next hdue =>
          refine h.goes_on ms ?_ ?_ ?_
          · rintro l' ⟨⟩ -
            exact ⟨l, hl, l.note_lastReport res⟩
          · rw [hpc]
            simp [Cloud.latest]
          · rintro l' ⟨⟩ hzero hpending
            rw [l.note_lastReport res] at hzero
            rw [Option.eq_none_iff_forall_not_mem]
            intro last hlast
            obtain ⟨rfl, -⟩ := (h.due_first hpc hzero hlast res ms).mp hdue
            have hnone := h.pending l hl hzero hpending
            rw [hnone] at hlast
            cases hlast
  · exact h

theorem Timed.step (h : Timed period s) (a : CloudAct) : Timed period (cloudStep period a s).2 := by
  cases a with
  | connect ok ms => exact h.connectAct ok ms
  | check connected ms => exact h.checkAct connected ms
  | get res ms => exact h.getAct res ms

/-- A further report keeps the rate if it does not come too soon after the last one. -/
theorem rateLimited_snoc {now : ℕ} :
    ((s.reports ++ [now]).IsChain fun (a b : ℕ) => (a : ℤ) + 1000 * period.sec ≤ b) ↔
      RateLimited period s ∧ ∀ last ∈ s.reports.getLast?, (last : ℤ) + period.ms ≤ now := by
  rw [List.isChain_append]
  simp [RateLimited, ReportPeriod.ms]

/-- The last report is a period ago exactly when the round waits, if it makes a report. -/
theorem Timed.waits_iff (h : Timed period s) {l : Conn} (hpc : s.pc = .get l) {res : Option ℤ}
    {ms : ℕ} {faces : ℤ} (hdue : (l.note res).due period.ms (s.uptime + ms : ℕ) = some faces) :
    (∀ last ∈ s.reports.getLast?, (last : ℤ) + period.ms ≤ (s.uptime + ms : ℕ)) ↔
      Waits period (.get res ms) s := by
  have hlatest : s.latest s.pc = if l.lastReport = 0 then s.prior else some l.lastReport := by
    rw [hpc]
    rfl
  have hwaits : Waits period (.get res ms) s ↔ (l.lastReport = 0 →
      (res ≠ none ∨ 3 * period.ms ≤ (s.uptime + ms : ℕ)) →
        ∀ last ∈ s.prior, (last : ℤ) + period.ms ≤ (s.uptime + ms : ℕ)) := by
    rw [Waits, hpc]
  rw [hwaits]
  by_cases hzero : l.lastReport = 0
  · rw [if_pos hzero] at hlatest
    rcases h.last with hlast | ⟨hlast, hnone, hneg⟩
    · rw [hlast, hlatest]
      constructor
      · exact fun hall _ _ => hall
      · intro hall last hprior
        refine hall hzero ?_ last hprior
        -- otherwise there would be no report
        by_contra hearly
        push Not at hearly
        rw [(h.due_first hpc hzero hprior res ms).mpr hearly] at hdue
        cases hdue
    · rw [hlast]
      rw [hlatest] at hnone
      rw [hnone]
      refine iff_of_true ?_ fun _ _ => nofun
      rintro last ⟨⟩
      omega
  · rw [if_neg hzero] at hlatest
    refine iff_of_true ?_ fun h => absurd h hzero
    rcases h.last with hlast | ⟨-, hnone, -⟩
    · rw [hlast, hlatest]
      rintro last ⟨⟩
      obtain ⟨hpast, -⟩ := h.conn l (by rw [hpc]; rfl) hzero
      by_cases hpos : 0 ≤ period.ms
      · have hafter := Conn.due_after hpos hdue
        rwa [l.note_lastReport res] at hafter
      · omega
    · rw [hlatest] at hnone
      cases hnone

/-- A round that makes no report waits. -/
theorem Timed.waits_of_quiet (h : Timed period s) {l : Conn} (hpc : s.pc = .get l)
    {res : Option ℤ} {ms : ℕ} (hdue : (l.note res).due period.ms (s.uptime + ms : ℕ) = none) :
    Waits period (.get res ms) s := by
  rw [Waits, hpc]
  intro hzero hround last hprior
  obtain ⟨hres, hearly⟩ := (h.due_first hpc hzero hprior res ms).mp hdue
  rcases hround with hsome | hlate
  · exact absurd hres hsome
  · omega

theorem Timed.rate_getAct (h : Timed period s) (res : Option ℤ) (ms : ℕ) :
    RateLimited period (FaceDetect.getAct period res ms s).2 ↔
      RateLimited period s ∧ Waits period (.get res ms) s := by
  unfold FaceDetect.getAct
  split
  · next l hpc =>
      dsimp only
      split
      · next faces hdue =>
          exact rateLimited_snoc.trans (and_congr_right fun _ => h.waits_iff hpc hdue)
      · next hdue => exact (and_iff_left (h.waits_of_quiet hpc hdue)).symm
  · next hpc =>
      refine (and_iff_left ?_).symm
      dsimp only [Waits]
      split
      · next l hget => exact absurd hget (hpc l)
      · trivial

theorem connectAct_reports (ok : Bool) (ms : ℕ) : (connectAct ok ms s).2.reports = s.reports := by
  unfold connectAct
  split
  · split_ifs <;> rfl
  · rfl

theorem checkAct_reports (connected : Bool) (ms : ℕ) :
    (checkAct connected ms s).2.reports = s.reports := by
  unfold checkAct
  split
  · dsimp only
    split_ifs <;> rfl
  · rfl

theorem Timed.rate_step (h : Timed period s) (a : CloudAct) :
    RateLimited period (cloudStep period a s).2 ↔ RateLimited period s ∧ Waits period a s := by
  cases a with
  | connect ok ms =>
      rw [RateLimited, cloudStep, connectAct_reports]
      exact (and_iff_left trivial).symm
  | check connected ms =>
      rw [RateLimited, cloudStep, checkAct_reports]
      exact (and_iff_left trivial).symm
  | get res ms => exact h.rate_getAct res ms

end Rate

/-- **The reports of a run are rate-limited** exactly when, in every connection, the rounds before
the first report that take a result or end at three periods or later end a period after the last
value that `last_report` had in an earlier connection. -/
theorem reports_rate_limited_iff (period : ReportPeriod) (uptime : ℕ) (acts : List CloudAct) :
    RateLimited period (runState (cloudStep period) acts (.start uptime)) ↔
      Along (cloudStep period) (Waits period) acts (.start uptime) := by
  have hstart : RateLimited period (.start uptime) := List.IsChain.nil
  rw [run_iff_along (fun a s h => ⟨h.step a, h.rate_step a⟩) (timed_start uptime)]
  exact and_iff_right hstart

/-- The default of `Kconfig`. -/
def fiveSeconds : ReportPeriod := ⟨5, by decide⟩

/-- A report, a loss of the connection, and a report of what the fifo holds by then. -/
def dropRun : List CloudAct :=
  [.connect true 0, .check true 0, .get (some 1) 1000, .check false 0, .connect true 0,
    .check true 0, .get (some 1) 1000]

/-- Two reports are one second apart, where the period is five. -/
theorem reports_too_soon :
    (runState (cloudStep fiveSeconds) dropRun (.start 10000)).reports = [11000, 12000] ∧
      ¬ ∀ (period : ReportPeriod) (uptime : ℕ) (acts : List CloudAct),
        RateLimited period (runState (cloudStep period) acts (.start uptime)) := by
  have hreports : (runState (cloudStep fiveSeconds) dropRun (.start 10000)).reports
      = [11000, 12000] := by
    decide +kernel
  refine ⟨hreports, fun hrate => ?_⟩
  have hbound := hrate fiveSeconds 10000 dropRun
  unfold RateLimited at hbound
  rw [hreports] at hbound
  simp [fiveSeconds] at hbound

end IotcDemos.FaceDetect
