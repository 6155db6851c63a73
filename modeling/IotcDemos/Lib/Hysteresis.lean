import IotcDemos.Lib.Run

set_option autoImplicit false

/-! # Hysteresis in consecutive samples

A switch that goes on after `enter` samples `true` in a row and off after `leave` samples `false` in
a row, with two counters. `hysteresis_on_iff` tells its state from the samples alone; a change comes
at the end of a run (`on_of_change`, `off_of_change`), so changes of opposite directions keep
apart.
-/

namespace IotcDemos

structure Switch where
  on : Bool
  above : ℕ
  below : ℕ

def Switch.init : Switch := ⟨false, 0, 0⟩

section Hysteresis

variable (enter leave : ℕ)

/-- What the counters make of the switch. -/
def switchNext (on : Bool) (above below : ℕ) : Bool :=
  if !on && enter ≤ above then true
  else if on && leave ≤ below then false
  else on

/-- One sample; the answer is whether the switch has changed. -/
def switchStep (b : Bool) (s : Switch) : Bool × Switch :=
  let above := if b then s.above + 1 else 0
  let below := if b then 0 else s.below + 1
  let on := switchNext enter leave s.on above below
  (on != s.on, ⟨on, above, below⟩)

def switchAfter (bs : List Bool) : Switch := runState (switchStep enter leave) bs .init

/-- The samples `i, …, i + n - 1` are all `b`. -/
def RunAt (bs : List Bool) (b : Bool) (i n : ℕ) : Prop := ∀ j, j < n → bs[i + j]? = some b

/-- There is a last run of `enter` samples `true`, and no run of `leave` samples `false` behind
it. -/
def SwitchedOn (bs : List Bool) : Prop :=
  ∃ i, RunAt bs true i enter ∧ (∀ i', i < i' → ¬ RunAt bs true i' enter) ∧
    ∀ k, i + enter ≤ k → ¬ RunAt bs false k leave

variable {enter leave} {bs : List Bool} {b c : Bool} {i k n : ℕ}

/-! ## Runs -/

theorem RunAt.le_length (h : RunAt bs b i n) (hn : 0 < n) : i + n ≤ bs.length := by
  have hlast := h (n - 1) (by omega)
  have hlt := (List.getElem?_eq_some_iff.mp hlast).1
  omega

/-- A run in more samples: it was there before, or it ends with the new one. -/
theorem runAt_snoc : RunAt (bs ++ [c]) b i (n + 1) ↔
    RunAt bs b i (n + 1) ∨ (i + n = bs.length ∧ c = b ∧ RunAt bs b i n) := by
  constructor
  · intro h
    have hle := RunAt.le_length h (Nat.succ_pos n)
    rw [List.length_append, List.length_singleton] at hle
    rcases Nat.lt_or_ge (i + n) bs.length with hlt | hge
    · refine Or.inl fun j hj => ?_
      have hj' := h j hj
      rwa [List.getElem?_append_left (by omega)] at hj'
    · have hend : i + n = bs.length := by omega
      refine Or.inr ⟨hend, ?_, fun j hj => ?_⟩
      · have hlast := h n (Nat.lt_succ_self n)
        rw [hend] at hlast
        simpa using hlast
      · have hj' := h j (Nat.lt_succ_of_lt hj)
        rwa [List.getElem?_append_left (by omega)] at hj'
  · rintro (h | ⟨hend, rfl, h⟩) j hj
    · have hlt := (List.getElem?_eq_some_iff.mp (h j hj)).1
      rw [List.getElem?_append_left hlt, h j hj]
    · rcases Nat.lt_succ_iff_lt_or_eq.mp hj with hlt | rfl
      · rw [List.getElem?_append_left (by omega), h j hlt]
      · rw [hend]
        simp

/-- Runs of different samples do not overlap. -/
theorem RunAt.disjoint {i' n' : ℕ} (h : RunAt bs b i n) (h' : RunAt bs c i' n') (hbc : b ≠ c)
    (hn : 0 < n) (hn' : 0 < n') : i + n ≤ i' ∨ i' + n' ≤ i := by
  by_contra hover
  push Not at hover
  have hsame : bs[max i i']? = some b ∧ bs[max i i']? = some c := by
    constructor
    · have hat := h (max i i' - i) (by omega)
      rwa [Nat.add_sub_cancel' (le_max_left i i')] at hat
    · have hat := h' (max i i' - i') (by omega)
      rwa [Nat.add_sub_cancel' (le_max_right i i')] at hat
  exact hbc (Option.some.inj (hsame.1.symm.trans hsame.2))

/-- The samples end with `n` samples `b`. -/
def EndsRun (bs : List Bool) (b : Bool) (n : ℕ) : Prop := ∃ i, i + n = bs.length ∧ RunAt bs b i n

theorem endsRun_snoc : EndsRun (bs ++ [c]) b (n + 1) ↔ c = b ∧ EndsRun bs b n := by
  constructor
  · rintro ⟨i, hi, hrun⟩
    rw [List.length_append, List.length_singleton] at hi
    rcases runAt_snoc.mp hrun with h | ⟨-, hcb, h⟩
    · have hle := h.le_length (Nat.succ_pos n)
      omega
    · exact ⟨hcb, i, by omega, h⟩
  · rintro ⟨hcb, i, hi, hrun⟩
    refine ⟨i, ?_, runAt_snoc.mpr (Or.inr ⟨hi, hcb, hrun⟩)⟩
    rw [List.length_append, List.length_singleton]
    omega

theorem endsRun_zero (bs : List Bool) (b : Bool) : EndsRun bs b 0 :=
  ⟨bs.length, rfl, fun j hj => absurd hj (Nat.not_lt_zero j)⟩

/-- Where the samples end with no run, a new sample brings no run. -/
theorem runAt_snoc_iff (hn : 0 < n) (hno : ¬ EndsRun (bs ++ [c]) b n) :
    RunAt (bs ++ [c]) b i n ↔ RunAt bs b i n := by
  obtain ⟨m, rfl⟩ := Nat.exists_eq_add_of_le' hn
  rw [runAt_snoc]
  constructor
  · rintro (h | ⟨hi, hcb, h⟩)
    · exact h
    · exact absurd (endsRun_snoc.mpr ⟨hcb, i, hi, h⟩) hno
  · exact Or.inl

/-- Of two runs of different samples the later one begins behind the end of the other. -/
theorem runs_apart {m n p q : ℕ} (h : EndsRun (bs.take m) b p) (h' : EndsRun (bs.take n) c q)
    (hbc : b ≠ c) (hp : 0 < p) (hq : 0 < q) (hmn : m < n) (hn : n ≤ bs.length) : m + q ≤ n := by
  have htake : ∀ {t : ℕ} {d : Bool} {k r : ℕ}, RunAt (bs.take t) d k r → RunAt bs d k r := by
    intro t d k r hrun j hj
    have hlt := (List.getElem?_eq_some_iff.mp (hrun j hj)).1
    rw [List.length_take] at hlt
    have hj' := hrun j hj
    rwa [List.getElem?_take_of_lt (by omega)] at hj'
  obtain ⟨i, hi, hrun⟩ := h
  obtain ⟨k, hk, hrun'⟩ := h'
  rw [List.length_take] at hi hk
  rcases (htake hrun).disjoint (htake hrun') hbc hp hq with hle | hle <;> omega

/-! ## The switch -/

theorem switchAfter_snoc (bs : List Bool) (b : Bool) : switchAfter enter leave (bs ++ [b]) =
    (switchStep enter leave b (switchAfter enter leave bs)).2 := by
  rw [switchAfter, runState_append]
  rfl

/-- The counters are the lengths of the runs that the samples end with. -/
theorem counters_spec (enter leave : ℕ) (bs : List Bool) :
    (∀ n, n ≤ (switchAfter enter leave bs).above ↔ EndsRun bs true n) ∧
      ∀ n, n ≤ (switchAfter enter leave bs).below ↔ EndsRun bs false n := by
  -- a counter that goes up with its sample and is cleared by the other one
  have hcount : ∀ (bs : List Bool) (b c : Bool) (count : ℕ),
      (∀ n, n ≤ count ↔ EndsRun bs b n) →
      ∀ n, n ≤ (if c = b then count + 1 else 0) ↔ EndsRun (bs ++ [c]) b n := by
    intro bs b c count h n
    cases n with
    | zero => exact ⟨fun _ => endsRun_zero _ _, fun _ => Nat.zero_le _⟩
    | succ n =>
        rw [endsRun_snoc]
        by_cases hcb : c = b
        · rw [if_pos hcb, Nat.succ_le_succ_iff, h n]
          simp [hcb]
        · rw [if_neg hcb]
          simp [hcb]
  induction bs using List.reverseRecOn with
  | nil =>
      have hnil : ∀ (b : Bool) (n : ℕ), n ≤ 0 ↔ EndsRun [] b n := by
        intro b n
        constructor
        · intro h
          obtain rfl := Nat.le_zero.mp h
          exact endsRun_zero [] b
        · rintro ⟨i, hi, -⟩
          rw [List.length_nil] at hi
          omega
      exact ⟨hnil true, hnil false⟩
  | append_singleton bs c ih =>
      have habove := hcount bs true c _ ih.1
      have hbelow := hcount bs false c _ ih.2
      rw [switchAfter_snoc]
      cases c
      · exact ⟨habove, hbelow⟩
      · exact ⟨habove, hbelow⟩

variable (henter : 0 < enter) (hleave : 0 < leave)
include henter hleave

/-- The samples do not end with both runs. -/
theorem EndsRun.not_both (h : EndsRun bs true enter) : ¬ EndsRun bs false leave := by
  rintro ⟨k, hk, hrun'⟩
  obtain ⟨i, hi, hrun⟩ := h
  rcases hrun.disjoint hrun' (by decide) henter hleave with hle | hle <;> omega

/-- What one sample does to the switch. -/
theorem on_snoc : (switchAfter enter leave (bs ++ [c])).on = true ↔
    EndsRun (bs ++ [c]) true enter ∨
      (switchAfter enter leave bs).on = true ∧ ¬ EndsRun (bs ++ [c]) false leave := by
  obtain ⟨habove, hbelow⟩ := counters_spec enter leave (bs ++ [c])
  have hboth := fun h : EndsRun (bs ++ [c]) true enter => h.not_both henter hleave
  rw [← habove enter, ← hbelow leave] at hboth ⊢
  have hon : (switchAfter enter leave (bs ++ [c])).on =
      switchNext enter leave (switchAfter enter leave bs).on
        (switchAfter enter leave (bs ++ [c])).above
        (switchAfter enter leave (bs ++ [c])).below := by
    rw [switchAfter_snoc]
    rfl
  rw [switchNext] at hon
  rw [hon]
  cases (switchAfter enter leave bs).on with
  | false => simp
  | true =>
      by_cases hb : leave ≤ (switchAfter enter leave (bs ++ [c])).below
      · have ha : ¬ enter ≤ (switchAfter enter leave (bs ++ [c])).above := fun ha => hboth ha hb
        simp [ha, hb]
      · simp [hb]

/-- The same for what the samples say. -/
theorem switchedOn_snoc : SwitchedOn enter leave (bs ++ [c]) ↔
    EndsRun (bs ++ [c]) true enter ∨
      SwitchedOn enter leave bs ∧ ¬ EndsRun (bs ++ [c]) false leave := by
  by_cases habove : EndsRun (bs ++ [c]) true enter
  · refine ⟨fun _ => Or.inl habove, fun _ => ?_⟩
    obtain ⟨i, hi, hrun⟩ := habove
    refine ⟨i, hrun, fun i' hi' h => ?_, fun k hk h => ?_⟩
    · have hle := h.le_length henter
      omega
    · have hle := h.le_length hleave
      omega
  · have hsame : ∀ i, RunAt (bs ++ [c]) true i enter ↔ RunAt bs true i enter :=
      fun i => runAt_snoc_iff henter habove
    by_cases hbelow : EndsRun (bs ++ [c]) false leave
    -- the new run of the other kind lies behind every run of the first kind
    · refine ⟨?_, fun h => absurd hbelow (h.resolve_left habove).2⟩
      rintro ⟨i, hrun, -, hno⟩
      obtain ⟨k, hk, hrun'⟩ := hbelow
      have hle := hrun.le_length henter
      rcases hrun.disjoint hrun' (by decide) henter hleave with h | h
      · exact absurd hrun' (hno k h)
      · omega
    · have hsame' : ∀ k, RunAt (bs ++ [c]) false k leave ↔ RunAt bs false k leave :=
        fun k => runAt_snoc_iff hleave hbelow
      simp only [SwitchedOn, hsame, hsame', habove, hbelow, false_or, not_false_eq_true, and_true]

/-- **The switch is on** exactly when there is a last run of `enter` samples `true`, and no run of
`leave` samples `false` behind it. -/
theorem hysteresis_on_iff (bs : List Bool) :
    (switchAfter enter leave bs).on = true ↔ SwitchedOn enter leave bs := by
  induction bs using List.reverseRecOn with
  | nil =>
      refine ⟨fun h => absurd h Bool.false_ne_true, ?_⟩
      rintro ⟨i, hrun, -⟩
      have hle := hrun.le_length henter
      rw [List.length_nil] at hle
      omega
  | append_singleton bs c ih =>
      rw [on_snoc henter hleave, switchedOn_snoc henter hleave, ih]

/-- A switch that goes on does so at the end of a run. -/
theorem endsRun_of_on (hoff : (switchAfter enter leave bs).on = false)
    (hon : (switchAfter enter leave (bs ++ [c])).on = true) : EndsRun (bs ++ [c]) true enter := by
  rcases (on_snoc henter hleave).mp hon with h | ⟨h, -⟩
  · exact h
  · rw [hoff] at h
    cases h

theorem endsRun_of_off (hon : (switchAfter enter leave bs).on = true)
    (hoff : (switchAfter enter leave (bs ++ [c])).on = false) :
    EndsRun (bs ++ [c]) false leave := by
  by_contra hno
  have hstill := (on_snoc (c := c) henter hleave).mpr (Or.inr ⟨hon, hno⟩)
  rw [hoff] at hstill
  cases hstill

end Hysteresis

end IotcDemos
