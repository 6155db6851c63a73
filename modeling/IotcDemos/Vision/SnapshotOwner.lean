import IotcDemos.Vision.Snapshot

set_option autoImplicit false

/-! # The snapshot buffers have one owner

The right to the buffers goes round: the loop takes it when it finds `snap_want` set and `snap_busy`
clear, puts it into the semaphore, and the worker has it from there until it clears `snap_busy`.
`Owned` says that the right is in one place at most, and that `snap_busy` is set while it is not
free and not with the loop. All else follows from it.
-/

namespace IotcDemos.Vision

variable {κ ι : Type}

namespace LoopPc

/-- The loop has found `want_snap` and has not given the semaphore yet. -/
def holds : LoopPc ι → Bool
  | idle => false
  | readBusy => false
  | capture wantSnap => wantSnap
  | infer v => v.wantSnap
  | _ => true

/-- `snap_busy` is set, and the semaphore not given yet. -/
def giving : LoopPc ι → Bool
  | give _ => true
  | _ => false

/-- `snap_want` is cleared, and the semaphore not given yet. -/
def handing : LoopPc ι → Bool
  | setBusy _ => true
  | give _ => true
  | _ => false

/-- The loop has found `snap_want` set, and has not cleared it yet. -/
def asked : LoopPc ι → Bool
  | readBusy => true
  | pc => pc.holds && !pc.handing

/-- The loop writes one of the buffers. -/
def writes : LoopPc ι → Bool
  | capture wantSnap => wantSnap
  | writeW _ => true
  | writeH _ => true
  | classify _ => true
  | _ => false

/-- How many of the four buffers this `vision_step` has written. -/
def written : LoopPc ι → ℕ
  | infer v => if v.wantSnap then 1 else 0
  | writeW _ => 1
  | writeH _ => 2
  | classify _ => 3
  | clearWant _ => 4
  | setBusy _ => 4
  | give _ => 4
  | _ => 0

end LoopPc

/-- The right to the buffers is in one place at most. -/
structure Owned (s : Snap κ ι) : Prop where
  go_le : s.snapGo ≤ 1
  busy : s.snapBusy = true ↔ s.snapGo ≠ 0 ∨ s.worker ≠ .take ∨ s.loop.giving = true
  loopAlone : s.loop.holds = true → s.snapGo = 0 ∧ s.worker = .take
  workerAlone : s.worker ≠ .take → s.snapGo = 0

/-- The buffers come from one `vision_step`. -/
structure SameStep (t : History ι) : Prop where
  w : t.wBy = t.frameBy
  h : t.hBy = t.frameBy
  cf : t.cfBy = t.frameBy

/-- The buffers that were written in this `vision_step`, and those that were handed over. -/
structure Written (s : Snap κ ι) : Prop where
  frame : 1 ≤ s.loop.written → s.hist.frameBy = s.hist.steps
  w : 2 ≤ s.loop.written → s.hist.wBy = s.hist.steps
  h : 3 ≤ s.loop.written → s.hist.hBy = s.hist.steps
  cf : 4 ≤ s.loop.written → s.hist.cfBy = s.hist.steps
  handed : s.snapGo ≠ 0 ∨ s.worker ≠ .take → SameStep s.hist

/-- Every activation, begun or to come, has a request of its own. -/
structure Counted (s : Snap κ ι) : Prop where
  asked : s.loop.asked = true → s.snapWant = true
  count : s.hist.activations + s.snapGo + s.loop.handing.toNat + s.snapWant.toNat ≤
    s.hist.calls.length

structure HandedOver (s : Snap κ ι) : Prop where
  owned : Owned s
  written : Written s
  counted : Counted s

/-- After the boot, with any camera and model. -/
def Snap.start (camOk : Bool) (m : ModelState) : Snap κ ι where
  camOk := camOk
  snapWant := false
  snapBusy := false
  snapGo := 0
  gray96 := []
  snapFrame := fun _ => 0
  snapW := 0
  snapH := 0
  snapCf := ⟨false, 0, [], 0⟩
  pngBuf := fun _ => 0
  occupancy := .init
  model := m
  request := fun _ => .idle
  loop := .idle
  worker := .take
  hist := ⟨0, 0, 0, 0, 0, 0, none, none, 0, [], []⟩

theorem handedOver_start (camOk : Bool) (m : ModelState) :
    HandedOver (Snap.start camOk m : Snap κ ι) where
  owned := ⟨Nat.zero_le _, by simp [Snap.start, LoopPc.giving], fun _ => ⟨rfl, rfl⟩, fun _ => rfl⟩
  written := ⟨nofun, nofun, nofun, nofun, fun _ => ⟨rfl, rfl, rfl⟩⟩
  counted := ⟨nofun, Nat.le_refl _⟩

/-- What is done at `pc'` is no more than at `pc`. -/
structure LoopPc.Within (pc pc' : LoopPc ι) : Prop where
  holds : pc'.holds = true → pc.holds = true
  giving : pc'.giving = pc.giving
  handing : pc'.handing = pc.handing
  asked : pc'.asked = true → pc.asked = true
  written : pc'.written ≤ pc.written

theorem LoopPc.Within.refl (pc : LoopPc ι) : pc.Within pc := ⟨id, rfl, rfl, id, Nat.le_refl _⟩

/-- No buffer is marked. -/
structure History.SameMarks (t t' : History ι) : Prop where
  steps : t'.steps = t.steps
  frameBy : t'.frameBy = t.frameBy
  wBy : t'.wBy = t.wBy
  hBy : t'.hBy = t.hBy
  cfBy : t'.cfBy = t.cfBy

theorem History.SameMarks.refl (t : History ι) : t.SameMarks t := ⟨rfl, rfl, rfl, rfl, rfl⟩

section Keep

variable {s s' : Snap κ ι}

/-- A step that changes neither `snap_busy` nor the semaphore leaves the right where it is, or the
loop gives it up. -/
theorem Owned.keep (h : Owned s) (hbusy : s'.snapBusy = s.snapBusy) (hgo : s'.snapGo = s.snapGo)
    (hworker : s'.worker = .take ↔ s.worker = .take)
    (hholds : s'.loop.holds = true → s.loop.holds = true)
    (hgiving : s'.loop.giving = s.loop.giving) : Owned s' where
  go_le := hgo ▸ h.go_le
  busy := by rw [hbusy, hgo, hgiving, Ne, Ne, hworker]; exact h.busy
  loopAlone hloop := by rw [hgo, hworker]; exact h.loopAlone (hholds hloop)
  workerAlone hne := by rw [hgo]; exact h.workerAlone fun htake => hne (hworker.mpr htake)

/-- Where `snap_busy` is clear, the right is free for the loop. -/
theorem Owned.free (h : Owned s) (hbusy : s.snapBusy = false) :
    s.snapGo = 0 ∧ s.worker = .take := by
  have hnone : ¬ (s.snapGo ≠ 0 ∨ s.worker ≠ .take ∨ s.loop.giving = true) := by
    rw [← h.busy, hbusy]
    decide
  push Not at hnone
  exact ⟨hnone.1, hnone.2.1⟩

/-- While the loop holds the right, nothing is handed over. -/
theorem Owned.not_handed (h : Owned s) (hholds : s.loop.holds = true) :
    ¬ (s.snapGo ≠ 0 ∨ s.worker ≠ .take) := by
  obtain ⟨hgo, hworker⟩ := h.loopAlone hholds
  simp [hgo, hworker]

theorem SameStep.congr {t t' : History ι} (h : SameStep t) (hmarks : t.SameMarks t') :
    SameStep t' where
  w := by rw [hmarks.wBy, hmarks.frameBy, h.w]
  h := by rw [hmarks.hBy, hmarks.frameBy, h.h]
  cf := by rw [hmarks.cfBy, hmarks.frameBy, h.cf]

theorem Written.keep (h : Written s) (hmarks : s.hist.SameMarks s'.hist)
    (hwritten : s'.loop.written ≤ s.loop.written) (hgo : s'.snapGo = s.snapGo)
    (hworker : s'.worker = .take ↔ s.worker = .take) : Written s' where
  frame hle := by rw [hmarks.frameBy, hmarks.steps]; exact h.frame (hle.trans hwritten)
  w hle := by rw [hmarks.wBy, hmarks.steps]; exact h.w (hle.trans hwritten)
  h hle := by rw [hmarks.hBy, hmarks.steps]; exact h.h (hle.trans hwritten)
  cf hle := by rw [hmarks.cfBy, hmarks.steps]; exact h.cf (hle.trans hwritten)
  handed hpending := by
    rw [hgo, Ne, Ne, hworker] at hpending
    exact (h.handed hpending).congr hmarks

theorem Counted.keep (h : Counted s) (hwant : s'.snapWant = s.snapWant)
    (hgo : s'.snapGo = s.snapGo) (hasked : s'.loop.asked = true → s.loop.asked = true)
    (hhanding : s'.loop.handing = s.loop.handing)
    (hactivations : s'.hist.activations = s.hist.activations)
    (hcalls : s'.hist.calls = s.hist.calls) : Counted s' where
  asked hloop := by rw [hwant]; exact h.asked (hasked hloop)
  count := by rw [hwant, hgo, hhanding, hactivations, hcalls]; exact h.count

/-- A step that touches neither the flags nor the semaphore nor a buffer. -/
theorem HandedOver.keep (h : HandedOver s) (hwant : s'.snapWant = s.snapWant)
    (hbusy : s'.snapBusy = s.snapBusy) (hgo : s'.snapGo = s.snapGo)
    (hworker : s'.worker = .take ↔ s.worker = .take) (hloop : s.loop.Within s'.loop)
    (hmarks : s.hist.SameMarks s'.hist) (hactivations : s'.hist.activations = s.hist.activations)
    (hcalls : s'.hist.calls = s.hist.calls) : HandedOver s' where
  owned := h.owned.keep hbusy hgo hworker hloop.holds hloop.giving
  written := h.written.keep hmarks hloop.written hgo hworker
  counted := h.counted.keep hwant hgo hloop.asked hloop.handing hactivations hcalls

/-- The same, when the loop stays where it is. -/
theorem HandedOver.aside (h : HandedOver s) (hwant : s'.snapWant = s.snapWant)
    (hbusy : s'.snapBusy = s.snapBusy) (hgo : s'.snapGo = s.snapGo)
    (hworker : s'.worker = .take ↔ s.worker = .take) (hloop : s'.loop = s.loop)
    (hhist : s'.hist = s.hist) : HandedOver s' :=
  h.keep hwant hbusy hgo hworker (hloop ▸ .refl _) (hhist ▸ .refl _) (by rw [hhist]) (by rw [hhist])

end Keep

section Step

variable {s : Snap κ ι}

/-! ### The requests -/

theorem HandedOver.cameraStep (h : HandedOver s) (ok : Bool) : HandedOver (cameraStep ok s).2 := by
  rcases cameraStep_cases ok s with hstep | hstep
  · rw [hstep]
    exact h
  · rw [hstep]
    exact h.aside rfl rfl rfl Iff.rfl rfl rfl

theorem HandedOver.callStep [DecidableEq κ] (h : HandedOver s) (c : κ) (fu : Bool) :
    HandedOver (callStep c fu s).2 := by
  rcases callStep_cases c fu s with hstep | hstep
  · rw [hstep]
    exact h
  · rw [hstep]
    exact h.aside rfl rfl rfl Iff.rfl rfl rfl

theorem HandedOver.requestStep [DecidableEq κ] (h : HandedOver s) (c : κ) :
    HandedOver (requestStep c s).2 := by
  rcases requestStep_cases c s with ⟨pc, -, -, hstep⟩ | ⟨b, -, hstep⟩
  · rw [hstep]
    exact h.aside rfl rfl rfl Iff.rfl rfl rfl
  · rw [hstep]
    -- one more request pays for `snap_want`, which may have been set before
    have hcount := h.counted.count
    refine ⟨h.owned.keep rfl rfl Iff.rfl id rfl, ?_, fun _ => rfl, ?_⟩
    · exact h.written.keep ⟨rfl, rfl, rfl, rfl, rfl⟩ (Nat.le_refl _) rfl Iff.rfl
    · simp only [Snap.at, Bool.toNat_true, List.length_append, List.length_singleton]
      omega

/-! ### The loop -/

/-- A `vision_step` begins. -/
theorem HandedOver.begin (h : HandedOver s) (hpc : s.loop = .idle) (pc : LoopPc ι)
    (hholds : pc.holds = false) (hgiving : pc.giving = false) (hhanding : pc.handing = false)
    (hasked : pc.asked = true → s.snapWant = true) (hwritten : pc.written = 0) :
    HandedOver { s with
      loop := pc
      hist := { s.hist with steps := s.hist.steps + 1 } } := by
  have hcount := h.counted.count
  rw [hpc] at hcount
  refine ⟨h.owned.keep rfl rfl Iff.rfl ?_ ?_, ?_, hasked, ?_⟩
  · simp [hholds]
  · rw [hpc]
    exact hgiving
  · refine ⟨?_, ?_, ?_, ?_, fun hp => ?_⟩
    · simp [hwritten]
    · simp [hwritten]
    · simp [hwritten]
    · simp [hwritten]
    · obtain ⟨hw, hh, hcf⟩ := h.written.handed hp
      exact ⟨hw, hh, hcf⟩
  · show _ + pc.handing.toNat + _ ≤ _
    rw [hhanding]
    exact hcount

theorem HandedOver.visionStep (h : HandedOver s) : HandedOver (visionStep s).2 := by
  rcases visionStep_cases s with hstep | ⟨hpc, pc, hnext, hstep⟩
  · rw [hstep]
    exact h
  · rw [hstep]
    rcases hnext with rfl | rfl | ⟨rfl, hwant⟩
    · exact h.begin hpc .idle rfl rfl rfl nofun rfl
    · exact h.begin hpc (.capture false) rfl rfl rfl nofun rfl
    · exact h.begin hpc .readBusy rfl rfl rfl (fun _ => hwant) rfl

theorem HandedOver.noFrameStep (h : HandedOver s) : HandedOver (noFrameStep s).2 := by
  rcases noFrameStep_cases s with hstep | ⟨⟨wantSnap, hpc⟩, hstep⟩
  · rw [hstep]
    exact h
  · rw [hstep]
    refine h.keep rfl rfl rfl Iff.rfl ?_ ⟨rfl, rfl, rfl, rfl, rfl⟩ rfl rfl
    rw [hpc]
    exact ⟨nofun, rfl, rfl, nofun, Nat.le_refl _⟩

/-- The right to the buffers, while the loop goes on with it. -/
theorem Owned.hold (h : Owned s) (hholds : s.loop.holds = true) {s' : Snap κ ι}
    (hbusy : s'.snapBusy = s.snapBusy) (hgo : s'.snapGo = s.snapGo) (hworker : s'.worker = s.worker)
    (hgiving : s'.loop.giving = s.loop.giving) : Owned s' :=
  h.keep hbusy hgo (by rw [hworker]) (fun _ => hholds) hgiving

/-- `snap_frame` is written. -/
theorem HandedOver.frameStep {p : Platform ι} (h : HandedOver s) (f : ι) :
    HandedOver (frameStep p f s).2 := by
  rcases frameStep_cases p f s with hstep | ⟨hpc, hstep⟩ | ⟨hpc, hstep⟩
  · rw [hstep]
    exact h
  · rw [hstep]
    refine h.keep rfl rfl rfl Iff.rfl ?_ ⟨rfl, rfl, rfl, rfl, rfl⟩ rfl rfl
    rw [hpc]
    exact ⟨id, rfl, rfl, id, Nat.le_refl _⟩
  · rw [hstep]
    have hholds : s.loop.holds = true := by rw [hpc]; rfl
    have hnone := h.owned.not_handed hholds
    have hcount := h.counted.count
    rw [hpc] at hcount
    refine ⟨h.owned.hold hholds rfl rfl rfl (by rw [hpc]; rfl), ?_,
      fun _ => h.counted.asked (by rw [hpc]; rfl), hcount⟩
    exact ⟨fun _ => rfl, fun (hle : 2 ≤ 1) => by omega, fun (hle : 3 ≤ 1) => by omega,
      fun (hle : 4 ≤ 1) => by omega, fun hp => absurd hp hnone⟩

/-- After the inference the loop goes on with a frame that was wanted, or returns. -/
theorem LoopPc.Within.next (v v' : StepVars ι) : (LoopPc.infer v).Within (v.next v') := by
  unfold StepVars.next
  split
  · next hwrite =>
      have hwant : v.wantSnap = true := Bool.and_elim_left hwrite
      refine ⟨fun _ => hwant, rfl, rfl, fun _ => ?_, ?_⟩
      · simp [LoopPc.asked, LoopPc.holds, LoopPc.handing, hwant]
      · simp [LoopPc.written, hwant]
  · exact ⟨nofun, rfl, rfl, nofun, Nat.zero_le _⟩

theorem HandedOver.inferStep {p : Platform ι} (h : HandedOver s) (ok : Bool) (thresholdPct : Int32)
    (ledMode : LedMode) : HandedOver (inferStep p ok thresholdPct ledMode s).2 := by
  rcases inferStep_cases p ok thresholdPct ledMode s with
    hstep | ⟨v, hpc, ⟨-, hstep⟩ | ⟨scores, occupancy, flipped, -, hstep⟩⟩
  · rw [hstep]
    exact h
  · rw [hstep]
    exact h.keep rfl rfl rfl Iff.rfl (hpc ▸ .next _ _) ⟨rfl, rfl, rfl, rfl, rfl⟩ rfl rfl
  · rw [hstep]
    exact h.keep rfl rfl rfl Iff.rfl (hpc ▸ .next _ _) ⟨rfl, rfl, rfl, rfl, rfl⟩ rfl rfl

/-- Where the loop finds `snap_busy` clear, it takes the right. -/
theorem HandedOver.claim (h : HandedOver s) (hpc : s.loop = .readBusy) (wantSnap : Bool)
    (hfree : wantSnap = true → s.snapBusy = false) :
    HandedOver { s with loop := .capture wantSnap } := by
  cases wantSnap with
  | false =>
      refine h.keep rfl rfl rfl Iff.rfl ?_ ⟨rfl, rfl, rfl, rfl, rfl⟩ rfl rfl
      rw [hpc]
      exact ⟨nofun, rfl, rfl, nofun, Nat.le_refl _⟩
  | true =>
      obtain ⟨hgo, hworker⟩ := h.owned.free (hfree rfl)
      have hcount := h.counted.count
      rw [hpc] at hcount
      refine ⟨⟨h.owned.go_le, ?_, fun _ => ⟨hgo, hworker⟩, fun _ => hgo⟩, ?_,
        fun _ => h.counted.asked (by rw [hpc]; rfl), hcount⟩
      · simp [hfree, hgo, hworker, LoopPc.giving]
      · exact ⟨nofun, nofun, nofun, nofun, h.written.handed⟩

/-- The other steps of the loop, up to the clearing of `snap_want`, in the order of the source. -/
theorem HandedOver.loopStep (h : HandedOver s) : HandedOver (loopStep s).2 := by
  have hself := h
  obtain ⟨howned, ⟨hframe, hw, hh, hcf, hhanded⟩, hasked, hcount⟩ := h
  unfold Vision.loopStep
  cases hpc : s.loop with
  | idle => exact hself
  | capture wantSnap => exact hself
  | infer v => exact hself
  | readBusy =>
      unfold enterCapture
      dsimp only
      split_ifs
      · exact hself.claim hpc _ (by simp)
      · refine hself.keep rfl rfl rfl Iff.rfl ?_ ⟨rfl, rfl, rfl, rfl, rfl⟩ rfl rfl
        rw [hpc]
        exact ⟨nofun, rfl, rfl, nofun, Nat.le_refl _⟩
  | writeW v =>
      have hholds : s.loop.holds = true := by rw [hpc]; rfl
      have hnone := howned.not_handed hholds
      rw [hpc] at hframe hasked hcount
      refine ⟨howned.hold hholds rfl rfl rfl (by rw [hpc]; rfl), ?_, hasked, hcount⟩
      exact ⟨fun _ => hframe (Nat.le_refl 1), fun _ => rfl, fun (hle : 3 ≤ 2) => by omega,
        fun (hle : 4 ≤ 2) => by omega, fun hp => absurd hp hnone⟩
  | writeH v =>
      have hholds : s.loop.holds = true := by rw [hpc]; rfl
      have hnone := howned.not_handed hholds
      simp only [hpc, LoopPc.written, Nat.reduceLeDiff, forall_const] at hframe hw
      rw [hpc] at hasked hcount
      refine ⟨howned.hold hholds rfl rfl rfl (by rw [hpc]; rfl), ?_, hasked, hcount⟩
      exact ⟨fun _ => hframe, fun _ => hw, fun _ => rfl, fun (hle : 4 ≤ 3) => by omega,
        fun hp => absurd hp hnone⟩
  | classify v =>
      have hholds : s.loop.holds = true := by rw [hpc]; rfl
      have hnone := howned.not_handed hholds
      simp only [hpc, LoopPc.written, Nat.reduceLeDiff, forall_const] at hframe hw hh
      rw [hpc] at hasked hcount
      refine ⟨howned.hold hholds rfl rfl rfl (by rw [hpc]; rfl), ?_, hasked, hcount⟩
      exact ⟨fun _ => hframe, fun _ => hw, fun _ => hh, fun _ => rfl, fun hp => absurd hp hnone⟩
  | clearWant v =>
      have hholds : s.loop.holds = true := by rw [hpc]; rfl
      have hwant : s.snapWant = true := hasked (by rw [hpc]; rfl)
      rw [hpc] at hframe hw hh hcf hcount
      refine ⟨howned.hold hholds rfl rfl rfl (by rw [hpc]; rfl),
        ⟨hframe, hw, hh, hcf, fun hp => ?_⟩, nofun, ?_⟩
      · exact (hhanded hp).congr ⟨rfl, rfl, rfl, rfl, rfl⟩
      · rw [hwant] at hcount
        exact hcount
  | setBusy v =>
      have hholds : s.loop.holds = true := by rw [hpc]; rfl
      obtain ⟨hgo, hworker⟩ := howned.loopAlone hholds
      rw [hpc] at hframe hw hh hcf hcount
      refine ⟨⟨howned.go_le, ?_, fun _ => ⟨hgo, hworker⟩, fun _ => hgo⟩,
        ⟨hframe, hw, hh, hcf, hhanded⟩, nofun, hcount⟩
      simp [LoopPc.giving]
  | give v =>
      have hholds : s.loop.holds = true := by rw [hpc]; rfl
      have hbusy : s.snapBusy = true := howned.busy.mpr (Or.inr (Or.inr (by rw [hpc]; rfl)))
      obtain ⟨hgo, hworker⟩ := howned.loopAlone hholds
      simp only [hpc, LoopPc.written, Nat.reduceLeDiff, forall_const] at hframe hw hh
      have hcfBy := hcf (by rw [hpc]; exact Nat.le_refl 4)
      rw [hpc] at hcount
      -- the right goes into the semaphore, with the buffers of this `vision_step`
      refine ⟨⟨Nat.min_le_left _ _, ?_, nofun, fun hne => absurd hworker hne⟩,
        ⟨nofun, nofun, nofun, nofun, fun _ => ?_⟩, nofun, ?_⟩
      · simp [hbusy, hgo]
      · exact ⟨hw.trans hframe.symm, hh.trans hframe.symm, hcfBy.trans hframe.symm⟩
      · rw [hgo] at hcount
        simpa [hgo, LoopPc.handing] using hcount

/-! ### The worker -/

/-- The right goes from the semaphore to the worker. -/
theorem HandedOver.take (h : HandedOver s) (hgo : s.snapGo ≠ 0) :
    HandedOver { s with
      snapGo := s.snapGo - 1
      worker := .encode
      hist := { s.hist with activations := s.hist.activations + 1 } } := by
  have hcount := h.counted.count
  have hone : s.snapGo = 1 := by
    have hle := h.owned.go_le
    omega
  have hloop : s.loop.holds = false := by
    by_contra hholds
    exact hgo (h.owned.loopAlone (Bool.of_not_eq_false hholds)).1
  have hbusy : s.snapBusy = true := h.owned.busy.mpr (Or.inl hgo)
  refine ⟨⟨?_, ?_, ?_, ?_⟩, ?_, h.counted.asked, ?_⟩
  · simp [hone]
  · simp [hbusy]
  · simp [hloop]
  · simp [hone]
  · obtain ⟨hframe, hw, hh, hcf, hhanded⟩ := h.written
    exact ⟨hframe, hw, hh, hcf, fun _ =>
      (hhanded (Or.inl hgo)).congr ⟨rfl, rfl, rfl, rfl, rfl⟩⟩
  · rw [hone] at hcount ⊢
    rw [Nat.sub_self]
    exact hcount

/-- The worker clears `snap_busy`, and the right is free again. -/
theorem HandedOver.release (h : HandedOver s) (hpc : s.worker = .clearBusy) :
    HandedOver { s with snapBusy := false, worker := .take } := by
  have hworker : s.worker ≠ .take := by simp [hpc]
  have hgo := h.owned.workerAlone hworker
  have hloop : s.loop.holds = false := by
    by_contra hholds
    exact hworker (h.owned.loopAlone (Bool.of_not_eq_false hholds)).2
  have hgiving : s.loop.giving = false := by
    cases hloopPc : s.loop <;> simp_all [LoopPc.giving, LoopPc.holds]
  refine ⟨⟨h.owned.go_le, ?_, fun hholds => ?_, fun _ => hgo⟩, ?_, h.counted.asked,
    h.counted.count⟩
  · simp [hgo, hgiving]
  · exact absurd hholds (by simp [hloop])
  · obtain ⟨hframe, hw, hh, hcf, -⟩ := h.written
    exact ⟨hframe, hw, hh, hcf, fun hp => absurd hp (by simp [hgo])⟩

theorem HandedOver.workerStep (h : HandedOver s) : HandedOver (workerStep s).2 := by
  rcases workerStep_cases s with
    hstep | ⟨-, hgo, hstep⟩ | ⟨hne, pc, pngBuf, hne', hstep⟩ | ⟨hpc, hstep⟩
  · rw [hstep]
    exact h
  · rw [hstep]
    exact h.take hgo
  · rw [hstep]
    exact h.aside rfl rfl rfl (by simp [hne, hne']) rfl rfl
  · rw [hstep]
    exact h.release hpc

/-- What every step of every thread preserves. -/
theorem handedOver_step [DecidableEq κ] (p : Platform ι) (a : SnapAct κ ι) (h : HandedOver s) :
    HandedOver (snapStep p a s).2 := by
  cases a with
  | camera ok => exact h.cameraStep ok
  | call c fu => exact h.callStep c fu
  | request c => exact h.requestStep c
  | vision => exact h.visionStep
  | loop => exact h.loopStep
  | noFrame => exact h.noFrameStep
  | frame f => exact h.frameStep f
  | infer ok thresholdPct ledMode => exact h.inferStep ok thresholdPct ledMode
  | install c => exact h.aside rfl rfl rfl Iff.rfl rfl rfl
  | worker => exact h.workerStep

theorem handedOver_run [DecidableEq κ] (p : Platform ι) (acts : List (SnapAct κ ι)) (camOk : Bool)
    (m : ModelState) : HandedOver (runState (snapStep p) acts (Snap.start camOk m)) :=
  run_inv (fun a _ _ h => handedOver_step p a h) (handedOver_start camOk m)

/-! ### One owner -/

/-- `snap_frame`, `snap_w`, `snap_h` and `snap_cf`. -/
def Snap.buffers (s : Snap κ ι) : Mem × UInt16 × UInt16 × Classification :=
  (s.snapFrame, s.snapW, s.snapH, s.snapCf)

theorem LoopPc.holds_of_writes {pc : LoopPc ι} (h : pc.writes = true) : pc.holds = true := by
  cases pc <;> first | rfl | exact h | cases h

/-- Only a loop that writes changes the buffers. -/
theorem buffers_kept [DecidableEq κ] (p : Platform ι) (a : SnapAct κ ι)
    (h : s.loop.writes = false) : (snapStep p a s).2.buffers = s.buffers := by
  cases a with
  | camera ok =>
      rcases cameraStep_cases ok s with hstep | hstep <;> exact (congrArg Snap.buffers hstep :)
  | call c fu =>
      rcases callStep_cases c fu s with hstep | hstep <;> exact (congrArg Snap.buffers hstep :)
  | request c =>
      rcases requestStep_cases c s with ⟨pc, -, -, hstep⟩ | ⟨b, -, hstep⟩ <;>
        exact (congrArg Snap.buffers hstep :)
  | vision =>
      rcases visionStep_cases s with hstep | ⟨-, pc, -, hstep⟩ <;>
        exact (congrArg Snap.buffers hstep :)
  | loop =>
      show (Vision.loopStep s).2.buffers = s.buffers
      cases hpc : s.loop with
      | readBusy =>
          rcases loopStep_readBusy hpc with hstep | hstep <;> exact (congrArg Snap.buffers hstep :)
      | writeW v | writeH v | classify v => exact absurd h (by simp [hpc, LoopPc.writes])
      | idle | capture wantSnap | infer v => simp only [Vision.loopStep, hpc]
      | clearWant v | setBusy v | give v =>
          simp only [Vision.loopStep, hpc]
          rfl
  | noFrame =>
      rcases noFrameStep_cases s with hstep | ⟨-, hstep⟩ <;> exact (congrArg Snap.buffers hstep :)
  | frame f =>
      rcases frameStep_cases p f s with hstep | ⟨-, hstep⟩ | ⟨hpc, -⟩
      · exact (congrArg Snap.buffers hstep :)
      · exact (congrArg Snap.buffers hstep :)
      · exact absurd h (by simp [hpc, LoopPc.writes])
  | infer ok thresholdPct ledMode =>
      rcases inferStep_cases p ok thresholdPct ledMode s with
        hstep | ⟨v, -, ⟨-, hstep⟩ | ⟨scores, occupancy, flipped, -, hstep⟩⟩ <;>
        exact (congrArg Snap.buffers hstep :)
  | install c => rfl
  | worker =>
      rcases workerStep_cases s with
        hstep | ⟨-, -, hstep⟩ | ⟨-, pc, pngBuf, -, hstep⟩ | ⟨-, hstep⟩ <;>
        exact (congrArg Snap.buffers hstep :)

/-- What the owner of the buffers may rely on. -/
structure OneOwner [DecidableEq κ] (p : Platform ι) (s : Snap κ ι) : Prop where
  quiet : s.worker ≠ .take → s.loop.writes = false
  kept : s.worker ≠ .take → ∀ a, (snapStep p a s).2.buffers = s.buffers
  sameStep : s.worker ≠ .take → SameStep s.hist
  activations : s.hist.activations ≤ s.hist.calls.length

/-- **One owner.** In every interleaving, while the worker is between taking `snap_go` and clearing
`snap_busy`, the loop is nowhere where it writes a buffer, no step changes one, and the four of them
were written by one `vision_step`. The worker is activated at most once for each request that has
set `snap_want`. -/
theorem snapshot_one_owner [DecidableEq κ] (p : Platform ι) (camOk : Bool) (m : ModelState)
    (acts : List (SnapAct κ ι)) :
    OneOwner p (runState (snapStep p) acts (Snap.start camOk m)) := by
  obtain ⟨howned, hwritten, hcounted⟩ := handedOver_run p acts camOk m
  generalize runState (snapStep p) acts (Snap.start camOk m) = s at howned hwritten hcounted
  have hquiet : s.worker ≠ .take → s.loop.writes = false := by
    intro hworker
    by_contra hwrites
    have hholds := LoopPc.holds_of_writes (Bool.of_not_eq_false hwrites)
    exact hworker (howned.loopAlone hholds).2
  refine ⟨hquiet, fun hworker a => buffers_kept p a (hquiet hworker),
    fun hworker => hwritten.handed (Or.inr hworker), ?_⟩
  have hcount := hcounted.count
  omega

end Step

end IotcDemos.Vision
