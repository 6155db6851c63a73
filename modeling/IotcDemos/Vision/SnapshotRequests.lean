import IotcDemos.Vision.SnapshotOwner

set_option autoImplicit false

/-! # Every acknowledged snapshot

`snapshot_request` answers 0 when it has set `snap_want`. It has looked at the flag before, but two
calls may both have found it clear. The calls and the snapshots are counted: a call that finds
`snap_want` set by another one when it sets it is lost (`Lost`), and stays lost. Where no call does
that, the calls are served in order (`Served`).
-/

namespace IotcDemos.Vision

variable {κ ι : Type}

/-- Every call that has returned 0 has a snapshot of its own, captured after the call began, or
`snap_want` is set for it. -/
def Matched (s : Snap κ ι) : Prop :=
  ∃ serve : Fin s.hist.calls.length → Option (Fin s.hist.shots.length),
    Function.Injective serve ∧
      (∀ i k, serve i = some k → s.hist.calls[i] < s.hist.shots[k]) ∧
      ∀ i, serve i = none → s.snapWant = true

/-- The step sets `snap_want`. -/
def setsWant : SnapAct κ ι → Snap κ ι → Bool
  | .request c, s =>
      match s.request c with
      | .setWant _ => true
      | _ => false
  | _, _ => false

/-- A call that sets `snap_want` finds it clear. -/
def SetsAlone (a : SnapAct κ ι) (s : Snap κ ι) : Prop := setsWant a s = true → s.snapWant = false

/-- At least `n` of the calls that have returned 0 are neither answered for nor waiting. -/
def Lost (n : ℕ) (s : Snap κ ι) : Prop :=
  s.hist.shots.length + s.snapWant.toNat + n ≤ s.hist.calls.length

/-- The loop has captured a frame that was asked for, and has not cleared `snap_want` yet. -/
def LoopPc.shot : LoopPc ι → Bool
  | infer v => v.wantSnap
  | writeW _ => true
  | writeH _ => true
  | classify _ => true
  | clearWant _ => true
  | _ => false

/-- The calls are served in order. -/
structure Served (s : Snap κ ι) : Prop where
  began : ∀ c, ∀ b ∈ (s.request c).began, b ≤ s.hist.captures
  called : ∀ b ∈ s.hist.calls, b ≤ s.hist.captures
  shot : s.loop.shot = true → ∀ b ∈ s.hist.calls, b < s.hist.captures
  length : s.hist.calls.length = s.hist.shots.length + s.snapWant.toNat
  before : ∀ (i b k : ℕ), s.hist.calls[i]? = some b → s.hist.shots[i]? = some k → b < k

section Served

variable {s s' : Snap κ ι}

theorem setsWant_request {c : κ} (h : ∀ b, s.request c ≠ .setWant b) :
    setsWant (.request c : SnapAct κ ι) s = false := by
  unfold setsWant
  dsimp only
  split
  · next b hpc => exact absurd hpc (h b)
  · rfl

theorem LoopPc.asked_of_shot {pc : LoopPc ι} (h : pc.shot = true) : pc.asked = true := by
  cases pc with
  | infer v =>
      have hwant : v.wantSnap = true := h
      simp [LoopPc.asked, LoopPc.holds, LoopPc.handing, hwant]
  | _ => first | rfl | cases h

theorem LoopPc.wantSnap_of_next {v v' : StepVars ι} (h : (v.next v').shot = true) :
    v.wantSnap = true := by
  unfold StepVars.next at h
  split at h
  · next hwrite => exact Bool.and_elim_left hwrite
  · cases h

theorem served_start (camOk : Bool) (m : ModelState) : Served (Snap.start camOk m : Snap κ ι) where
  began _ _ hb := nomatch hb
  called _ hb := nomatch hb
  shot := nofun
  length := rfl
  before _ _ _ hb := nomatch hb

/-- At most one call waits, and it is the last one. -/
theorem Served.matched (h : Served s) : Matched s := by
  have hlength := h.length
  have htoNat := Bool.toNat_le s.snapWant
  refine ⟨fun i => if hi : i.val < s.hist.shots.length then some ⟨i.val, hi⟩ else none, ?_, ?_, ?_⟩
  · intro i j hij
    have hi := i.isLt
    have hj := j.isLt
    dsimp only at hij
    split_ifs at hij with hshot hshot' hshot'
    · have hval := congrArg Fin.val (Option.some.inj hij)
      exact Fin.ext hval
    · exact Fin.ext (by omega)
  · intro i k hk
    dsimp only at hk
    split_ifs at hk with hshot
    obtain rfl := Option.some.inj hk
    exact h.before i.val _ _ (List.getElem?_eq_getElem i.isLt) (List.getElem?_eq_getElem hshot)
  · intro i hnone
    dsimp only at hnone
    split_ifs at hnone with hshot
    have hi := i.isLt
    cases hwant : s.snapWant with
    | true => rfl
    | false =>
        rw [hwant, Bool.toNat_false] at hlength
        omega

/-- Where calls are lost, they cannot all be matched. -/
theorem Matched.not_lost (h : Matched s) : ¬ Lost 1 s := by
  obtain ⟨serve, hinj, -, hnone⟩ := h
  intro hlost
  cases hwant : s.snapWant with
  | true =>
      have hcard := Fintype.card_le_of_injective serve hinj
      rw [Fintype.card_option, Fintype.card_fin, Fintype.card_fin] at hcard
      rw [Lost, hwant, Bool.toNat_true] at hlost
      omega
  | false =>
      have hsome : ∀ i, (serve i).isSome := by
        intro i
        rw [Option.isSome_iff_ne_none]
        intro hi
        exact absurd (hnone i hi) (by simp [hwant])
      have hget : Function.Injective fun i => (serve i).get (hsome i) :=
        fun i j hij => hinj (Option.get_inj.mp hij)
      have hcard := Fintype.card_le_of_injective _ hget
      rw [Fintype.card_fin, Fintype.card_fin] at hcard
      rw [Lost, hwant, Bool.toNat_false] at hlost
      omega

/-- A step that changes nothing of this but where the loop is. -/
theorem Served.keep (h : Served s) (hrequest : s'.request = s.request)
    (hcaptures : s'.hist.captures = s.hist.captures) (hcalls : s'.hist.calls = s.hist.calls)
    (hshots : s'.hist.shots = s.hist.shots) (hwant : s'.snapWant = s.snapWant)
    (hshot : s'.loop.shot = true → s.loop.shot = true) : Served s' where
  began := by rw [hrequest, hcaptures]; exact h.began
  called := by rw [hcalls, hcaptures]; exact h.called
  shot hloop := by rw [hcalls, hcaptures]; exact h.shot (hshot hloop)
  length := by rw [hcalls, hshots, hwant]; exact h.length
  before := by rw [hcalls, hshots]; exact h.before

theorem Served.frameStep {p : Platform ι} (h : Served s) (f : ι) : Served (frameStep p f s).2 := by
  have hnext : ∀ b ∈ s.hist.calls, b < s.hist.captures + 1 :=
    fun b hb => Nat.lt_succ_of_le (h.called b hb)
  rcases frameStep_cases p f s with hstep | ⟨-, hstep⟩ | ⟨-, hstep⟩
  · rw [hstep]
    exact h
  · rw [hstep]
    exact ⟨fun c b hb => Nat.le_succ_of_le (h.began c b hb),
      fun b hb => Nat.le_succ_of_le (h.called b hb), nofun, h.length, h.before⟩
  · rw [hstep]
    exact ⟨fun c b hb => Nat.le_succ_of_le (h.began c b hb),
      fun b hb => Nat.le_succ_of_le (h.called b hb), fun _ => hnext, h.length, h.before⟩

/-- Clearing `snap_want` answers for the last call. -/
theorem Served.loopStep (h : Served s) (hover : HandedOver s) : Served (loopStep s).2 := by
  have hself := h
  obtain ⟨hbegan, hcalled, hshot, hlength, hbefore⟩ := h
  unfold Vision.loopStep enterCapture
  cases hpc : s.loop with
  | readBusy =>
      dsimp only
      split_ifs <;> exact hself.keep rfl rfl rfl rfl rfl nofun
  | writeW v => exact hself.keep rfl rfl rfl rfl rfl fun _ => by rw [hpc]; rfl
  | writeH v => exact hself.keep rfl rfl rfl rfl rfl fun _ => by rw [hpc]; rfl
  | classify v => exact hself.keep rfl rfl rfl rfl rfl fun _ => by rw [hpc]; rfl
  | clearWant v =>
      have hwant : s.snapWant = true := hover.counted.asked (by rw [hpc]; rfl)
      rw [hwant, Bool.toNat_true] at hlength
      have hrecent := hshot (by rw [hpc]; rfl)
      refine ⟨hbegan, hcalled, nofun, ?_, ?_⟩
      · simpa using hlength
      · intro i b k hcall hk
        by_cases hi : i < s.hist.shots.length
        · rw [List.getElem?_append_left hi] at hk
          exact hbefore i b k hcall hk
        · rw [List.getElem?_append_right (Nat.le_of_not_lt hi)] at hk
          rw [List.mem_singleton.mp (List.mem_of_getElem? hk)]
          exact hrecent b (List.mem_of_getElem? hcall)
  | setBusy v => exact hself.keep rfl rfl rfl rfl rfl nofun
  | give v => exact hself.keep rfl rfl rfl rfl rfl nofun
  | idle => exact hself
  | capture wantSnap => exact hself
  | infer v => exact hself

theorem Served.inferStep {p : Platform ι} (h : Served s) (ok : Bool) (thresholdPct : Int32)
    (ledMode : LedMode) : Served (inferStep p ok thresholdPct ledMode s).2 := by
  have hnext : ∀ {v} v', s.loop = .infer v → (v.next v').shot = true → s.loop.shot = true := by
    intro v v' hpc hshot
    rw [hpc]
    exact LoopPc.wantSnap_of_next hshot
  rcases inferStep_cases p ok thresholdPct ledMode s with
    hstep | ⟨v, hpc, ⟨-, hstep⟩ | ⟨scores, occupancy, flipped, -, hstep⟩⟩
  · rw [hstep]
    exact h
  · rw [hstep]
    exact h.keep rfl rfl rfl rfl rfl (hnext _ hpc)
  · rw [hstep]
    exact h.keep rfl rfl rfl rfl rfl (hnext _ hpc)

end Served

section Step

variable [DecidableEq κ] {s : Snap κ ι}

/-- A call goes on, ends or begins. -/
theorem Served.at (h : Served s) (c : κ) {pc : RequestPc}
    (hpc : ∀ b ∈ pc.began, b ≤ s.hist.captures) : Served (s.at c pc) where
  began := by
    intro c' b hb
    by_cases hc : c' = c
    · subst hc
      rw [Snap.at_request_self] at hb
      exact hpc b hb
    · rw [Snap.at_request_of_ne s pc hc] at hb
      exact h.began c' b hb
  called := h.called
  shot := h.shot
  length := h.length
  before := h.before

theorem Served.callStep (h : Served s) (c : κ) (fu : Bool) : Served (callStep c fu s).2 := by
  rcases callStep_cases c fu s with hstep | hstep
  · rw [hstep]
    exact h
  · rw [hstep]
    exact h.at c fun b hb => (Option.some.inj hb).ge

/-- A call that sets `snap_want` alone is the next one to be served. -/
theorem Served.requestStep (h : Served s) (hover : HandedOver s) (c : κ)
    (halone : SetsAlone (.request c : SnapAct κ ι) s) : Served (requestStep c s).2 := by
  rcases requestStep_cases c s with ⟨pc, -, hpc, hstep⟩ | ⟨b, hpc, hstep⟩
  · rw [hstep]
    exact h.at c fun b hb => h.began c b (hpc b hb)
  · rw [hstep]
    have hwant : s.snapWant = false := halone (by simp [setsWant, hpc])
    have hb : b ≤ s.hist.captures := h.began c b (by rw [hpc]; rfl)
    have hlength := h.length
    rw [hwant, Bool.toNat_false, Nat.add_zero] at hlength
    have hidle : Served (s.at c .idle) := h.at c nofun
    refine ⟨hidle.began, ?_, ?_, ?_, ?_⟩
    · intro b' hb'
      rcases List.mem_append.mp hb' with hold | hnew
      · exact h.called b' hold
      · rw [List.mem_singleton.mp hnew]
        exact hb
    · -- with a frame captured, `snap_want` would be set
      intro hshot
      have hset := hover.counted.asked (LoopPc.asked_of_shot hshot)
      rw [hwant] at hset
      exact absurd hset (by decide)
    · simpa using hlength
    · intro i b' k hcall hk
      have hi : i < s.hist.calls.length := by
        rw [hlength]
        exact (List.getElem?_eq_some_iff.mp hk).1
      rw [List.getElem?_append_left hi] at hcall
      exact h.before i b' k hcall hk

/-- What every step preserves that does not set `snap_want` a second time. -/
theorem served_step (p : Platform ι) (a : SnapAct κ ι) (halone : SetsAlone a s)
    (hover : HandedOver s) (h : Served s) : Served (snapStep p a s).2 := by
  cases a with
  | camera ok =>
      show Served (cameraStep ok s).2
      rcases cameraStep_cases ok s with hstep | hstep
      · rw [hstep]
        exact h
      · rw [hstep]
        exact h.keep rfl rfl rfl rfl rfl id
  | call c fu => exact h.callStep c fu
  | request c => exact h.requestStep hover c halone
  | vision =>
      show Served (visionStep s).2
      rcases visionStep_cases s with hstep | ⟨-, pc, hnext, hstep⟩
      · rw [hstep]
        exact h
      · rw [hstep]
        refine h.keep rfl rfl rfl rfl rfl ?_
        rcases hnext with rfl | rfl | ⟨rfl, -⟩ <;> exact nofun
  | loop => exact h.loopStep hover
  | noFrame =>
      show Served (noFrameStep s).2
      rcases noFrameStep_cases s with hstep | ⟨-, hstep⟩
      · rw [hstep]
        exact h
      · rw [hstep]
        exact h.keep rfl rfl rfl rfl rfl nofun
  | frame f => exact h.frameStep f
  | infer ok thresholdPct ledMode => exact h.inferStep ok thresholdPct ledMode
  | install c => exact h.keep rfl rfl rfl rfl rfl id
  | worker =>
      show Served (workerStep s).2
      rcases workerStep_cases s with
        hstep | ⟨-, -, hstep⟩ | ⟨-, pc, pngBuf, -, hstep⟩ | ⟨-, hstep⟩
      · rw [hstep]
        exact h
      · rw [hstep]
        exact h.keep rfl rfl rfl rfl rfl id
      · rw [hstep]
        exact h.keep rfl rfl rfl rfl rfl id
      · rw [hstep]
        exact h.keep rfl rfl rfl rfl rfl id

/-! ## The calls that are lost -/

/-- The calls, the snapshots and `snap_want`. -/
def Snap.account (s : Snap κ ι) : List ℕ × List ℕ × Bool :=
  (s.hist.calls, s.hist.shots, s.snapWant)

/-- Setting and clearing `snap_want` change the account, and nothing else does. -/
theorem step_account (p : Platform ι) (a : SnapAct κ ι) (s : Snap κ ι) :
    (∃ c b, a = .request c ∧ s.request c = .setWant b ∧
      (snapStep p a s).2.account = (s.hist.calls ++ [b], s.hist.shots, true)) ∨
    (∃ v, a = .loop ∧ s.loop = .clearWant v ∧
      (snapStep p a s).2.account = (s.hist.calls, s.hist.shots ++ [s.hist.captures], false)) ∨
    (setsWant a s = false ∧ (snapStep p a s).2.account = s.account) := by
  cases a with
  | camera ok =>
      rcases cameraStep_cases ok s with hstep | hstep <;>
        exact Or.inr (Or.inr ⟨rfl, (congrArg Snap.account hstep :)⟩)
  | call c fu =>
      rcases callStep_cases c fu s with hstep | hstep <;>
        exact Or.inr (Or.inr ⟨rfl, (congrArg Snap.account hstep :)⟩)
  | request c =>
      rcases requestStep_cases c s with ⟨pc, hne, -, hstep⟩ | ⟨b, hpc, hstep⟩
      · exact Or.inr (Or.inr ⟨setsWant_request hne, (congrArg Snap.account hstep :)⟩)
      · exact Or.inl ⟨c, b, rfl, hpc, (congrArg Snap.account hstep :)⟩
  | vision =>
      rcases visionStep_cases s with hstep | ⟨-, pc, -, hstep⟩ <;>
        exact Or.inr (Or.inr ⟨rfl, (congrArg Snap.account hstep :)⟩)
  | loop =>
      cases hpc : s.loop with
      | clearWant v =>
          refine Or.inr (Or.inl ⟨v, rfl, rfl, ?_⟩)
          simp only [snapStep, Vision.loopStep, hpc]
          rfl
      | readBusy =>
          rcases loopStep_readBusy hpc with hstep | hstep <;>
            exact Or.inr (Or.inr ⟨rfl, (congrArg Snap.account hstep :)⟩)
      | idle | capture wantSnap | infer v =>
          refine Or.inr (Or.inr ⟨rfl, ?_⟩)
          simp only [snapStep, Vision.loopStep, hpc]
      | writeW v | writeH v | classify v | setBusy v | give v =>
          refine Or.inr (Or.inr ⟨rfl, ?_⟩)
          simp only [snapStep, Vision.loopStep, hpc]
          rfl
  | noFrame =>
      rcases noFrameStep_cases s with hstep | ⟨-, hstep⟩ <;>
        exact Or.inr (Or.inr ⟨rfl, (congrArg Snap.account hstep :)⟩)
  | frame f =>
      rcases frameStep_cases p f s with hstep | ⟨-, hstep⟩ | ⟨-, hstep⟩ <;>
        exact Or.inr (Or.inr ⟨rfl, (congrArg Snap.account hstep :)⟩)
  | infer ok thresholdPct ledMode =>
      rcases inferStep_cases p ok thresholdPct ledMode s with
        hstep | ⟨v, -, ⟨-, hstep⟩ | ⟨scores, occupancy, flipped, -, hstep⟩⟩ <;>
        exact Or.inr (Or.inr ⟨rfl, (congrArg Snap.account hstep :)⟩)
  | install c => exact Or.inr (Or.inr ⟨rfl, rfl⟩)
  | worker =>
      rcases workerStep_cases s with
        hstep | ⟨-, -, hstep⟩ | ⟨-, pc, pngBuf, -, hstep⟩ | ⟨-, hstep⟩ <;>
        exact Or.inr (Or.inr ⟨rfl, (congrArg Snap.account hstep :)⟩)

/-- A lost call stays lost. -/
theorem lost_step (p : Platform ι) (a : SnapAct κ ι) (hover : HandedOver s) {n : ℕ}
    (h : Lost n s) : Lost n (snapStep p a s).2 := by
  unfold Lost at h ⊢
  rcases step_account p a s with ⟨c, b, -, -, haccount⟩ | ⟨v, -, hpc, haccount⟩ | ⟨-, haccount⟩
  · simp only [Snap.account, Prod.mk.injEq] at haccount
    simp only [haccount, List.length_append, List.length_singleton, Bool.toNat_true]
    have hset := Bool.toNat_le s.snapWant
    omega
  · have hwant : s.snapWant = true := hover.counted.asked (by rw [hpc]; rfl)
    simp only [Snap.account, Prod.mk.injEq] at haccount
    simp only [haccount, List.length_append, List.length_singleton, Bool.toNat_false]
    rw [hwant, Bool.toNat_true] at h
    omega
  · simp only [Snap.account, Prod.mk.injEq] at haccount
    simp only [haccount]
    exact h

/-- A call that finds `snap_want` set when it sets it is lost. -/
theorem lost_second (p : Platform ι) (a : SnapAct κ ι) {n : ℕ} (h : Lost n s)
    (hsecond : ¬ SetsAlone a s) : Lost (n + 1) (snapStep p a s).2 := by
  obtain ⟨hsets, hset⟩ := Classical.not_imp.mp hsecond
  rw [Lost, Bool.of_not_eq_false hset, Bool.toNat_true] at h
  rcases step_account p a s with ⟨c, b, -, -, haccount⟩ | ⟨v, rfl, -, -⟩ | ⟨hnone, -⟩
  · simp only [Snap.account, Prod.mk.injEq] at haccount
    rw [Lost, haccount.1, haccount.2.1, haccount.2.2, List.length_append, List.length_singleton,
      Bool.toNat_true]
    omega
  · exact absurd hsets (by simp [setsWant])
  · rw [hnone] at hsets
    exact absurd hsets (by decide)

/-- A call that is lost in a run is lost at its end. -/
theorem lost_run (p : Platform ι) (acts : List (SnapAct κ ι)) (hover : HandedOver s) {n : ℕ}
    (h : Lost n s) : Lost n (runState (snapStep p) acts s) := by
  have hboth := run_inv (P := fun t => HandedOver t ∧ Lost n t)
    (fun a (_ : a ∈ acts) t ht => ⟨handedOver_step p a ht.1, lost_step p a ht.1 ht.2⟩) ⟨hover, h⟩
  exact hboth.2

/-! ## Whole runs -/

/-- **Acknowledged snapshots.** After a run, every call that has returned 0 has a snapshot of its
own, captured after the call began, or `snap_want` set for it, exactly if in the run every call that
has set `snap_want` has found it clear. -/
theorem snapshots_matched_iff (p : Platform ι) (camOk : Bool) (m : ModelState)
    (acts : List (SnapAct κ ι)) :
    Matched (runState (snapStep p) acts (Snap.start camOk m)) ↔
      Along (snapStep p) SetsAlone acts (Snap.start camOk m) := by
  constructor
  · intro hmatched
    by_contra hnot
    obtain ⟨pre, a, post, rfl, hsecond⟩ := exists_of_not_along hnot
    have hover : HandedOver (runState (snapStep p) pre (Snap.start camOk m)) :=
      handedOver_run p pre camOk m
    have hnone : Lost 0 (runState (snapStep p) pre (Snap.start camOk m)) :=
      lost_run p pre (handedOver_start camOk m) (Nat.le_refl 0)
    -- the second call is lost from here on
    have hlost := lost_run p post (handedOver_step p a hover) (lost_second p a hnone hsecond)
    rw [runState_append, runState_cons] at hmatched
    exact hmatched.not_lost hlost
  · intro halone
    have hinv := trace_inv_along (P := fun s => HandedOver s ∧ Served s)
      (fun a s ha hs => ⟨handedOver_step p a hs.1, served_step p a ha hs.1 hs.2⟩)
      halone ⟨handedOver_start camOk m, served_start camOk m⟩
    exact hinv.2.2.matched

end Step

/-! ## Two calls at once -/

/-- The two threads that call `snapshot_request`. -/
inductive Caller where
  | command
  | shell
  deriving DecidableEq

/-- A camera of 320 x 240 pixels that shows nothing, and a model that sees a person at 80 %. -/
def bench : Platform Unit where
  camera := ⟨fun _ => List.replicate 9216 0, fun _ snap => (snap, 160, 120)⟩
  tflite := schemaOnly
  invoke := fun _ _ => (80, 20)
  flash := slot1

/-- Both callers find the two flags clear, and one snapshot is taken. -/
def twoCalls : List (SnapAct Caller Unit) :=
  [.call .command true, .call .shell true, .request .command, .request .shell, .request .command,
    .request .shell, .request .command, .request .shell, .vision, .loop, .frame (),
    .infer true 60 .auto, .loop, .loop, .loop, .loop, .loop, .loop]

theorem two_calls_one_snapshot :
    ¬ Matched (runState (snapStep bench) twoCalls
      (Snap.start true (installStep schemaOnly slot1 smallCall blank).2)) := by
  intro hmatched
  refine hmatched.not_lost ?_
  unfold Lost
  decide +kernel

end IotcDemos.Vision
