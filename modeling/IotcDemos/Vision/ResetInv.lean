import IotcDemos.Vision.Reset

set_option autoImplicit false

/-! # Every step keeps the flash copy and the active model together

`FlashInv` says what the two threads know of the flash. Until a reset has committed the built-in
model, there is no header in flash. From then on the flash leads a boot to the active model, unless
the worker has yet to save it (`pendingSave`). Each step of a thread is carried over by
`worker_move` or `command_move`, from what the step changes.
-/

namespace IotcDemos.Vision

/-! ## The invariant -/

/-- The worker has changed the active model, and not yet saved it. -/
def pendingSave : Phase → Bool
  | .installing .publish _ => true
  | .installing (.unlock ret) _ => ret = 0
  | .installing .save _ => true
  | _ => false

/-- The payload that a thread is about to copy has passed its trial. -/
def Tried (tflite : Bytes → LoadResult) (m : ModelState) : Phase → Prop
  | .installing .copy _ => tflite (payload m.staging) = .loaded
  | _ => True

/-- Until a reset has committed the built-in model, it has staged it and the flash is empty. The
command thread never saves. -/
def ResetKnows (builtin : Bytes) (m : ModelState) : Phase → Prop
  | .erased => NoImage m.flash
  | .builtinCopied => NoImage m.flash
  | .installing point len =>
      match point with
      | .unlock _ => True
      | .save => False
      | .publish => NoImage m.flash ∧ bytesAt m.active 0 len = builtinBlob builtin
      | _ => NoImage m.flash ∧ bytesAt m.staging 0 len = builtinBlob builtin
  | _ => True

/-- What a save in progress has left in flash. -/
def SaveKnows (s : Demo) : SavePoint → Prop
  | .called len => len = s.model.activeLen
  | .writing len done => len = s.model.activeLen ∧ done ≤ len ∧
      bytesAt s.model.flash 0 done = bytesAt s.model.active 0 done ∧
      ∀ i, done ≤ i → i < len → s.model.flash i = 0xFF

/-- The built-in model is committed in this reset, or has been acknowledged. -/
def ResetDone (s : FlashDemo) : Prop :=
  s.resetOk = true ∨ ∃ len, s.demo.phase .command = .installing (.unlock 0) len

/-- What holds between any two steps. -/
structure FlashInv (tflite : Bytes → LoadResult) (builtin : Bytes) (s : FlashDemo) : Prop where
  base : StagingInv builtin s.demo
  loads : tflite (payload s.demo.model.active) = .loaded
  tried : ∀ t, Tried tflite s.demo.model (s.demo.phase t)
  reset : ResetKnows builtin s.demo.model (s.demo.phase .command)
  apart : resetting (s.demo.phase .command) = true → s.saving = none ∧ s.resetOk = false
  /-- A save is the worker's last call of an install. -/
  saving : ∀ point, s.saving = some point →
    (∃ len, s.demo.phase .worker = .installing .save len) ∧ SaveKnows s.demo point
  /-- Since the last reset, a reboot would activate the active model. -/
  agrees : ResetDone s → pendingSave (s.demo.phase .worker) = false → Agrees builtin s.demo.model

section Inv

variable {tflite : Bytes → LoadResult} {faSize : ℕ} {builtin : Bytes} {s s' : FlashDemo}
  {p q : Phase}

theorem Tried.frame {m m' : ModelState} (h : Tried tflite m p)
    (hstaging : usesStaging p = true → m'.staging = m.staging) : Tried tflite m' p := by
  cases p with
  | installing point len =>
    cases point with
    | copy =>
      show tflite (payload m'.staging) = .loaded
      rw [hstaging rfl]
      exact h
    | _ => trivial
  | _ => trivial

theorem ResetKnows.frame {m m' : ModelState} (h : ResetKnows builtin m p)
    (hflash : resetting p = true → m'.flash = m.flash)
    (hstaging : usesStaging p = true → m'.staging = m.staging)
    (hactive : holdsLock p = true → m'.active = m.active) : ResetKnows builtin m' p := by
  cases p with
  | erased | builtinCopied =>
    show NoImage m'.flash
    rw [hflash rfl]
    exact h
  | installing point len =>
    cases point with
    | validate | lock | trial | copy =>
      show NoImage m'.flash ∧ bytesAt m'.staging 0 len = builtinBlob builtin
      rw [hflash rfl, hstaging rfl]
      exact h
    | publish =>
      show NoImage m'.flash ∧ bytesAt m'.active 0 len = builtinBlob builtin
      rw [hflash rfl, hactive rfl]
      exact h
    | unlock ret => trivial
    | save => exact h
  | _ => trivial

/-- Two demos with the same flash copy and the same active model. -/
structure SameModel (m m' : ModelState) : Prop where
  active : m'.active = m.active
  activeLen : m'.activeLen = m.activeLen
  flash : m'.flash = m.flash

theorem SameModel.refl (m : ModelState) : SameModel m m := ⟨rfl, rfl, rfl⟩

theorem Agrees.frame {m m' : ModelState} (h : Agrees builtin m) (hsame : SameModel m m') :
    Agrees builtin m' := by
  rw [Agrees, ModelState.blob, hsame.active, hsame.activeLen, hsame.flash]
  exact h

/-- The worker moves on, other than in a save. -/
theorem FlashInv.worker_move (h : FlashInv tflite builtin s) (hp : s.demo.phase .worker = p)
    (hphase : s'.demo.phase = Function.update s.demo.phase .worker q)
    (hsaving : s'.saving = s.saving) (hok : s'.resetOk = s.resetOk)
    (hbase : StagingInv builtin s'.demo)
    (hstaging : usesStaging (s.demo.phase .command) = true →
      s'.demo.model.staging = s.demo.model.staging)
    (hflash : s'.demo.model.flash = s.demo.model.flash)
    (hactive : holdsLock (s.demo.phase .command) = true →
      s'.demo.model.active = s.demo.model.active)
    (hloads : tflite (payload s'.demo.model.active) = .loaded)
    (htried : Tried tflite s'.demo.model q) (hnosave : ∀ len, p ≠ .installing .save len)
    (hsame : pendingSave q = false → pendingSave p = false ∧ SameModel s.demo.model s'.demo.model) :
    FlashInv tflite builtin s' := by
  have hcommand : s'.demo.phase .command = s.demo.phase .command := by
    rw [hphase]
    exact Function.update_of_ne (by decide) _ _
  have hworker : s'.demo.phase .worker = q := by rw [hphase, Function.update_self]
  have hnone : s.saving = none := by
    cases hpoint : s.saving with
    | none => rfl
    | some point =>
      obtain ⟨⟨len, hsave⟩, -⟩ := h.saving point hpoint
      exact absurd (hp.symm.trans hsave) (hnosave len)
  constructor
  · exact hbase
  · exact hloads
  · intro t
    cases t with
    | worker => rw [hworker]; exact htried
    | command => rw [hcommand]; exact (h.tried .command).frame hstaging
  · rw [hcommand]
    exact h.reset.frame (fun _ => hflash) hstaging hactive
  · rw [hcommand, hsaving, hok]
    exact h.apart
  · intro point hpoint
    rw [hsaving, hnone] at hpoint
    cases hpoint
  · intro hdone hpending
    rw [hworker] at hpending
    obtain ⟨hbefore, hmodel⟩ := hsame hpending
    rw [ResetDone, hok, hcommand] at hdone
    exact (h.agrees hdone (by rw [hp]; exact hbefore)).frame hmodel

/-- The command thread moves on. -/
theorem FlashInv.command_move (h : FlashInv tflite builtin s)
    (hphase : s'.demo.phase = Function.update s.demo.phase .command q)
    (hsaving : s'.saving = s.saving) (hbase : StagingInv builtin s'.demo)
    (hstaging : usesStaging (s.demo.phase .worker) = true →
      s'.demo.model.staging = s.demo.model.staging)
    (hloads : tflite (payload s'.demo.model.active) = .loaded)
    (htried : Tried tflite s'.demo.model q) (hreset : ResetKnows builtin s'.demo.model q)
    (hapart : resetting q = true → s.saving = none ∧ s'.resetOk = false)
    (hsame : s.saving = none ∨ SameModel s.demo.model s'.demo.model)
    (hagrees : (s'.resetOk = true ∨ ∃ len, q = .installing (.unlock 0) len) →
      pendingSave (s.demo.phase .worker) = false → Agrees builtin s'.demo.model) :
    FlashInv tflite builtin s' := by
  have hcommand : s'.demo.phase .command = q := by rw [hphase, Function.update_self]
  have hworker : s'.demo.phase .worker = s.demo.phase .worker := by
    rw [hphase]
    exact Function.update_of_ne (by decide) _ _
  constructor
  · exact hbase
  · exact hloads
  · intro t
    cases t with
    | worker => rw [hworker]; exact (h.tried .worker).frame hstaging
    | command => rw [hcommand]; exact htried
  · rw [hcommand]
    exact hreset
  · rw [hcommand, hsaving]
    exact hapart
  · intro point hpoint
    rw [hsaving] at hpoint
    rw [hworker]
    rcases hsame with hnone | hmodel
    · rw [hnone] at hpoint
      cases hpoint
    · obtain ⟨hat, hknows⟩ := h.saving point hpoint
      refine ⟨hat, ?_⟩
      cases point with
      | called len => exact hknows.trans hmodel.activeLen.symm
      | writing len done =>
        rw [SaveKnows, hmodel.active, hmodel.activeLen, hmodel.flash]
        exact hknows
  · rw [ResetDone, hcommand, hworker]
    exact hagrees

/-! ## The steps of the two threads -/

/-- The thread that takes a step. -/
def Act.thread : Act → Thread
  | .reset => .command
  | .copyBuiltin => .command
  | .wrapBuiltin => .command
  | .install t => t
  | _ => .worker

section Demo

variable {fa : FlashArea} {d : Demo} {a : Act}

/-- A step leaves what the other thread relies on in `model_staging`. -/
theorem demoStep_staging (h : StagingInv builtin d) (hapart : StagingApart a d)
    (huse : usesStaging (d.phase a.thread.other) = true) :
    (demoStep tflite fa builtin a d).2.model.staging = d.model.staging := by
  cases a with
  | fetch =>
    simp only [demoStep]
    split <;> rfl
  | recv chunk =>
    simp only [demoStep]
    split
    case h_2 => rfl
    case h_1 body hp =>
      split
      case isTrue => rfl
      case isFalse =>
        by_cases hchunk : chunk = []
        · show patch d.model.staging body.length chunk = d.model.staging
          rw [hchunk, patch_nil]
        · exact Bool.noConfusion ((hapart body hp hchunk).symm.trans huse)
  | fetched ret =>
    simp only [demoStep]
    split
    case h_2 => rfl
    case h_1 body hp => split <;> rfl
  | normalize wild =>
    simp only [demoStep]
    split
    case h_2 => rfl
    case h_1 bodyLen hp =>
      split
      case h_1 => rfl
      case h_2 => rfl
      case h_3 staging len hnorm =>
        have hnonempty : bodyLen ≠ 0 := by
          rintro rfl
          exact normalizeStaged_empty _ _ hnorm
        have hfree : usesStaging (d.phase .command) = false :=
          h.alone_at hp (by simp [usesStaging, hnonempty])
        exact Bool.noConfusion (hfree.symm.trans huse)
  | report =>
    simp only [demoStep]
    split
    case h_2 => rfl
    case h_1 bodyLen hp =>
      apply if_neg
      intro htext
      exact Bool.noConfusion ((hapart bodyLen hp htext).symm.trans huse)
  | reset =>
    simp only [demoStep]
    split <;> rfl
  | copyBuiltin =>
    simp only [demoStep]
    split
    case h_2 => rfl
    case h_1 hp => exact Bool.noConfusion ((hapart hp).symm.trans huse)
  | wrapBuiltin =>
    simp only [demoStep]
    split
    case h_2 => rfl
    case h_1 hp =>
      have hfree : usesStaging (d.phase .worker) = false := h.alone_at hp rfl
      exact Bool.noConfusion (hfree.symm.trans huse)
  | install t =>
    simp only [demoStep]
    split
    case h_2 => rfl
    case h_1 point len hp =>
      cases point with
      | validate =>
        simp only [installStepAt]
        split <;> rfl
      | lock =>
        simp only [installStepAt]
        split <;> rfl
      | trial => exact (trialLoad_unchanged d.model).2
      | _ => rfl

/-- A phase before the worker has changed anything but `model_staging`. -/
def fetching : Phase → Bool
  | .installing .validate _ => true
  | .installing _ _ => false
  | _ => true

theorem demoStep_fetching (h : StagingInv builtin d) (hapart : StagingApart a d)
    (hworker : a.thread = .worker) (hinstall : ∀ t, a ≠ .install t) :
    (demoStep tflite fa builtin a d).2 = d ∨
      ∃ q, fetching (d.phase .worker) = true ∧ fetching q = true ∧
        (demoStep tflite fa builtin a d).2.phase = Function.update d.phase .worker q ∧
        SameModel d.model (demoStep tflite fa builtin a d).2.model := by
  cases a with
  | reset | copyBuiltin | wrapBuiltin => cases hworker
  | install t => exact absurd rfl (hinstall t)
  | fetch =>
    simp only [demoStep]
    split
    case h_2 => exact Or.inl rfl
    case h_1 hp => exact Or.inr ⟨_, by rw [hp]; rfl, rfl, rfl, SameModel.refl _⟩
  | recv chunk =>
    simp only [demoStep]
    split
    case h_2 => exact Or.inl rfl
    case h_1 body hp =>
      split
      case isTrue => exact Or.inl rfl
      case isFalse => exact Or.inr ⟨_, by rw [hp]; rfl, rfl, rfl, ⟨rfl, rfl, rfl⟩⟩
  | fetched ret =>
    simp only [demoStep]
    split
    case h_2 => exact Or.inl rfl
    case h_1 body hp =>
      split <;> exact Or.inr ⟨_, by rw [hp]; rfl, rfl, rfl, SameModel.refl _⟩
  | normalize wild =>
    simp only [demoStep]
    split
    case h_2 => exact Or.inl rfl
    case h_1 bodyLen hp =>
      split
      case h_1 => exact Or.inl rfl
      case h_2 => exact Or.inr ⟨_, by rw [hp]; rfl, rfl, rfl, SameModel.refl _⟩
      case h_3 staging len hnorm =>
        have hlen := (normalizeStaged_delivers (h.staged_at hp).1 (hapart bodyLen hp) hnorm).1
        rw [if_neg (by omega)]
        exact Or.inr ⟨_, by rw [hp]; rfl, rfl, rfl, ⟨rfl, rfl, rfl⟩⟩
  | report =>
    simp only [demoStep]
    split
    case h_2 => exact Or.inl rfl
    case h_1 bodyLen hp => exact Or.inr ⟨_, by rw [hp]; rfl, rfl, rfl, ⟨rfl, rfl, rfl⟩⟩

end Demo

/-! ## The steps of the worker -/

theorem fetching_quiet (h : fetching p = true) :
    pendingSave p = false ∧ ∀ len, p ≠ .installing .save len := by
  cases p with
  | installing point len =>
    cases point with
    | validate => exact ⟨rfl, fun _ heq => by cases heq⟩
    | _ => cases h
  | _ => exact ⟨rfl, fun _ heq => by cases heq⟩

theorem fetching_tried {m : ModelState} (h : fetching p = true) : Tried tflite m p := by
  cases p with
  | installing point len =>
    cases point with
    | validate => trivial
    | _ => cases h
  | _ => trivial

theorem resetOkAfter_worker {a : Act} (h : a.thread = .worker) : resetOkAfter a s = s.resetOk := by
  cases a with
  | reset | copyBuiltin | wrapBuiltin => cases h
  | install t =>
    cases h
    rfl
  | _ => rfl

/-- A step that leaves the demo as it is. -/
theorem actStep_same {a : Act} (hok : resetOkAfter a s = s.resetOk)
    (h : (demoStep tflite (norArea faSize .never).toFlashArea builtin a s.demo).2 = s.demo) :
    actStep tflite faSize builtin a s = s := by
  rw [actStep, h, hok]

theorem FlashInv.worker_act {a : Act} (h : FlashInv tflite builtin s)
    (hapart : StagingApart a s.demo) (hworker : a.thread = .worker)
    (hp : s.demo.phase .worker = p)
    (hphase : (actStep tflite faSize builtin a s).demo.phase
      = Function.update s.demo.phase .worker q)
    (hflash : (actStep tflite faSize builtin a s).demo.model.flash = s.demo.model.flash)
    (hactive : holdsLock (s.demo.phase .command) = true →
      (actStep tflite faSize builtin a s).demo.model.active = s.demo.model.active)
    (hloads : tflite (payload (actStep tflite faSize builtin a s).demo.model.active) = .loaded)
    (htried : Tried tflite (actStep tflite faSize builtin a s).demo.model q)
    (hnosave : ∀ len, p ≠ .installing .save len)
    (hsame : pendingSave q = false → pendingSave p = false ∧
      SameModel s.demo.model (actStep tflite faSize builtin a s).demo.model) :
    FlashInv tflite builtin (actStep tflite faSize builtin a s) := by
  apply h.worker_move hp hphase rfl (resetOkAfter_worker hworker) (demoStep_inv h.base hapart) _
    hflash hactive hloads htried hnosave hsame
  intro huse
  apply demoStep_staging h.base hapart
  rw [hworker]
  exact huse

/-- A step of the worker that leaves the active model and the flash as they are. -/
theorem FlashInv.worker_same {a : Act} (h : FlashInv tflite builtin s)
    (hapart : StagingApart a s.demo) (hworker : a.thread = .worker)
    (hp : s.demo.phase .worker = p)
    (hphase : (actStep tflite faSize builtin a s).demo.phase
      = Function.update s.demo.phase .worker q)
    (hmodel : SameModel s.demo.model (actStep tflite faSize builtin a s).demo.model)
    (htried : Tried tflite (actStep tflite faSize builtin a s).demo.model q)
    (hnosave : ∀ len, p ≠ .installing .save len)
    (hpending : pendingSave q = false → pendingSave p = false) :
    FlashInv tflite builtin (actStep tflite faSize builtin a s) := by
  apply h.worker_act hapart hworker hp hphase hmodel.flash (fun _ => hmodel.active) _ htried hnosave
    (fun hq => ⟨hpending hq, hmodel⟩)
  rw [hmodel.active]
  exact h.loads

theorem fetching_inv {a : Act} (h : FlashInv tflite builtin s) (hapart : StagingApart a s.demo)
    (hworker : a.thread = .worker) (hinstall : ∀ t, a ≠ .install t) :
    FlashInv tflite builtin (actStep tflite faSize builtin a s) := by
  rcases demoStep_fetching h.base hapart hworker hinstall with
    hsame | ⟨q, hfrom, hto, hphase, hmodel⟩
  · rw [actStep_same (resetOkAfter_worker hworker) hsame]
    exact h
  · have hp := fetching_quiet hfrom
    exact h.worker_same hapart hworker rfl hphase hmodel (fetching_tried hto) hp.2 (fun _ => hp.1)

theorem demoStep_install {fa : FlashArea} {d : Demo} {t : Thread} {point : InstallPoint} {len : ℕ}
    (hp : d.phase t = .installing point len) :
    (demoStep tflite fa builtin (.install t) d).2 = installStepAt tflite fa t len d point := by
  simp only [demoStep, hp]

/-- The copy of a valid blob has the payload that was staged. -/
theorem payload_copied {m : ModelState} {len : ℕ} (hvalid : IotvValid m.staging len) :
    payload (copyStaged len m).active = payload m.staging :=
  (hvalid.payload_congr (memcpyFrom_same m.active m.staging len)).symm

/-- What a thread copies has passed its trial. -/
theorem FlashInv.loads_copied {t : Thread} {len : ℕ} (h : FlashInv tflite builtin s)
    (hp : s.demo.phase t = .installing .copy len) :
    tflite (payload (copyStaged len s.demo.model).active) = .loaded := by
  have htried := h.tried t
  rw [hp] at htried
  rw [payload_copied (h.base.staged_at hp).2]
  exact htried

theorem installStepAt_trial (fa : FlashArea) (t : Thread) (len : ℕ) (d : Demo) :
    installStepAt tflite fa t len d .trial =
      { d with model := (trialLoad tflite d.model).2 }.goto t (.installing
        (if (trialLoad tflite d.model).1 = none then .copy else .unlock (-EINVAL)) len) := rfl

theorem tried_trial (m : ModelState) (len : ℕ) : Tried tflite (trialLoad tflite m).2 (.installing
    (if (trialLoad tflite m).1 = none then .copy else .unlock (-EINVAL)) len) := by
  by_cases herr : (trialLoad tflite m).1 = none
  · rw [if_pos herr]
    show tflite (payload (trialLoad tflite m).2.staging) = .loaded
    rw [(trialLoad_unchanged m).2]
    exact LoadResult.error_eq_none.mp ((trialLoad_fst m).symm.trans herr)
  · rw [if_neg herr]
    trivial

/-- A step of the worker's install that leaves the model as it is. -/
theorem FlashInv.worker_quiet {point : InstallPoint} {len : ℕ} (h : FlashInv tflite builtin s)
    (hp : s.demo.phase .worker = .installing point len) (hsave : point ≠ .save)
    (hphase : (actStep tflite faSize builtin (.install .worker) s).demo.phase
      = Function.update s.demo.phase .worker q)
    (hmodel : (actStep tflite faSize builtin (.install .worker) s).demo.model = s.demo.model)
    (htried : Tried tflite s.demo.model q)
    (hpending : pendingSave q = false → pendingSave (.installing point len) = false) :
    FlashInv tflite builtin (actStep tflite faSize builtin (.install .worker) s) := by
  refine h.worker_same trivial rfl hp hphase ?_ ?_ ?_ hpending
  · rw [hmodel]
    exact SameModel.refl _
  · rw [hmodel]
    exact htried
  · intro len' heq
    exact hsave (Phase.installing.inj heq).1

/-- The worker's steps in `install_from_staging`. -/
theorem worker_install {point : InstallPoint} {len : ℕ} (h : FlashInv tflite builtin s)
    (hp : s.demo.phase .worker = .installing point len) (hsave : point ≠ .save) :
    FlashInv tflite builtin (actStep tflite faSize builtin (.install .worker) s) := by
  have hstep : (actStep tflite faSize builtin (.install .worker) s).demo
      = installStepAt tflite (norArea faSize .never).toFlashArea .worker len s.demo point :=
    demoStep_install hp
  have hnosave : ∀ len', Phase.installing point len ≠ .installing .save len' := by
    intro len' heq
    exact hsave (Phase.installing.inj heq).1
  cases point with
  | validate =>
    by_cases hvalid : iotvValidate s.demo.model.staging len = none
    · rw [installStepAt, if_pos hvalid] at hstep
      exact h.worker_quiet hp hsave (congrArg Demo.phase hstep) (by rw [hstep]; rfl) trivial
        fun _ => rfl
    · rw [installStepAt, if_neg hvalid] at hstep
      exact h.worker_quiet hp hsave (congrArg Demo.phase hstep) (by rw [hstep]; rfl) trivial
        fun _ => rfl
  | lock =>
    by_cases hfree : s.demo.lock = none
    · rw [installStepAt, if_pos hfree] at hstep
      exact h.worker_quiet hp hsave (congrArg Demo.phase hstep) (by rw [hstep]; rfl) trivial
        fun _ => rfl
    · rw [installStepAt, if_neg hfree] at hstep
      rw [actStep_same rfl hstep]
      exact h
  | trial =>
    have hmodel : Unchanged s.demo.model (trialLoad tflite s.demo.model).2 :=
      (trialLoad_unchanged s.demo.model).1
    rw [installStepAt_trial] at hstep
    refine h.worker_same trivial rfl hp (congrArg Demo.phase hstep) ?_ ?_ hnosave fun _ => rfl
    · rw [hstep]
      exact ⟨hmodel.active, hmodel.activeLen, hmodel.flash⟩
    · rw [hstep]
      exact tried_trial s.demo.model len
  | copy =>
    rw [installStepAt] at hstep
    refine h.worker_act trivial rfl hp (congrArg Demo.phase hstep) ?_ ?_ ?_ trivial hnosave
      (fun hq => by cases hq)
    · rw [hstep]
      rfl
    · intro hholds
      exact Bool.noConfusion ((h.base.lock_alone hp rfl).symm.trans hholds)
    · rw [hstep]
      exact h.loads_copied hp
  | publish =>
    rw [installStepAt] at hstep
    refine h.worker_act trivial rfl hp (congrArg Demo.phase hstep) ?_ (fun _ => ?_) ?_ trivial
      hnosave (fun hq => by cases hq)
    · rw [hstep]
      rfl
    · rw [hstep]
      rfl
    · rw [hstep]
      exact h.loads
  | unlock ret =>
    rw [installStepAt] at hstep
    refine h.worker_quiet hp hsave (congrArg Demo.phase hstep) (by rw [hstep]; rfl) ?_ ?_
    · split <;> trivial
    · split
      · exact fun hq => by cases hq
      · next hret =>
        intro _
        exact decide_eq_false fun hzero => hret ⟨hzero, rfl⟩
  | save => exact absurd rfl hsave

/-! ## The steps of the command thread -/

theorem FlashInv.command_act {a : Act} (h : FlashInv tflite builtin s)
    (hapart : StagingApart a s.demo) (hcommand : a.thread = .command)
    (hphase : (actStep tflite faSize builtin a s).demo.phase
      = Function.update s.demo.phase .command q)
    (hloads : tflite (payload (actStep tflite faSize builtin a s).demo.model.active) = .loaded)
    (htried : Tried tflite (actStep tflite faSize builtin a s).demo.model q)
    (hreset : ResetKnows builtin (actStep tflite faSize builtin a s).demo.model q)
    (hnew : resetting q = true → s.saving = none ∧ resetOkAfter a s = false)
    (hsame : s.saving = none ∨
      SameModel s.demo.model (actStep tflite faSize builtin a s).demo.model)
    (hagrees : (resetOkAfter a s = true ∨ ∃ len, q = .installing (.unlock 0) len) →
      pendingSave (s.demo.phase .worker) = false →
      Agrees builtin (actStep tflite faSize builtin a s).demo.model) :
    FlashInv tflite builtin (actStep tflite faSize builtin a s) := by
  apply h.command_move hphase rfl (demoStep_inv h.base hapart) _ hloads htried hreset hnew hsame
    hagrees
  intro huse
  apply demoStep_staging h.base hapart
  rw [hcommand]
  exact huse

/-- A step inside a reset that leaves the active model and the flash as they are. -/
theorem FlashInv.resetting_act {a : Act} (h : FlashInv tflite builtin s)
    (hapart : StagingApart a s.demo) (hcommand : a.thread = .command)
    (hresetting : resetting (s.demo.phase .command) = true) (hok : resetOkAfter a s = s.resetOk)
    (hphase : (actStep tflite faSize builtin a s).demo.phase
      = Function.update s.demo.phase .command q)
    (hmodel : SameModel s.demo.model (actStep tflite faSize builtin a s).demo.model)
    (htried : Tried tflite (actStep tflite faSize builtin a s).demo.model q)
    (hreset : ResetKnows builtin (actStep tflite faSize builtin a s).demo.model q)
    (hdone : ∀ len, q ≠ .installing (.unlock 0) len) :
    FlashInv tflite builtin (actStep tflite faSize builtin a s) := by
  obtain ⟨hsaving, hfalse⟩ := h.apart hresetting
  refine h.command_act hapart hcommand hphase ?_ htried hreset
    (fun _ => ⟨hsaving, hok.trans hfalse⟩) (Or.inl hsaving) ?_
  · rw [hmodel.active]
    exact h.loads
  · rintro (htrue | ⟨len, hq⟩)
    · exact Bool.noConfusion ((hok.trans hfalse).symm.trans htrue)
    · exact absurd hq (hdone len)

theorem FlashInv.resetKnows_at (h : FlashInv tflite builtin s) (hp : s.demo.phase .command = p) :
    ResetKnows builtin s.demo.model p := by
  rw [← hp]
  exact h.reset

/-- A reset erases the flash copy, while no save is going on. -/
theorem reset_inv (h : FlashInv tflite builtin s)
    (hapart : s.demo.phase .command = .idle → s.saving = none) :
    FlashInv tflite builtin (actStep tflite faSize builtin .reset s) := by
  by_cases hp : s.demo.phase .command = .idle
  · have hstep : (actStep tflite faSize builtin .reset s).demo = { s.demo with model :=
        { s.demo.model with flash := (modelStoreErase (norArea faSize .never).toFlashArea
          s.demo.model.flash).2 } }.goto .command .erased := by
      simp only [actStep, demoStep, hp]
    have hok : resetOkAfter .reset s = false := by simp only [resetOkAfter, hp]
    refine h.command_act trivial rfl (congrArg Demo.phase hstep) ?_ trivial ?_
      (fun _ => ⟨hapart hp, hok⟩) (Or.inl (hapart hp)) ?_
    · rw [hstep]
      exact h.loads
    · rw [hstep]
      exact magic_erased s.demo.model.flash (by decide)
    · rintro (htrue | ⟨len, hq⟩)
      · exact Bool.noConfusion (hok.symm.trans htrue)
      · cases hq
  · have hstep : (demoStep tflite (norArea faSize .never).toFlashArea builtin .reset s.demo).2
        = s.demo := by
      simp only [demoStep]
    have hok : resetOkAfter .reset s = s.resetOk := by
      unfold resetOkAfter
      split
      · next hidle => exact absurd hidle hp
      · next hinstall _ => cases hinstall
      · rfl
    rw [actStep_same hok hstep]
    exact h

theorem copyBuiltin_flashInv (h : FlashInv tflite builtin s)
    (hapart : StagingApart .copyBuiltin s.demo) :
    FlashInv tflite builtin (actStep tflite faSize builtin .copyBuiltin s) := by
  by_cases hp : s.demo.phase .command = .erased
  · have hstep : (actStep tflite faSize builtin .copyBuiltin s).demo = { s.demo with model :=
        { s.demo.model with staging := patch s.demo.model.staging hdrLen builtin } }.goto .command
          .builtinCopied := by
      simp only [actStep, demoStep, hp]
    have hknows : NoImage s.demo.model.flash := h.resetKnows_at hp
    refine h.resetting_act hapart rfl (by rw [hp]; rfl) rfl (congrArg Demo.phase hstep) ?_
      trivial ?_ fun _ heq => by cases heq
    · rw [hstep]
      exact ⟨rfl, rfl, rfl⟩
    · rw [hstep]
      exact hknows
  · have hstep : (demoStep tflite (norArea faSize .never).toFlashArea builtin .copyBuiltin s.demo).2
        = s.demo := by
      simp only [demoStep]
    rw [actStep_same rfl hstep]
    exact h

theorem wrapBuiltin_flashInv (h : FlashInv tflite builtin s) :
    FlashInv tflite builtin (actStep tflite faSize builtin .wrapBuiltin s) := by
  by_cases hp : s.demo.phase .command = .builtinCopied
  · have hstep : (actStep tflite faSize builtin .wrapBuiltin s).demo = { s.demo with model :=
        { s.demo.model with
          staging := iotvWrapInPlace s.demo.model.staging builtin.length 1 builtinName } }.goto
        .command (.installing .validate (hdrLen + builtin.length)) := by
      simp only [actStep, demoStep, hp]
    have hknows : NoImage s.demo.model.flash := h.resetKnows_at hp
    refine h.resetting_act trivial rfl (by rw [hp]; rfl) rfl (congrArg Demo.phase hstep) ?_
      trivial ?_ fun _ heq => by cases heq
    · rw [hstep]
      exact ⟨rfl, rfl, rfl⟩
    · rw [hstep]
      exact ⟨hknows, bytesAt_wrapBuiltin (h.base.staged_at hp)⟩
  · have hstep : (demoStep tflite (norArea faSize .never).toFlashArea builtin .wrapBuiltin s.demo).2
        = s.demo := by
      simp only [demoStep]
    rw [actStep_same rfl hstep]
    exact h

theorem resetOkAfter_install {point : InstallPoint} {len : ℕ}
    (hp : s.demo.phase .command = .installing point len) (h : ∀ ret, point ≠ .unlock ret) :
    resetOkAfter (.install .command) s = s.resetOk := by
  cases point with
  | unlock ret => exact absurd rfl (h ret)
  | _ => simp only [resetOkAfter, hp]

/-- A step of a reset's install that leaves the model as it is. -/
theorem FlashInv.resetting_same {point : InstallPoint} {len : ℕ} (h : FlashInv tflite builtin s)
    (hp : s.demo.phase .command = .installing point len) (hpoint : ∀ ret, point ≠ .unlock ret)
    (hresetting : resetting (.installing point len) = true)
    (hphase : (actStep tflite faSize builtin (.install .command) s).demo.phase
      = Function.update s.demo.phase .command q)
    (hmodel : (actStep tflite faSize builtin (.install .command) s).demo.model = s.demo.model)
    (htried : Tried tflite s.demo.model q) (hreset : ResetKnows builtin s.demo.model q)
    (hdone : ∀ len, q ≠ .installing (.unlock 0) len) :
    FlashInv tflite builtin (actStep tflite faSize builtin (.install .command) s) := by
  refine h.resetting_act trivial rfl (by rw [hp]; exact hresetting)
    (resetOkAfter_install hp hpoint) hphase ?_ ?_ ?_ hdone
  · rw [hmodel]
    exact SameModel.refl _
  · rw [hmodel]
    exact htried
  · rw [hmodel]
    exact hreset

/-- The command thread's steps in `install_from_staging`. -/
theorem command_install {point : InstallPoint} {len : ℕ} (h : FlashInv tflite builtin s)
    (hp : s.demo.phase .command = .installing point len) :
    FlashInv tflite builtin (actStep tflite faSize builtin (.install .command) s) := by
  have hstep : (actStep tflite faSize builtin (.install .command) s).demo
      = installStepAt tflite (norArea faSize .never).toFlashArea .command len s.demo point :=
    demoStep_install hp
  have hknows := h.resetKnows_at hp
  cases point with
  | validate =>
    have hpoint : ∀ ret, InstallPoint.validate ≠ .unlock ret := fun _ heq => by cases heq
    by_cases hvalid : iotvValidate s.demo.model.staging len = none
    · rw [installStepAt, if_pos hvalid] at hstep
      exact h.resetting_same hp hpoint rfl (congrArg Demo.phase hstep) (by rw [hstep]; rfl)
        trivial hknows fun _ heq => by cases heq
    · rw [installStepAt, if_neg hvalid] at hstep
      exact h.resetting_same hp hpoint rfl (congrArg Demo.phase hstep) (by rw [hstep]; rfl)
        trivial trivial fun _ heq => by cases heq
  | lock =>
    have hpoint : ∀ ret, InstallPoint.lock ≠ .unlock ret := fun _ heq => by cases heq
    by_cases hfree : s.demo.lock = none
    · rw [installStepAt, if_pos hfree] at hstep
      exact h.resetting_same hp hpoint rfl (congrArg Demo.phase hstep) (by rw [hstep]; rfl)
        trivial hknows fun _ heq => by cases heq
    · rw [installStepAt, if_neg hfree] at hstep
      rw [actStep_same (resetOkAfter_install hp hpoint) hstep]
      exact h
  | trial =>
    have hok := resetOkAfter_install hp fun _ heq => by cases heq
    have hmodel : Unchanged s.demo.model (trialLoad tflite s.demo.model).2 :=
      (trialLoad_unchanged s.demo.model).1
    have hstaging : (trialLoad tflite s.demo.model).2.staging = s.demo.model.staging :=
      (trialLoad_unchanged s.demo.model).2
    rw [installStepAt_trial] at hstep
    refine h.resetting_act trivial rfl (by rw [hp]; rfl) hok (congrArg Demo.phase hstep) ?_ ?_ ?_ ?_
    · rw [hstep]
      exact ⟨hmodel.active, hmodel.activeLen, hmodel.flash⟩
    · rw [hstep]
      exact tried_trial s.demo.model len
    · rw [hstep]
      split
      · show NoImage (trialLoad tflite s.demo.model).2.flash ∧
          bytesAt (trialLoad tflite s.demo.model).2.staging 0 len = builtinBlob builtin
        rw [hmodel.flash, hstaging]
        exact hknows
      · trivial
    · intro len'
      split <;> intro heq <;> cases heq
  | copy =>
    have hok := resetOkAfter_install hp fun _ heq => by cases heq
    obtain ⟨hsaving, hfalse⟩ := h.apart (by rw [hp]; rfl)
    have hcopied : bytesAt (copyStaged len s.demo.model).active 0 len
        = bytesAt s.demo.model.staging 0 len :=
      bytesAt_congr fun i _ hi =>
        (memcpyFrom_same s.demo.model.active s.demo.model.staging len i (by omega)).symm
    rw [installStepAt] at hstep
    refine h.command_act trivial rfl (congrArg Demo.phase hstep) ?_ trivial ?_
      (fun _ => ⟨hsaving, hok.trans hfalse⟩) (Or.inl hsaving) ?_
    · rw [hstep]
      exact h.loads_copied hp
    · rw [hstep]
      exact ⟨hknows.1, hcopied.trans hknows.2⟩
    · rintro (htrue | ⟨len', hq⟩)
      · exact Bool.noConfusion ((hok.trans hfalse).symm.trans htrue)
      · cases hq
  | publish =>
    obtain ⟨hsaving, -⟩ := h.apart (by rw [hp]; rfl)
    rw [installStepAt] at hstep
    refine h.command_act trivial rfl (congrArg Demo.phase hstep) ?_ trivial trivial
      (fun hq => by cases hq) (Or.inl hsaving) ?_
    · rw [hstep]
      exact h.loads
    · rw [hstep]
      -- the built-in model is active, and the flash is still empty
      exact fun _ _ => Or.inl hknows
  | unlock ret =>
    rw [installStepAt] at hstep
    have hidle : (if ret = 0 ∧ Thread.command.persist = true then Phase.installing .save len
        else Phase.idle) = .idle := if_neg fun hpersist => by cases hpersist.2
    rw [hidle] at hstep
    refine h.command_act trivial rfl (congrArg Demo.phase hstep) ?_ trivial trivial
      (fun hq => by cases hq) ?_ ?_
    · rw [hstep]
      exact h.loads
    · right
      rw [hstep]
      exact SameModel.refl _
    · rw [hstep]
      rintro (htrue | ⟨len', hq⟩) hpending
      · refine h.agrees ?_ hpending
        by_cases hret : ret = 0
        · right
          exact ⟨len, by rw [hp, hret]⟩
        · left
          rw [← htrue]
          simp only [resetOkAfter, hp, if_neg hret]
      · cases hq
  | save => exact absurd hknows id

end Inv

end IotcDemos.Vision
