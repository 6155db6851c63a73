import IotcDemos.Vision.ResetInv

set_option autoImplicit false

/-! # A reset survives a reboot, if no save overlaps it

The steps of a save, and the runs of the two threads. -/

namespace IotcDemos.Vision

section Inv

variable {tflite : Bytes → LoadResult} {faSize : ℕ} {builtin : Bytes} {s : FlashDemo}

/-! ## The steps of a save -/

theorem StagingInv.setFlash (h : StagingInv builtin s.demo) (flash : Mem) :
    StagingInv builtin (s.setFlash flash).demo :=
  ⟨h.alone, fun t => (h.staged t).frame (List.Subset.refl _) (fun _ => rfl) (fun _ => rfl),
    h.locked, fun hpub => (h.sound hpub).frame (List.Subset.refl _) rfl rfl⟩

/-- While a save is going on, no reset is, and the active model is sound. -/
theorem FlashInv.saving_apart (h : FlashInv tflite builtin s) {point : SavePoint}
    (hpoint : s.saving = some point) :
    resetting (s.demo.phase .command) = false ∧ ActiveSound builtin s.demo := by
  have hapart : resetting (s.demo.phase .command) = false := by
    cases hresetting : resetting (s.demo.phase .command) with
    | false => rfl
    | true =>
      have hnone := (h.apart hresetting).1
      rw [hpoint] at hnone
      cases hnone
  obtain ⟨⟨len, hworker⟩, -⟩ := h.saving point hpoint
  refine ⟨hapart, h.base.sound fun t len' hpub => ?_⟩
  cases t with
  | worker => cases hworker.symm.trans hpub
  -- a reset would be going on
  | command =>
    rw [hpub] at hapart
    cases hapart

/-- A step of a save: it changes the flash only, and the worker stays where it is. -/
theorem FlashInv.save_step (h : FlashInv tflite builtin s) {point point' : SavePoint} {flash : Mem}
    (hpoint : s.saving = some point)
    (hknows : SaveKnows (s.setFlash flash).demo point') :
    FlashInv tflite builtin { s.setFlash flash with saving := some point' } := by
  obtain ⟨hapart, -⟩ := h.saving_apart hpoint
  obtain ⟨⟨len, hworker⟩, -⟩ := h.saving point hpoint
  constructor
  · exact h.base.setFlash flash
  · exact h.loads
  · exact fun t => (h.tried t).frame fun _ => rfl
  · exact h.reset.frame (fun hresetting => Bool.noConfusion (hapart.symm.trans hresetting))
      (fun _ => rfl) (fun _ => rfl)
  · intro hresetting
    exact Bool.noConfusion (hapart.symm.trans hresetting)
  · intro p hp
    cases hp
    exact ⟨⟨len, hworker⟩, hknows⟩
  · intro _ hpending
    have hsave : pendingSave (s.demo.phase .worker) = true := by rw [hworker]; rfl
    exact Bool.noConfusion (hsave.symm.trans hpending)

/-- The call of a save, outside of a reset. -/
theorem saveCall_inv (h : FlashInv tflite builtin s) (hapart : SaveApart .saveCall s) :
    FlashInv tflite builtin (flashStep tflite faSize builtin .saveCall s).2 := by
  simp only [flashStep]
  split
  case h_2 => exact h
  case h_1 len hworker hnone =>
    have hquiet := hapart ⟨hnone, len, hworker⟩
    constructor
    · exact h.base
    · exact h.loads
    · exact h.tried
    · exact h.reset
    · intro hresetting
      exact Bool.noConfusion (hquiet.symm.trans hresetting)
    · intro p hp
      cases hp
      exact ⟨⟨len, hworker⟩, rfl⟩
    · exact h.agrees

theorem saveErase_inv (hsize : modelMaxBlob ≤ faSize) (h : FlashInv tflite builtin s) :
    FlashInv tflite builtin (flashStep tflite faSize builtin .saveErase s).2 := by
  simp only [flashStep]
  split
  case h_2 => exact h
  case h_1 len hpoint =>
    have hlen : len = s.demo.model.activeLen := (h.saving _ hpoint).2
    have hvalid := (h.saving_apart hpoint).2.valid
    have hfits : len ≤ modelMaxBlob := by
      rw [hlen]
      exact (ValidBlob.mk _ _ hvalid).len_le
    have hbounds := eraseLen_bounds hfits
    -- a valid blob fits the partition
    rw [if_neg (by omega)]
    refine h.save_step hpoint ⟨hlen, Nat.zero_le _, rfl, fun i _ hi => ?_⟩
    exact NorFlash.erase_inside flashSector s.demo.model.flash (by omega)

/-- Writing goes on behind what has been written. -/
theorem saveWrite_inv {n : ℕ} (h : FlashInv tflite builtin s) :
    FlashInv tflite builtin (flashStep tflite faSize builtin (.saveWrite n) s).2 := by
  simp only [flashStep]
  split
  case h_2 => exact h
  case h_1 len done hpoint =>
    obtain ⟨hlen, hdone, hprefix, herased⟩ := (h.saving _ hpoint).2
    have hchunk : (bytesAt s.model.active done (min n (len - done))).length = min n (len - done) :=
      bytesAt_length _ _ _
    -- the bytes that are written were erased
    have hblank : ∀ i, done ≤ i →
        i < done + (bytesAt s.model.active done (min n (len - done))).length →
        s.demo.model.flash i = 0xFF := by
      intro i hlo hhi
      exact herased i hlo (by omega)
    refine h.save_step hpoint ⟨hlen, by omega, ?_, fun i hlo hhi => ?_⟩
    · have hfront : bytesAt (NorFlash.program done
          (bytesAt s.model.active done (min n (len - done))) s.demo.model.flash) 0 done
          = bytesAt s.demo.model.flash 0 done :=
        bytesAt_congr fun i _ hi => NorFlash.program_outside _ (Or.inl (by omega))
      have hback := NorFlash.bytesAt_program hblank
      show bytesAt (NorFlash.program _ _ _) 0 (done + _) = bytesAt s.demo.model.active 0 (done + _)
      rw [bytesAt_append, bytesAt_append, Nat.zero_add]
      exact congrArg₂ (· ++ ·) (hfront.trans hprefix) (hback.trans (by rw [hchunk]; rfl))
    · refine (NorFlash.program_outside s.demo.model.flash (Or.inr hlo)).trans ?_
      exact herased i (by omega) hhi

/-- A save that is done has left the active model in flash. -/
theorem saveDone_inv (h : FlashInv tflite builtin s) :
    FlashInv tflite builtin (flashStep tflite faSize builtin .saveDone s).2 := by
  simp only [flashStep]
  split
  case h_2 => exact h
  case h_1 len done hpoint =>
    split
    case isFalse => exact h
    case isTrue hend =>
      obtain ⟨⟨len', hworker⟩, hlen, -, hprefix, -⟩ := h.saving _ hpoint
      have hapart := (h.saving_apart hpoint).1
      have hcommand : (s.demo.goto .worker .idle).phase .command = s.demo.phase .command := by
        show Function.update s.demo.phase .worker .idle .command = _
        exact Function.update_of_ne (by decide) _ _
      have hidle : (s.demo.goto .worker .idle).phase .worker = .idle := by
        show Function.update s.demo.phase .worker .idle .worker = _
        exact Function.update_self _ _ _
      constructor
      · exact h.base.goto hworker (fun huse => by cases huse) trivial rfl rfl
      · exact h.loads
      · intro t
        cases t with
        | worker =>
          show Tried _ _ ((s.demo.goto .worker .idle).phase .worker)
          rw [hidle]
          trivial
        | command =>
          show Tried _ _ ((s.demo.goto .worker .idle).phase .command)
          rw [hcommand]
          exact h.tried .command
      · show ResetKnows _ _ ((s.demo.goto .worker .idle).phase .command)
        rw [hcommand]
        exact h.reset
      · intro hresetting
        rw [hcommand] at hresetting
        exact Bool.noConfusion (hapart.symm.trans hresetting)
      · intro p hp
        cases hp
      · intro _ _
        right
        -- all of the active model has been written
        show bytesAt s.demo.model.flash 0 s.demo.model.activeLen
          = bytesAt s.demo.model.active 0 s.demo.model.activeLen
        rw [← hlen, ← hend]
        exact hprefix

/-! ## Runs -/

theorem flashStep_inv (hsize : modelMaxBlob ≤ faSize) {a : FlashAct}
    (h : FlashInv tflite builtin s) (hapart : SaveApart a s) :
    FlashInv tflite builtin (flashStep tflite faSize builtin a s).2 := by
  cases a with
  | saveCall => exact saveCall_inv h hapart
  | saveErase => exact saveErase_inv hsize h
  | saveWrite n => exact saveWrite_inv h
  | saveDone => exact saveDone_inv h
  | act a =>
    simp only [flashStep]
    split
    case isTrue => exact h
    case isFalse hsave =>
      cases a with
      | reset => exact reset_inv h (hapart.2 rfl)
      | copyBuiltin => exact copyBuiltin_flashInv h hapart.1
      | wrapBuiltin => exact wrapBuiltin_flashInv h
      | install t =>
        cases hp : s.demo.phase t with
        | installing point len =>
          cases t with
          | command => exact command_install h hp
          | worker =>
            apply worker_install h hp
            -- the save of `demoStep` is not taken here
            rintro rfl
            exact hsave (by simp only [isSave, hp])
        | _ =>
          have hstay : (demoStep tflite (norArea faSize .never).toFlashArea builtin (.install t)
              s.demo).2 = s.demo := by
            simp only [demoStep, hp]
          have hok : resetOkAfter (.install t) s = s.resetOk := by
            cases t <;> simp only [resetOkAfter, hp]
          rw [actStep_same hok hstay]
          exact h
      -- the other steps are those of a fetch
      | _ => exact fetching_inv h hapart.1 rfl fun _ heq => by cases heq

end Inv

theorem FlashStarted.inv {tflite : Bytes → LoadResult} {builtin : Bytes} {s : FlashDemo}
    (h : FlashStarted tflite builtin s) : FlashInv tflite builtin s := by
  have hidle := h.started.idle
  constructor
  · exact h.started.inv
  · exact h.loads
  · intro t
    rw [hidle t]
    trivial
  · rw [hidle .command]
    trivial
  · rw [hidle .command]
    exact fun hresetting => by cases hresetting
  · intro point hpoint
    rw [h.saving] at hpoint
    cases hpoint
  · rintro (htrue | ⟨len, hunlock⟩)
    · exact Bool.noConfusion (h.resetOk.symm.trans htrue)
    · exact absurd ((hidle .command).symm.trans hunlock) fun heq => by cases heq

/-- **A reset survives a reboot.** In every run in which no save overlaps the part of a reset from
its erase to its commit, and the threads keep apart in `model_staging`: when both threads wait and
the last reset has been acknowledged, a reboot activates the model that is active, the built-in one
or a download that was installed since. -/
theorem reset_survives_reboot (tflite : Bytes → LoadResult) (builtin : Bytes) {faSize : ℕ}
    (hsize : modelMaxBlob ≤ faSize) (s0 : FlashDemo) (hstart : FlashStarted tflite builtin s0)
    (acts : List FlashAct) (hapart : Along (flashStep tflite faSize builtin) SaveApart acts s0) :
    let s := runState (flashStep tflite faSize builtin) acts s0
    (∀ t, s.demo.phase t = .idle) → s.resetOk = true →
      Origin builtin s.demo.bodies s.model.blob ∧ ∀ ram : ModelState, ram.flash = s.model.flash →
        ∃ m, bootModel tflite (norArea faSize .never) builtin ram = some m ∧
          m.blob = s.model.blob := by
  intro s hidle hok
  have hinv : FlashInv tflite builtin s :=
    (trace_inv_along (fun _ _ hstep h => flashStep_inv hsize h hstep) hapart hstart.inv).2
  -- no thread is between the two halves of a commit
  have hsound : ActiveSound builtin s.demo := by
    apply hinv.base.sound
    intro t len hpub
    cases (hidle t).symm.trans hpub
  have hagrees : Agrees builtin s.demo.model :=
    hinv.agrees (Or.inl hok) (by rw [hidle .worker]; rfl)
  exact ⟨hsound.origin, fun ram hflash => boot_agrees hsound.valid hinv.loads hagrees hflash⟩

deriving instance DecidableEq for InstallPoint

deriving instance DecidableEq for Phase

/-- The small demo, with an empty flash. -/
def flashRuns : FlashDemo := ⟨runsBuiltin, none, false⟩

theorem flashRuns_started : FlashStarted schemaOnly smallBuiltin flashRuns :=
  ⟨runsBuiltin_started, by decide +kernel, rfl, rfl⟩

/-- The worker fetches the small download. -/
def fetchSmall : List FlashAct :=
  [.act .fetch, .act (.recv smallDownload), .act (.fetched 0), .act (.normalize blank)]

/-- The worker installs what it has fetched, and saves it. -/
def installAndSave : List FlashAct :=
  List.replicate 6 (.act (.install .worker)) ++ [.saveCall, .saveErase, .saveWrite 44, .saveDone]

/-- The command thread installs the built-in model. -/
def installReset : List FlashAct :=
  [.act .copyBuiltin, .act .wrapBuiltin] ++ List.replicate 6 (.act (.install .command))

/-- The worker is done before the reset begins. -/
def savedThenReset : List FlashAct :=
  fetchSmall ++ installAndSave ++ .act .reset :: installReset

/-- The worker installs and saves between the erase of the reset and its commit. -/
def savedInReset : List FlashAct :=
  fetchSmall ++ .act .reset :: installAndSave ++ installReset

/-- A run of the small demo, on a flash of 7 MiB. -/
def flashRun (acts : List FlashAct) : FlashDemo :=
  runState (flashStep schemaOnly (7 * 1024 * 1024) smallBuiltin) acts flashRuns

theorem saveApart_install (t : Thread) (s : FlashDemo) : SaveApart (.act (.install t)) s :=
  ⟨trivial, fun h => by cases h⟩

theorem reset_survives_reboot_in_turn :
    ∃ m, bootModel schemaOnly (norArea (7 * 1024 * 1024) .never) smallBuiltin
        (flashRun savedThenReset).model = some m ∧
      m.blob = (flashRun savedThenReset).model.blob := by
  have hapart : Along (flashStep schemaOnly (7 * 1024 * 1024) smallBuiltin) SaveApart
      savedThenReset flashRuns := by
    refine ⟨⟨trivial, fun h => by cases h⟩, ⟨fun _ _ _ => rfl, fun h => by cases h⟩,
      ⟨trivial, fun h => by cases h⟩,
      ⟨fun _ _ => noCarriedIotv_of_no_archive ?_, fun h => by cases h⟩, saveApart_install _ _,
      saveApart_install _ _, saveApart_install _ _, saveApart_install _ _, saveApart_install _ _,
      saveApart_install _ _, fun _ => ?_, trivial, trivial, trivial, ⟨trivial, fun _ _ => ?_⟩,
      ⟨fun _ => ?_, fun h => by cases h⟩, ⟨trivial, fun h => by cases h⟩, saveApart_install _ _,
      saveApart_install _ _, saveApart_install _ _, saveApart_install _ _, saveApart_install _ _,
      saveApart_install _ _, trivial⟩ <;> decide +kernel
  exact (reset_survives_reboot schemaOnly smallBuiltin (by decide) flashRuns flashRuns_started
    savedThenReset hapart (fun t => by cases t <;> decide +kernel) (by decide +kernel)).2 _ rfl

/-- The reset is acknowledged and the built-in model is active, and a reboot activates the
download. -/
theorem reset_undone_by_save : FlashStarted schemaOnly smallBuiltin flashRuns ∧
    (flashRun savedInReset).demo.phase .worker = .idle ∧
      (flashRun savedInReset).demo.phase .command = .idle ∧
      (flashRun savedInReset).resetOk = true ∧
      (flashRun savedInReset).model.blob = builtinBlob smallBuiltin ∧
      (bootModel schemaOnly (norArea (7 * 1024 * 1024) .never) smallBuiltin
        (flashRun savedInReset).model).map ModelState.blob = some (wrapRaw smallDownload) ∧
      wrapRaw smallDownload ≠ builtinBlob smallBuiltin :=
  ⟨flashRuns_started, by decide +kernel, by decide +kernel, by decide +kernel, by decide +kernel,
    by decide +kernel, by decide +kernel⟩

end IotcDemos.Vision
