import IotcDemos.Vision.Flash
import IotcDemos.Vision.Staging

set_option autoImplicit false

/-! # `model-reset` and the flash copy

The worker saves the active model after it has released the lock, and `model-reset` erases the
flash copy before it takes the lock. Here a save is not one step: it erases, and then writes what
it reads from `model_active` piece by piece, while the command thread goes on. A reset is
acknowledged when it has installed the built-in model.

If no save overlaps the part of a reset from its erase to its commit (`SaveApart`), a reboot after
an acknowledged reset activates the model that was active (`reset_survives_reboot`). If the worker
saves in between, the download comes back (`reset_undone_by_save`).
-/

namespace IotcDemos.Vision

/-! ## Booting -/

section Boot

variable (tflite : Bytes → LoadResult) (fa : ReadableArea) (builtin : Bytes)

/-- What `install_builtin` puts into `model_staging`. -/
def stageBuiltin (staging : Mem) : Mem :=
  iotvWrapInPlace (patch staging hdrLen builtin) builtin.length 1 builtinName

/-- `install_builtin`. -/
def installBuiltin (s : ModelState) : (ℤ × Bytes) × ModelState :=
  installFromStaging tflite fa.toFlashArea (hdrLen + builtin.length) (ascii "builtin") false
    { s with staging := stageBuiltin builtin s.staging }

/-- What `main` makes of the flash copy: it is restored, or the built-in model is installed.
`none` if that fails as well. -/
def bootModel (s : ModelState) : Option ModelState :=
  let (ret, staging, stored) := modelStoreLoad fa s.staging modelMaxBlob s.flash
  let s := { s with staging := staging }
  let (restored, s) :=
    if ret = 0 then
      let (r, s) := installFromStaging tflite fa.toFlashArea (stored.getD 0) (ascii "flash") false s
      (r.1 = 0, s)
    else (false, s)
  -- without a usable copy the built-in model is installed
  if restored then some s
  else
    let (r, s) := installBuiltin tflite fa builtin s
    if r.1 = 0 then some s else none

end Boot

/-! ## Saving piece by piece -/

/-- How far the worker is in `model_store_save`. -/
inductive SavePoint where
  /-- It has been called with a length. -/
  | called (len : ℕ)
  /-- It has erased the sectors and written `done` bytes. -/
  | writing (len done : ℕ)
  deriving DecidableEq

structure FlashDemo where
  demo : Demo
  saving : Option SavePoint
  /-- The last `model-reset` has been acknowledged as successful. -/
  resetOk : Bool

def FlashDemo.model (s : FlashDemo) : ModelState := s.demo.model

def FlashDemo.setFlash (s : FlashDemo) (flash : Mem) : FlashDemo :=
  { s with demo := { s.demo with model := { s.demo.model with flash := flash } } }

inductive FlashAct where
  /-- A step of either thread, other than the save. -/
  | act (a : Act)
  | saveCall
  /-- The worker opens the partition and erases. -/
  | saveErase
  /-- The flash driver writes up to `n` more bytes. -/
  | saveWrite (n : ℕ)
  | saveDone

/-- The worker is about to save, and has not begun to. -/
def SaveDue (s : FlashDemo) : Prop :=
  s.saving = none ∧ ∃ len, s.demo.phase .worker = .installing .save len

/-- The step is the save of `demoStep`, all in one. -/
def isSave (a : Act) (s : Demo) : Bool :=
  match a, s.phase .worker with
  | .install .worker, .installing .save _ => true
  | _, _ => false

/-- `resetOk` after a step: a new reset clears it, and a successful return sets it. -/
def resetOkAfter (a : Act) (s : FlashDemo) : Bool :=
  match a, s.demo.phase .command with
  | .reset, .idle => false
  | .install .command, .installing (.unlock ret) _ => if ret = 0 then true else s.resetOk
  | _, _ => s.resetOk

section Step

variable (tflite : Bytes → LoadResult) (faSize : ℕ) (builtin : Bytes)

def actStep (a : Act) (s : FlashDemo) : FlashDemo :=
  { s with
    demo := (demoStep tflite (norArea faSize .never).toFlashArea builtin a s.demo).2
    resetOk := resetOkAfter a s }

def flashStep : FlashAct → FlashDemo → Unit × FlashDemo
  | .act a, s => ((), if isSave a s.demo then s else actStep tflite faSize builtin a s)
  | .saveCall, s =>
      match s.demo.phase .worker, s.saving with
      | .installing .save _, none => ((), { s with saving := some (.called s.model.activeLen) })
      | _, _ => ((), s)
  | .saveErase, s =>
      match s.saving with
      | some (.called len) =>
          if eraseLen len > faSize then
            ((), { s with demo := s.demo.goto .worker .idle, saving := none })
          else
            ((), { s.setFlash (NorFlash.erase flashSector (eraseLen len) s.model.flash) with
              saving := some (.writing len 0) })
      | _ => ((), s)
  | .saveWrite n, s =>
      match s.saving with
      | some (.writing len done) =>
          let chunk := bytesAt s.model.active done (min n (len - done))
          ((), { s.setFlash (NorFlash.program done chunk s.model.flash) with
            saving := some (.writing len (done + chunk.length)) })
      | _ => ((), s)
  | .saveDone, s =>
      match s.saving with
      | some (.writing len done) =>
          if done = len then ((), { s with demo := s.demo.goto .worker .idle, saving := none })
          else ((), s)
      | _ => ((), s)

end Step

/-- The command thread has erased the flash copy and not yet committed the built-in model. -/
def resetting : Phase → Bool
  | .erased => true
  | .builtinCopied => true
  | .installing (.unlock _) _ => false
  | .installing .save _ => false
  | .installing _ _ => true
  | _ => false

/-- No save overlaps a reset, and the threads keep apart in `model_staging`. -/
def SaveApart : FlashAct → FlashDemo → Prop
  | .act a, s => StagingApart a s.demo ∧
      (a = .reset → s.demo.phase .command = .idle → s.saving = none)
  | .saveCall, s => SaveDue s → resetting (s.demo.phase .command) = false
  | _, _ => True

/-- A demo that runs a sound model, with both threads waiting and no reset so far. -/
structure FlashStarted (tflite : Bytes → LoadResult) (builtin : Bytes) (s : FlashDemo) : Prop where
  started : Started builtin s.demo
  loads : tflite (payload s.model.active) = .loaded
  saving : s.saving = none
  resetOk : s.resetOk = false

/-! ## What a boot makes of the flash -/

/-- There is no header in flash. -/
def NoImage (flash : Mem) : Prop := (iotvHdr flash).magic ≠ iotvMagic

/-- The flash copy leads a boot to the active model. -/
def Agrees (builtin : Bytes) (m : ModelState) : Prop :=
  (NoImage m.flash ∧ m.blob = builtinBlob builtin) ∨ bytesAt m.flash 0 m.activeLen = m.blob

section Boot

variable {tflite : Bytes → LoadResult} {faSize : ℕ} {builtin : Bytes} {fa : FlashArea}

theorem payload_of_bytes {buf buf' : Mem} {len : ℕ} (h : IotvValid buf len)
    (hsame : bytesAt buf' 0 len = bytesAt buf 0 len) : payload buf' = payload buf := by
  apply (h.of_bytes hsame).payload_congr
  intro i hi
  have hbyte := congrArg (byteAt · i) hsame
  simpa only [byteAt_bytesAt _ 0 hi, Nat.zero_add] using hbyte

/-- A staged copy of a valid blob that loads is installed. -/
theorem installFromStaging_copy {s : ModelState} {active : Mem} {len : ℕ} (src : Bytes)
    (hvalid : IotvValid active len) (hloads : tflite (payload active) = .loaded)
    (hstaged : bytesAt s.staging 0 len = bytesAt active 0 len) :
    (installFromStaging tflite fa len src false s).1.1 = 0 ∧
      (installFromStaging tflite fa len src false s).2.blob = bytesAt active 0 len := by
  have hv : iotvValidate s.staging len = none :=
    iotvValidate_eq_none.mpr (hvalid.of_bytes hstaged)
  have htrial : (trialLoad tflite s).1 = none := by
    rw [trialLoad_fst, payload_of_bytes hvalid hstaged, hloads]
    rfl
  have hstaging : (trialLoad tflite s).2.staging = s.staging := (trialLoad_unchanged s).2
  rcases hload : trialLoad tflite s with ⟨err, s1⟩
  rw [hload] at htrial hstaging
  cases htrial
  rw [installFromStaging_loaded hv hload]
  refine ⟨rfl, ?_⟩
  calc bytesAt (memcpyFrom s1.active s1.staging len) 0 len
      = bytesAt s1.staging 0 len := by
        apply bytesAt_congr
        intro i _ hi
        exact if_pos (by omega)
    _ = bytesAt active 0 len := by rw [hstaging, hstaged]

theorem builtinBlob_length (builtin : Bytes) :
    (builtinBlob builtin).length = hdrLen + builtin.length := by
  rw [builtinBlob, List.length_append, wrapHeader_length]

theorem ModelState.blob_length (m : ModelState) : m.blob.length = m.activeLen :=
  bytesAt_length _ _ _

theorem boot_empty {ram : ModelState} (h : NoImage ram.flash)
    (hret : (installBuiltin tflite (norArea faSize .never) builtin ram).1.1 = 0) :
    bootModel tflite (norArea faSize .never) builtin ram
      = some (installBuiltin tflite (norArea faSize .never) builtin ram).2 := by
  have hent : ¬ (-ENOENT : ℤ) = 0 := by decide
  simp only [bootModel, load_empty ram.staging modelMaxBlob h]
  rw [if_neg hent]
  exact if_pos hret

theorem boot_image {ram : ModelState} {len : ℕ} (h : IotvValid ram.flash len)
    (hret : (installFromStaging tflite (norArea faSize .never).toFlashArea len (ascii "flash") false
      { ram with staging := patch ram.staging 0 (bytesAt ram.flash 0 len) }).1.1 = 0) :
    bootModel tflite (norArea faSize .never) builtin ram
      = some (installFromStaging tflite (norArea faSize .never).toFlashArea len (ascii "flash")
          false { ram with staging := patch ram.staging 0 (bytesAt ram.flash 0 len) }).2 := by
  have hfits : len ≤ modelMaxBlob := (ValidBlob.mk ram.flash len h).len_le
  simp only [bootModel, load_of_valid ram.staging h hfits, Option.getD_some, if_true]
  rw [if_pos (by simpa using hret)]

/-- A boot activates the model that the flash copy leads to. -/
theorem boot_agrees {m ram : ModelState} (hvalid : IotvValid m.active m.activeLen)
    (hloads : tflite (payload m.active) = .loaded) (hagrees : Agrees builtin m)
    (hflash : ram.flash = m.flash) :
    ∃ m', bootModel tflite (norArea faSize .never) builtin ram = some m' ∧ m'.blob = m.blob := by
  rcases hagrees with ⟨hempty, hblob⟩ | himage
  · -- an empty flash: the boot installs the built-in model
    have hlen : m.activeLen = hdrLen + builtin.length := by
      rw [← builtinBlob_length, ← hblob, m.blob_length]
    have hstaged : bytesAt (stageBuiltin builtin ram.staging) 0 m.activeLen
        = bytesAt m.active 0 m.activeLen := by
      calc bytesAt (stageBuiltin builtin ram.staging) 0 m.activeLen
          = builtinBlob builtin := by
            rw [hlen]
            exact bytesAt_wrapBuiltin (bytesAt_patch ram.staging hdrLen builtin)
        _ = m.blob := hblob.symm
    obtain ⟨hret, hnew⟩ := installFromStaging_copy (ascii "builtin") hvalid hloads
      (s := { ram with staging := stageBuiltin builtin ram.staging }) hstaged
    rw [hlen] at hret hnew
    rw [← hflash] at hempty
    exact ⟨_, boot_empty hempty hret, hnew.trans (congrArg (bytesAt m.active 0) hlen.symm)⟩
  · -- the flash holds the active model
    have hflashValid : IotvValid ram.flash m.activeLen := by
      rw [hflash]
      exact hvalid.of_bytes himage
    have hstaged : bytesAt (patch ram.staging 0 (bytesAt ram.flash 0 m.activeLen)) 0 m.activeLen
        = bytesAt m.active 0 m.activeLen := by
      rw [bytesAt_patch_bytesAt, hflash]
      exact himage
    obtain ⟨hret, hnew⟩ := installFromStaging_copy (ascii "flash") hvalid hloads
      (s := { ram with staging := patch ram.staging 0 (bytesAt ram.flash 0 m.activeLen) })
      hstaged
    exact ⟨_, boot_image hflashValid hret, hnew⟩

end Boot

/-! ## A save that nothing interrupts -/

section Whole

variable {tflite : Bytes → LoadResult} {faSize : ℕ} {builtin : Bytes}

/-- The pieces of a save, one behind the other, are the save of `demoStep`. -/
theorem save_whole (hsize : modelMaxBlob ≤ faSize) {s : FlashDemo} {len : ℕ}
    (hp : s.demo.phase .worker = .installing .save len) (hsaving : s.saving = none)
    (hfits : s.demo.model.activeLen ≤ modelMaxBlob) :
    runState (flashStep tflite faSize builtin)
        [.saveCall, .saveErase, .saveWrite s.demo.model.activeLen, .saveDone] s
      = { s with demo := (demoStep tflite (norArea faSize .never).toFlashArea builtin
            (.install .worker) s.demo).2 } := by
  have hroom : ¬ eraseLen s.demo.model.activeLen > faSize := by
    have hbounds := eraseLen_bounds hfits
    omega
  simp only [runState_cons, runState_nil, flashStep, FlashDemo.model, FlashDemo.setFlash, hp,
    hsaving, if_neg hroom, Nat.sub_zero, min_self, bytesAt_length, Nat.zero_add, if_true, demoStep,
    installStepAt, saveActive, modelStoreSave_never hsize _ _ hfits]

end Whole

end IotcDemos.Vision
