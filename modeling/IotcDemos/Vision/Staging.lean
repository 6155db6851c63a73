import IotcDemos.Vision.Install
import IotcDemos.Vision.Normalize

set_option autoImplicit false

/-! # The worker and `model-reset`

The download worker and the command thread fill the same `model_staging` and install from it. The
lock covers the trial load and the commit, not the filling and the validation. A step is one call
that a thread makes, so that a list of steps is an interleaving of the two threads. The download is
not code of the demo: it puts the body into the buffer from front to back, as much as fits. The
built-in flatbuffer is a parameter, and fits the buffer.
-/

namespace IotcDemos.Vision

inductive Thread where
  | worker
  | command
  deriving DecidableEq

def Thread.other : Thread → Thread
  | worker => command
  | command => worker

/-- The next call of a thread in `install_from_staging`. -/
inductive InstallPoint where
  | validate
  | lock
  | trial
  | copy
  | publish
  | unlock (ret : ℤ)
  | save

/-- The next call of a thread. -/
inductive Phase where
  /-- The worker waits for a job, the command thread for a command. -/
  | idle
  /-- The worker, in `iotc_https_download`; the body so far. -/
  | downloading (body : Bytes)
  | downloaded (bodyLen : ℕ)
  /-- The worker, before it prints a rejected body. -/
  | rejected (bodyLen : ℕ)
  /-- The command thread, after `model_store_erase`. -/
  | erased
  | builtinCopied
  | installing (point : InstallPoint) (len : ℕ)

/-- The model code and its two threads; `bodies` are the bodies that downloads have delivered. -/
structure Demo where
  model : ModelState
  lock : Option Thread
  phase : Thread → Phase
  bodies : List Bytes

def Demo.goto (s : Demo) (t : Thread) (p : Phase) : Demo :=
  { s with phase := Function.update s.phase t p }

inductive Act where
  | fetch
  /-- The next bytes of a body. -/
  | recv (chunk : Bytes)
  /-- `iotc_https_download` returns. -/
  | fetched (ret : ℤ)
  /-- `normalize_staged_download`, with what is left if it writes beyond the buffer. -/
  | normalize (wild : ModelState)
  /-- The worker prints the rejected body. -/
  | report
  | reset
  | copyBuiltin
  | wrapBuiltin
  /-- The next call of a thread in `install_from_staging`. -/
  | install (t : Thread)

def builtinName : Bytes := ascii "person-builtin"

/-- The source that each thread installs with. -/
def Thread.src : Thread → Bytes
  | worker => ascii "cloud"
  | command => ascii "builtin"

/-- Only the worker stores the model. -/
def Thread.persist : Thread → Bool
  | worker => true
  | command => false

/-- The worker prints a body that starts with `<` as text. -/
def printsText (staging : Mem) (bodyLen : ℕ) : Bool := 0 < bodyLen && staging 0 == 60

/-- Newlines of the first 400 bytes become blanks, and a NUL ends them. -/
def cleanText (staging : Mem) (bodyLen : ℕ) : Mem := fun i =>
  let xn := min bodyLen 400
  if i < xn then (if staging i = 10 ∨ staging i = 13 then 32 else staging i)
  else if i = xn then 0
  else staging i

section Step

variable (tflite : Bytes → LoadResult) (fa : FlashArea) (builtin : Bytes)

/-- The next call of `install_from_staging`. -/
def installStepAt (t : Thread) (len : ℕ) (s : Demo) : InstallPoint → Demo
  | .validate =>
      if iotvValidate s.model.staging len = none then s.goto t (.installing .lock len)
      else s.goto t .idle
  | .lock =>
      if s.lock = none then { s with lock := some t }.goto t (.installing .trial len) else s
  | .trial =>
      let (err, model) := trialLoad tflite s.model
      { s with model := model }.goto t
        (.installing (if err = none then .copy else .unlock (-EINVAL)) len)
  | .copy => { s with model := copyStaged len s.model }.goto t (.installing .publish len)
  | .publish =>
      { s with model := publish tflite len t.src s.model }.goto t (.installing (.unlock 0) len)
  | .unlock ret =>
      { s with lock := none }.goto t
        (if ret = 0 ∧ t.persist then .installing .save len else .idle)
  | .save => { s with model := saveActive fa s.model }.goto t .idle

def demoStep : Act → Demo → Unit × Demo
  | .fetch, s =>
      match s.phase .worker with
      | .idle => ((), s.goto .worker (.downloading []))
      | _ => ((), s)
  | .recv chunk, s =>
      match s.phase .worker with
      | .downloading body =>
          if body.length + chunk.length > modelMaxBlob then ((), s)
          else
            let model := { s.model with staging := patch s.model.staging body.length chunk }
            ((), { s with model := model }.goto .worker (.downloading (body ++ chunk)))
      | _ => ((), s)
  | .fetched ret, s =>
      match s.phase .worker with
      | .downloading body =>
          if ret ≠ 0 then ((), s.goto .worker .idle)
          else ((), { s with bodies := body :: s.bodies }.goto .worker (.downloaded body.length))
      | _ => ((), s)
  | .normalize wild, s =>
      match s.phase .worker with
      | .downloaded bodyLen =>
          match normalizeStaged s.model.staging bodyLen with
          | none => ((), s)
          | some (.error _) => ((), s.goto .worker (.rejected bodyLen))
          | some (.ok (staging, len)) =>
              let model := if len > modelMaxBlob then wild else { s.model with staging := staging }
              ((), { s with model := model }.goto .worker (.installing .validate len))
      | _ => ((), s)
  | .report, s =>
      match s.phase .worker with
      | .rejected bodyLen =>
          let staging :=
            if printsText s.model.staging bodyLen then cleanText s.model.staging bodyLen
            else s.model.staging
          ((), { s with model := { s.model with staging := staging } }.goto .worker .idle)
      | _ => ((), s)
  | .reset, s =>
      match s.phase .command with
      | .idle =>
          let model := { s.model with flash := (modelStoreErase fa s.model.flash).2 }
          ((), { s with model := model }.goto .command .erased)
      | _ => ((), s)
  | .copyBuiltin, s =>
      match s.phase .command with
      | .erased =>
          let model := { s.model with staging := patch s.model.staging hdrLen builtin }
          ((), { s with model := model }.goto .command .builtinCopied)
      | _ => ((), s)
  | .wrapBuiltin, s =>
      match s.phase .command with
      | .builtinCopied =>
          let staging := iotvWrapInPlace s.model.staging builtin.length 1 builtinName
          ((), { s with model := { s.model with staging := staging } }.goto .command
            (.installing .validate (hdrLen + builtin.length)))
      | _ => ((), s)
  | .install t, s =>
      match s.phase t with
      | .installing point len => ((), installStepAt tflite fa t len s point)
      | _ => ((), s)

end Step

/-! ## The active model -/

/-- The blob of the built-in model. -/
def builtinBlob (builtin : Bytes) : Bytes := wrapHeader builtin 1 builtinName ++ builtin

/-- Wrapping the built-in flatbuffer makes its blob. -/
theorem bytesAt_wrapBuiltin {builtin : Bytes} {staging : Mem}
    (h : bytesAt staging hdrLen builtin.length = builtin) :
    bytesAt (iotvWrapInPlace staging builtin.length 1 builtinName) 0 (hdrLen + builtin.length)
      = builtinBlob builtin := by
  rw [bytesAt_wrap, h]
  rfl

/-- The built-in blob, or one that a single download delivered. -/
def Origin (builtin : Bytes) (bodies : List Bytes) (blob : Bytes) : Prop :=
  blob = builtinBlob builtin ∨ ∃ body ∈ bodies, Delivers body blob

/-- The active model is valid and has one origin. -/
structure ActiveSound (builtin : Bytes) (s : Demo) : Prop where
  valid : IotvValid s.model.active s.model.activeLen
  origin : Origin builtin s.bodies s.model.blob

/-- A thread relies on what it has put into `model_staging`. -/
def usesStaging : Phase → Bool
  | .idle => false
  | .downloading body => body ≠ []
  | .downloaded bodyLen => bodyLen ≠ 0
  | .rejected _ => false
  | .erased => false
  | .builtinCopied => true
  | .installing .validate _ => true
  | .installing .lock _ => true
  | .installing .trial _ => true
  | .installing .copy _ => true
  | .installing _ _ => false

/-- No thread writes to `model_staging` while the other one relies on it, and no archive makes
`normalize_staged_download` write beyond it. -/
def StagingApart : Act → Demo → Prop
  | .recv chunk, s => ∀ body, s.phase .worker = .downloading body → chunk ≠ [] →
      usesStaging (s.phase .command) = false
  | .normalize _, s => ∀ bodyLen, s.phase .worker = .downloaded bodyLen →
      NoCarriedIotv s.model.staging bodyLen
  | .report, s => ∀ bodyLen, s.phase .worker = .rejected bodyLen →
      printsText s.model.staging bodyLen = true → usesStaging (s.phase .command) = false
  | .copyBuiltin, s => s.phase .command = .erased → usesStaging (s.phase .worker) = false
  | _, _ => True

/-! ## What the threads have staged -/

/-- What a thread relies on, where it is. -/
def Staged (builtin : Bytes) (m : ModelState) (bodies : List Bytes) : Phase → Prop
  | .downloading body => body.length ≤ modelMaxBlob ∧ bytesAt m.staging 0 body.length = body
  | .downloaded bodyLen => bodyLen ≤ modelMaxBlob ∧ bytesAt m.staging 0 bodyLen ∈ bodies
  | .builtinCopied => bytesAt m.staging hdrLen builtin.length = builtin
  | .installing .validate len => Origin builtin bodies (bytesAt m.staging 0 len)
  | .installing .lock len =>
      Origin builtin bodies (bytesAt m.staging 0 len) ∧ IotvValid m.staging len
  | .installing .trial len =>
      Origin builtin bodies (bytesAt m.staging 0 len) ∧ IotvValid m.staging len
  | .installing .copy len =>
      Origin builtin bodies (bytesAt m.staging 0 len) ∧ IotvValid m.staging len
  -- the copy is done, the length is not set yet
  | .installing .publish len =>
      Origin builtin bodies (bytesAt m.active 0 len) ∧ IotvValid m.active len
  | _ => True

def holdsLock : Phase → Bool
  | .installing .trial _ => true
  | .installing .copy _ => true
  | .installing .publish _ => true
  | .installing (.unlock _) _ => true
  | _ => false

/-- At most one thread relies on `model_staging`, and at most one holds the lock; the active model
is sound, but for the moment between its copy and its length. -/
structure StagingInv (builtin : Bytes) (s : Demo) : Prop where
  alone : ∀ t, usesStaging (s.phase t) = true → usesStaging (s.phase t.other) = false
  staged : ∀ t, Staged builtin s.model s.bodies (s.phase t)
  locked : ∀ t, holdsLock (s.phase t) = true → s.lock = some t
  sound : (∀ t len, s.phase t ≠ .installing .publish len) → ActiveSound builtin s

section Inv

variable {builtin : Bytes} {s s' : Demo} {t : Thread} {p q : Phase}

theorem Thread.other_ne (t : Thread) : t.other ≠ t := by cases t <;> decide

theorem Thread.eq_or_other (t u : Thread) : u = t ∨ u = t.other := by
  cases t <;> cases u <;> decide

theorem Thread.other_other (t : Thread) : t.other.other = t := by cases t <;> rfl

theorem Origin.mono {bodies bodies' : List Bytes} {blob : Bytes} (h : Origin builtin bodies blob)
    (hsub : bodies ⊆ bodies') : Origin builtin bodies' blob := by
  rcases h with h | ⟨body, hmem, h⟩
  · exact Or.inl h
  · exact Or.inr ⟨body, hsub hmem, h⟩

/-- What a thread relies on stays, if its part of the memory does. -/
theorem Staged.frame {m m' : ModelState} {bodies bodies' : List Bytes}
    (h : Staged builtin m bodies p) (hbodies : bodies ⊆ bodies')
    (hstaging : usesStaging p = true → m'.staging = m.staging)
    (hactive : holdsLock p = true → m'.active = m.active) : Staged builtin m' bodies' p := by
  cases p with
  | idle => trivial
  | downloading body =>
      refine ⟨h.1, ?_⟩
      by_cases hbody : body = []
      · rw [hbody]
        rfl
      · rw [hstaging (by simp [usesStaging, hbody])]
        exact h.2
  | downloaded bodyLen =>
      refine ⟨h.1, hbodies ?_⟩
      by_cases hbody : bodyLen = 0
      · have hmem := h.2
        rw [hbody] at hmem ⊢
        exact hmem
      · rw [hstaging (by simp [usesStaging, hbody])]
        exact h.2
  | rejected bodyLen => trivial
  | erased => trivial
  | builtinCopied =>
      show bytesAt m'.staging hdrLen builtin.length = builtin
      rw [hstaging rfl]
      exact h
  | installing point len =>
      cases point with
      | validate =>
          show Origin builtin bodies' (bytesAt m'.staging 0 len)
          rw [hstaging rfl]
          exact Origin.mono h hbodies
      | lock | trial | copy =>
          show Origin builtin bodies' (bytesAt m'.staging 0 len) ∧ IotvValid m'.staging len
          rw [hstaging rfl]
          exact ⟨h.1.mono hbodies, h.2⟩
      | publish =>
          show Origin builtin bodies' (bytesAt m'.active 0 len) ∧ IotvValid m'.active len
          rw [hactive rfl]
          exact ⟨h.1.mono hbodies, h.2⟩
      | unlock ret => trivial
      | save => trivial

/-- One thread moves on, and the other one finds what it relies on. -/
theorem StagingInv.move (h : StagingInv builtin s)
    (hphase : s'.phase = Function.update s.phase t p) (hbodies : s.bodies ⊆ s'.bodies)
    (halone : usesStaging p = true → usesStaging (s.phase t.other) = false)
    (hstaging : usesStaging (s.phase t.other) = true → s'.model.staging = s.model.staging)
    (hactive : holdsLock (s.phase t.other) = true →
      s'.model.active = s.model.active ∧ s'.lock = s.lock)
    (hstaged : Staged builtin s'.model s'.bodies p)
    (hlock : holdsLock p = true → s'.lock = some t)
    (hsound : (∀ len, p ≠ .installing .publish len) →
      (∀ len, s.phase t.other ≠ .installing .publish len) → ActiveSound builtin s') :
    StagingInv builtin s' := by
  have hself : s'.phase t = p := by rw [hphase, Function.update_self]
  have hother : s'.phase t.other = s.phase t.other := by
    rw [hphase, Function.update_of_ne t.other_ne]
  constructor
  · intro u hu
    rcases t.eq_or_other u with rfl | rfl
    · rw [hself] at hu
      rw [hother]
      exact halone hu
    · rw [hother] at hu
      rw [Thread.other_other, hself]
      cases huse : usesStaging p with
      | false => rfl
      | true => rw [halone huse] at hu; cases hu
  · intro u
    rcases t.eq_or_other u with rfl | rfl
    · rw [hself]
      exact hstaged
    · rw [hother]
      exact (h.staged t.other).frame hbodies hstaging fun hl => (hactive hl).1
  · intro u hu
    rcases t.eq_or_other u with rfl | rfl
    · rw [hself] at hu
      exact hlock hu
    · rw [hother] at hu
      rw [(hactive hu).2]
      exact h.locked t.other hu
  · intro hpub
    refine hsound (fun len => ?_) (fun len => ?_)
    · rw [← hself]
      exact hpub t len
    · rw [← hother]
      exact hpub t.other len

theorem ActiveSound.frame (h : ActiveSound builtin s) (hbodies : s.bodies ⊆ s'.bodies)
    (hactive : s'.model.active = s.model.active)
    (hlen : s'.model.activeLen = s.model.activeLen) : ActiveSound builtin s' := by
  have hblob : s'.model.blob = s.model.blob := by
    unfold ModelState.blob
    rw [hactive, hlen]
  refine ⟨?_, ?_⟩
  · rw [hactive, hlen]
    exact h.valid
  · rw [hblob]
    exact h.origin.mono hbodies

theorem StagingInv.staged_at (h : StagingInv builtin s) (hp : s.phase t = p) :
    Staged builtin s.model s.bodies p := by
  rw [← hp]
  exact h.staged t

theorem StagingInv.alone_at (h : StagingInv builtin s) (hp : s.phase t = p)
    (huse : usesStaging p = true) : usesStaging (s.phase t.other) = false :=
  h.alone t (by rw [hp]; exact huse)

theorem StagingInv.lock_alone (h : StagingInv builtin s) (hp : s.phase t = p)
    (hholds : holdsLock p = true) : holdsLock (s.phase t.other) = false := by
  cases hother : holdsLock (s.phase t.other) with
  | false => rfl
  | true =>
      have hmine := h.locked t (by rw [hp]; exact hholds)
      have hsame : some t = some t.other := hmine.symm.trans (h.locked t.other hother)
      exact absurd (Option.some.inj hsame).symm t.other_ne

/-- A thread without the lock moves from `p` to `q`, and leaves the active model as it is. -/
theorem StagingInv.unlocked (h : StagingInv builtin s) (hp : s.phase t = p)
    (hphase : s'.phase = Function.update s.phase t q) (hbodies : s.bodies ⊆ s'.bodies)
    (halone : usesStaging q = true → usesStaging (s.phase t.other) = false)
    (hstaging : usesStaging (s.phase t.other) = true → s'.model.staging = s.model.staging)
    (hstaged : Staged builtin s'.model s'.bodies q)
    (hactive : s'.model.active = s.model.active) (hlen : s'.model.activeLen = s.model.activeLen)
    (hlock : s'.lock = s.lock) (hfrom : holdsLock p = false) (hto : holdsLock q = false) :
    StagingInv builtin s' := by
  refine h.move hphase hbodies halone hstaging (fun _ => ⟨hactive, hlock⟩) hstaged ?_ ?_
  · exact fun hholds => Bool.noConfusion (hto.symm.trans hholds)
  · intro _ hother
    refine (h.sound fun u len => ?_).frame hbodies hactive hlen
    rcases t.eq_or_other u with rfl | rfl
    · rintro hpub
      rw [← hp, hpub] at hfrom
      cases hfrom
    · exact hother len

/-- A thread without the lock moves from `p` to `q`, and changes nothing else. -/
theorem StagingInv.goto (h : StagingInv builtin s) (hp : s.phase t = p)
    (halone : usesStaging q = true → usesStaging (s.phase t.other) = false)
    (hstaged : Staged builtin s.model s.bodies q) (hfrom : holdsLock p = false)
    (hto : holdsLock q = false) : StagingInv builtin (s.goto t q) :=
  h.unlocked hp rfl (List.Subset.refl _) halone (fun _ => rfl) hstaged rfl rfl rfl hfrom hto

/-- Only the thread that holds the lock can be between the copy and its length. -/
theorem StagingInv.sound_holding (h : StagingInv builtin s) (hp : s.phase t = p)
    (hholds : holdsLock p = true) (hpub : ∀ len, p ≠ .installing .publish len) :
    ActiveSound builtin s := by
  refine h.sound fun u len hu => ?_
  rcases t.eq_or_other u with rfl | rfl
  · exact hpub len (hp.symm.trans hu)
  · have hother := h.lock_alone hp hholds
    rw [hu] at hother
    cases hother

/-- The thread that holds the lock moves from `p` to `q`. -/
theorem StagingInv.holding (h : StagingInv builtin s) (hp : s.phase t = p)
    (hholds : holdsLock p = true) (hphase : s'.phase = Function.update s.phase t q)
    (hbodies : s'.bodies = s.bodies) (halone : usesStaging q = true → usesStaging p = true)
    (hstaging : s'.model.staging = s.model.staging)
    (hstaged : Staged builtin s'.model s'.bodies q)
    (hlock : holdsLock q = true → s'.lock = s.lock)
    (hsound : (∀ len, q ≠ .installing .publish len) → ActiveSound builtin s') :
    StagingInv builtin s' := by
  have hother := h.lock_alone hp hholds
  refine h.move hphase (by rw [hbodies]; exact List.Subset.refl _)
    (fun hq => h.alone_at hp (halone hq)) (fun _ => hstaging) ?_ hstaged ?_ (fun hq _ => hsound hq)
  · exact fun hl => Bool.noConfusion (hother.symm.trans hl)
  · intro hq
    rw [hlock hq]
    exact h.locked t (by rw [hp]; exact hholds)

/-! ## The steps -/

variable {tflite : Bytes → LoadResult} {fa : FlashArea}

theorem normalizeStaged_empty (staging : Mem) (blob : Mem × ℕ) :
    normalizeStaged staging 0 ≠ some (.ok blob) := by
  simp [normalizeStaged, normalizePayload, hdrLen, iotvHdrLen]

theorem recv_inv {chunk : Bytes} (h : StagingInv builtin s)
    (hapart : StagingApart (.recv chunk) s) :
    StagingInv builtin (demoStep tflite fa builtin (.recv chunk) s).2 := by
  simp only [demoStep]
  split
  case h_2 => exact h
  case h_1 body hp =>
    split
    case isTrue => exact h
    case isFalse hroom =>
      have hbody : bytesAt s.model.staging 0 body.length = body := (h.staged_at hp).2
      refine h.unlocked hp rfl (List.Subset.refl _) ?_ ?_ ?_ rfl rfl rfl rfl rfl
      · intro huse
        -- the first bytes of a body are the ones the condition speaks of
        by_cases hempty : body = []
        · exact hapart body hp (by simpa [usesStaging, hempty] using huse)
        · exact h.alone_at hp (by simp [usesStaging, hempty])
      · intro huse
        by_cases hchunk : chunk = []
        · show patch s.model.staging body.length chunk = s.model.staging
          rw [hchunk, patch_nil]
        · exact Bool.noConfusion ((hapart body hp hchunk).symm.trans huse)
      · refine ⟨by rw [List.length_append]; omega, ?_⟩
        have hfront : bytesAt (patch s.model.staging body.length chunk) 0 body.length =
            bytesAt s.model.staging 0 body.length :=
          bytesAt_congr fun i _ hi => patch_outside (Or.inl (by omega))
        calc bytesAt (patch s.model.staging body.length chunk) 0 (body ++ chunk).length
            = bytesAt (patch s.model.staging body.length chunk) 0 body.length
                ++ bytesAt (patch s.model.staging body.length chunk) body.length chunk.length := by
              rw [List.length_append, bytesAt_append, Nat.zero_add]
          _ = body ++ chunk := by rw [hfront, hbody, bytesAt_patch]

theorem fetched_inv {ret : ℤ} (h : StagingInv builtin s) :
    StagingInv builtin (demoStep tflite fa builtin (.fetched ret) s).2 := by
  simp only [demoStep]
  split
  case h_2 => exact h
  case h_1 body hp =>
    split
    case isTrue => exact h.goto hp (fun huse => nomatch huse) trivial rfl rfl
    case isFalse =>
      obtain ⟨hsize, hbody⟩ := h.staged_at hp
      refine h.unlocked hp rfl (List.subset_cons_self _ _) ?_ (fun _ => rfl) ⟨hsize, ?_⟩ rfl rfl rfl
        rfl rfl
      · intro huse
        exact h.alone_at hp (by simpa [usesStaging] using huse)
      · show bytesAt s.model.staging 0 body.length ∈ body :: s.bodies
        rw [hbody]
        exact List.mem_cons_self

theorem normalize_inv {wild : ModelState} (h : StagingInv builtin s)
    (hapart : StagingApart (.normalize wild) s) :
    StagingInv builtin (demoStep tflite fa builtin (.normalize wild) s).2 := by
  simp only [demoStep]
  split
  case h_2 => exact h
  case h_1 bodyLen hp =>
    split
    case h_1 => exact h
    case h_2 => exact h.goto hp (fun huse => nomatch huse) trivial rfl rfl
    case h_3 staging len hnorm =>
      obtain ⟨hsize, hbody⟩ := h.staged_at hp
      obtain ⟨hlen, hdelivers⟩ := normalizeStaged_delivers hsize (hapart bodyLen hp) hnorm
      have hnonempty : bodyLen ≠ 0 := by
        rintro rfl
        exact normalizeStaged_empty _ _ hnorm
      have hfree : usesStaging (s.phase .command) = false :=
        h.alone_at hp (by simp [usesStaging, hnonempty])
      rw [if_neg (by omega)]
      refine h.unlocked hp rfl (List.Subset.refl _) (fun _ => hfree) ?_ ?_ rfl rfl rfl rfl rfl
      · exact fun huse => Bool.noConfusion (hfree.symm.trans huse)
      · exact Or.inr ⟨_, hbody, hdelivers⟩

theorem report_inv (h : StagingInv builtin s) (hapart : StagingApart .report s) :
    StagingInv builtin (demoStep tflite fa builtin .report s).2 := by
  simp only [demoStep]
  split
  case h_2 => exact h
  case h_1 bodyLen hp =>
    refine h.unlocked hp rfl (List.Subset.refl _) (fun huse => nomatch huse) ?_ trivial rfl rfl rfl
      rfl rfl
    intro huse
    refine if_neg fun htext => ?_
    exact Bool.noConfusion ((hapart bodyLen hp htext).symm.trans huse)

theorem copyBuiltin_inv (h : StagingInv builtin s) (hapart : StagingApart .copyBuiltin s) :
    StagingInv builtin (demoStep tflite fa builtin .copyBuiltin s).2 := by
  simp only [demoStep]
  split
  case h_2 => exact h
  case h_1 hp =>
    have hfree := hapart hp
    refine h.unlocked hp rfl (List.Subset.refl _) (fun _ => hfree) ?_ ?_ rfl rfl rfl rfl rfl
    · exact fun huse => Bool.noConfusion (hfree.symm.trans huse)
    · exact bytesAt_patch s.model.staging hdrLen builtin

theorem wrapBuiltin_inv (h : StagingInv builtin s) :
    StagingInv builtin (demoStep tflite fa builtin .wrapBuiltin s).2 := by
  simp only [demoStep]
  split
  case h_2 => exact h
  case h_1 hp =>
    have hcopied : bytesAt s.model.staging hdrLen builtin.length = builtin := h.staged_at hp
    have hfree : usesStaging (s.phase .worker) = false := h.alone_at hp rfl
    refine h.unlocked hp rfl (List.Subset.refl _) (fun _ => hfree) ?_
      (Or.inl (bytesAt_wrapBuiltin hcopied)) rfl rfl rfl rfl rfl
    exact fun huse => Bool.noConfusion (hfree.symm.trans huse)

/-- The calls of `install_from_staging` keep the invariant, whatever the other thread does. -/
theorem installStepAt_inv {len : ℕ} {point : InstallPoint} (h : StagingInv builtin s)
    (hp : s.phase t = .installing point len) :
    StagingInv builtin (installStepAt tflite fa t len s point) := by
  have hstaged := h.staged_at hp
  cases point with
  | validate =>
      have hfree : usesStaging (s.phase t.other) = false := h.alone_at hp rfl
      unfold installStepAt
      dsimp only
      split
      case isTrue hvalid =>
        exact h.goto hp (fun _ => hfree) ⟨hstaged, iotvValidate_eq_none.mp hvalid⟩ rfl rfl
      case isFalse => exact h.goto hp (fun _ => hfree) trivial rfl rfl
  | lock =>
      unfold installStepAt
      dsimp only
      split
      case isFalse => exact h
      case isTrue hnone =>
        have hnolock : holdsLock (s.phase t.other) = false := by
          cases hholds : holdsLock (s.phase t.other) with
          | false => rfl
          | true => rw [h.locked t.other hholds] at hnone; cases hnone
        refine h.move rfl (List.Subset.refl _) (fun _ => h.alone_at hp rfl) (fun _ => rfl) ?_
          hstaged (fun _ => rfl) ?_
        · exact fun hother => Bool.noConfusion (hnolock.symm.trans hother)
        · intro _ hother
          refine (h.sound fun u len' => ?_).frame (List.Subset.refl _) rfl rfl
          rcases t.eq_or_other u with rfl | rfl
          · rw [hp]
            simp
          · exact hother len'
  | trial =>
      have hsame : Unchanged s.model (trialLoad tflite s.model).2 := (trialLoad_unchanged s.model).1
      have hstaging : (trialLoad tflite s.model).2.staging = s.model.staging :=
        (trialLoad_unchanged s.model).2
      have hsound : ActiveSound builtin s := h.sound_holding hp rfl (by simp)
      unfold installStepAt
      generalize htrial : trialLoad tflite s.model = r at hsame hstaging
      obtain ⟨err, model⟩ := r
      dsimp only at hsame hstaging ⊢
      refine h.holding hp rfl rfl rfl (fun _ => rfl) hstaging ?_ (fun _ => rfl)
        (fun _ => hsound.frame (List.Subset.refl _) hsame.active hsame.activeLen)
      cases err with
      | some why => trivial
      | none =>
          show Origin builtin s.bodies (bytesAt model.staging 0 len) ∧ IotvValid model.staging len
          rw [hstaging]
          exact hstaged
  | copy =>
      have hsame := memcpyFrom_same s.model.active s.model.staging len
      refine h.holding hp rfl rfl rfl (fun huse => nomatch huse) rfl ?_ (fun _ => rfl)
        (fun hpub => absurd rfl (hpub len))
      show Origin builtin s.bodies (bytesAt (memcpyFrom s.model.active s.model.staging len) 0 len) ∧
        IotvValid (memcpyFrom s.model.active s.model.staging len) len
      rw [← bytesAt_congr fun i _ hi => hsame i (by omega)]
      exact ⟨hstaged.1, hstaged.2.congr hsame⟩
  | publish =>
      exact h.holding hp rfl rfl rfl (fun huse => nomatch huse) rfl trivial (fun _ => rfl)
        (fun _ => ⟨hstaged.2, hstaged.1⟩)
  | unlock ret =>
      have hsound : ActiveSound builtin s := h.sound_holding hp rfl (by simp)
      unfold installStepAt
      dsimp only
      generalize hto : (if ret = 0 ∧ t.persist = true then Phase.installing .save len
        else Phase.idle) = q
      -- neither place behind the lock relies on anything
      have hquiet : usesStaging q = false ∧ holdsLock q = false ∧
          Staged builtin s.model s.bodies q := by
        rw [← hto]
        split <;> exact ⟨rfl, rfl, trivial⟩
      obtain ⟨hnouse, hnolock, hnothing⟩ := hquiet
      refine h.holding hp rfl rfl rfl ?_ rfl hnothing ?_ fun _ => hsound.frame (List.Subset.refl _)
        rfl rfl
      · exact fun huse => Bool.noConfusion (hnouse.symm.trans huse)
      · exact fun hholds => Bool.noConfusion (hnolock.symm.trans hholds)
  | save =>
      exact h.unlocked hp rfl (List.Subset.refl _) (fun huse => nomatch huse) (fun _ => rfl) trivial
        rfl rfl rfl rfl rfl

/-- **One step keeps the invariant**, if it keeps the two threads apart. -/
theorem demoStep_inv {a : Act} (h : StagingInv builtin s) (hapart : StagingApart a s) :
    StagingInv builtin (demoStep tflite fa builtin a s).2 := by
  cases a with
  | fetch =>
      simp only [demoStep]
      split
      case h_2 => exact h
      case h_1 hp => exact h.goto hp (fun huse => nomatch huse) ⟨Nat.zero_le _, rfl⟩ rfl rfl
  | recv chunk => exact recv_inv h hapart
  | fetched ret => exact fetched_inv h
  | normalize wild => exact normalize_inv h hapart
  | report => exact report_inv h hapart
  | reset =>
      simp only [demoStep]
      split
      case h_2 => exact h
      case h_1 hp =>
        exact h.unlocked hp rfl (List.Subset.refl _) (fun huse => nomatch huse) (fun _ => rfl)
          trivial rfl rfl rfl rfl rfl
  | copyBuiltin => exact copyBuiltin_inv h hapart
  | wrapBuiltin => exact wrapBuiltin_inv h
  | install t =>
      simp only [demoStep]
      split
      case h_2 => exact h
      case h_1 point len hp => exact installStepAt_inv h hp

end Inv

/-- A demo that runs a sound model, with both threads waiting. -/
structure Started (builtin : Bytes) (s : Demo) : Prop where
  idle : ∀ t, s.phase t = .idle
  unlocked : s.lock = none
  active : ActiveSound builtin s

theorem Started.inv {builtin : Bytes} {s : Demo} (h : Started builtin s) :
    StagingInv builtin s := by
  refine ⟨fun t => ?_, fun t => ?_, fun t => ?_, fun _ => h.active⟩
  · rw [h.idle t]
    exact fun huse => nomatch huse
  · rw [h.idle t]
    trivial
  · rw [h.idle t]
    exact fun hholds => nomatch hholds

/-- **The active model is valid, and of one origin, whenever the lock is free,** in every run in
which no thread writes to `model_staging` while the other one relies on it, and no archive makes
`normalize_staged_download` write beyond it. -/
theorem active_model_sound (tflite : Bytes → LoadResult) (fa : FlashArea) (builtin : Bytes)
    (s0 : Demo) (hstart : Started builtin s0) (acts : List Act)
    (hapart : Along (demoStep tflite fa builtin) StagingApart acts s0) :
    let s := runState (demoStep tflite fa builtin) acts s0
    s.lock = none → iotvValidate s.model.active s.model.activeLen = none ∧
      (s.model.blob = builtinBlob builtin ∨ ∃ body ∈ s.bodies, Delivers body s.model.blob) := by
  intro s hfree
  have hinv : StagingInv builtin s :=
    (trace_inv_along (fun _ _ hstep h => demoStep_inv h hstep) hapart hstart.inv).2
  have hsound : ActiveSound builtin s := by
    refine hinv.sound fun t len hpub => ?_
    have hholds := hinv.locked t (by rw [hpub]; rfl)
    rw [hfree] at hholds
    cases hholds
  exact ⟨iotvValidate_eq_none.mpr hsound.valid, hsound.origin⟩

/-- A built-in flatbuffer of 8 bytes, and one of 12 bytes that is downloaded. -/
def smallBuiltin : Bytes := [28, 0, 0, 0] ++ tflMagic
def smallDownload : Bytes := [32, 0, 0, 0] ++ tflMagic ++ [1, 2, 3, 4]

/-- A device that runs the small built-in model. -/
def runsBuiltin : Demo where
  model :=
    { blank with
      active := iotvWrapInPlace (patch (fun _ => 0) hdrLen smallBuiltin) 8 1 builtinName
      activeLen := 40
      src := ascii "builtin"
      interp := some .active }
  lock := none
  phase := fun _ => .idle
  bodies := []

theorem runsBuiltin_started : Started smallBuiltin runsBuiltin where
  idle _ := rfl
  unlocked := rfl
  active := by
    refine ⟨iotvWrapInPlace_valid _ 1 builtinName (by decide) (by decide), Or.inl ?_⟩
    have hpayload : bytesAt (patch (fun _ => 0) hdrLen smallBuiltin) hdrLen 8 = smallBuiltin :=
      bytesAt_patch _ hdrLen smallBuiltin
    show bytesAt (iotvWrapInPlace _ 8 1 builtinName) 0 (hdrLen + 8) = builtinBlob smallBuiltin
    rw [bytesAt_wrap, hpayload]
    rfl

/-- The worker installs a download, and then a reset installs the built-in model. -/
def inTurn : List Act :=
  [.fetch, .recv smallDownload, .fetched 0, .normalize blank] ++
    List.replicate 7 (.install .worker) ++ [.reset, .copyBuiltin, .wrapBuiltin] ++
    List.replicate 6 (.install .command)

theorem active_model_sound_in_turn :
    Along (demoStep schemaOnly slot1 smallBuiltin) StagingApart inTurn runsBuiltin ∧
      iotvValidate (runState (demoStep schemaOnly slot1 smallBuiltin) inTurn runsBuiltin).model.active
        (runState (demoStep schemaOnly slot1 smallBuiltin) inTurn runsBuiltin).model.activeLen =
        none := by
  have hapart : Along (demoStep schemaOnly slot1 smallBuiltin) StagingApart inTurn runsBuiltin :=
    ⟨trivial, fun _ _ _ => rfl, trivial,
      fun _ _ => noCarriedIotv_of_no_archive (by decide +kernel), trivial, trivial, trivial, trivial,
      trivial, trivial, trivial, trivial, fun _ => by decide +kernel, trivial, trivial, trivial,
      trivial, trivial, trivial, trivial, trivial⟩
  exact ⟨hapart, (active_model_sound schemaOnly slot1 smallBuiltin runsBuiltin runsBuiltin_started
    inTurn hapart (by decide +kernel)).1⟩

/-- A reset copies the built-in flatbuffer between the worker's validation and its copy. -/
def overlapping : List Act :=
  [.fetch, .recv smallDownload, .fetched 0, .normalize blank, .install .worker, .reset,
    .copyBuiltin, .install .worker, .install .worker, .install .worker, .install .worker,
    .install .worker]

/-- The lock is free, and the active model is a mixture whose checksum is wrong. -/
theorem reset_mixes_models : Started smallBuiltin runsBuiltin ∧
    (runState (demoStep schemaOnly slot1 smallBuiltin) overlapping runsBuiltin).lock = none ∧
      iotvValidate
        (runState (demoStep schemaOnly slot1 smallBuiltin) overlapping runsBuiltin).model.active
        (runState (demoStep schemaOnly slot1 smallBuiltin) overlapping runsBuiltin).model.activeLen =
        some "payload CRC mismatch" :=
  ⟨runsBuiltin_started, by decide +kernel, by decide +kernel⟩

end IotcDemos.Vision
