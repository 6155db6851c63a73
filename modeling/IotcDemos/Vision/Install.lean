import IotcDemos.Lib.Run
import IotcDemos.Vision.Store

set_option autoImplicit false

/-! # Installing a vision model, with rollback

A candidate lies in `model_staging` and is loaded from there first. Loading takes the place of the
interpreter that was running, so a rejected candidate leaves the demo without one until the active
model is loaded again. The TFLM library is a parameter: what it makes of a payload.
-/

namespace IotcDemos.Vision

/-- The two buffers a model can lie in. -/
inductive Region where
  | active
  | staging
  deriving DecidableEq

/-- What `vision_infer_init` finds out about a payload. -/
inductive LoadResult where
  | loaded
  | wrongSchema
  | notAllocated
  | wrongShape
  deriving DecidableEq

/-- The text that `vision_infer_init` gives for a failure. -/
def LoadResult.error : LoadResult → Option String
  | loaded => none
  | wrongSchema => some "flatbuffer schema version mismatch"
  | notAllocated => some "AllocateTensors failed (op set/arena)"
  | wrongShape => some "not an int8 96x96x1 2-class model"

/-- The RAM of the model code, and the flash partition; `interp` is where the model of the
interpreter lies, if there is one. -/
structure ModelState where
  active : Mem
  activeLen : ℕ
  src : Bytes
  interp : Option Region
  staging : Mem
  flash : Mem

def ModelState.region (s : ModelState) : Region → Mem
  | .active => s.active
  | .staging => s.staging

/-- The bytes `model_active[0..model_active_len)`. -/
def ModelState.blob (s : ModelState) : Bytes := bytesAt s.active 0 s.activeLen

/-- The payload behind a header, of the length that the header states. -/
def payload (buf : Mem) : Bytes := bytesAt buf hdrLen (iotvHdr buf).modelLen.toNat

section Install

variable (tflite : Bytes → LoadResult) (fa : FlashArea)

/-- `vision_infer_init` on the payload of a buffer. A flatbuffer of another schema version is
refused before the running interpreter is destroyed; after the other failures there is none. -/
def visionInferInit (r : Region) (s : ModelState) : LoadResult × ModelState :=
  let res := tflite (payload (s.region r))
  (res, { s with
    interp := match res with
      | .loaded => some r
      | .wrongSchema => s.interp
      | .notAllocated => none
      | .wrongShape => none })

/-- The trial load from staging, which rolls back to the active model when it fails. -/
def trialLoad (s : ModelState) : Option String × ModelState :=
  match visionInferInit tflite .staging s with
  | (res, s1) =>
      match res.error with
      | none => (none, s1)
      | some why =>
          -- the interpreter that was running is gone: load the active model again
          (some why, if s1.activeLen > 0 then (visionInferInit tflite .active s1).2 else s1)

/-- `memcpy(model_active, model_staging, len)`. -/
def copyStaged (len : ℕ) (s : ModelState) : ModelState :=
  { s with active := memcpyFrom s.active s.staging len }

/-- The rest of the commit: the length, the source and the load of the active copy. -/
def publish (len : ℕ) (src : Bytes) (s : ModelState) : ModelState :=
  (visionInferInit tflite .active { s with activeLen := len, src := src.take 7 }).2

/-- `model_store_save(model_active, model_active_len)`. -/
def saveActive (s : ModelState) : ModelState :=
  { s with flash := (modelStoreSave fa s.active s.activeLen s.flash).2 }

def rejectedNote (why : String) : Bytes := ascii ("rejected: " ++ why)

def activeNote (len : ℕ) (s : ModelState) : Bytes :=
  let h := iotvHdr s.active
  ascii ("model v" ++ toString h.modelVer.toNat ++ " \"")
    ++ (h.name.take 15).takeWhile (· ≠ 0) ++ ascii "\" active (" ++ s.src
    ++ ascii (", " ++ toString len ++ " B)")

/-- `install_from_staging`: the return value, the note for the acknowledgement, and what is left. -/
def installFromStaging (len : ℕ) (src : Bytes) (persist : Bool) (s : ModelState) :
    (ℤ × Bytes) × ModelState :=
  match iotvValidate s.staging len with
  | some err => ((-EINVAL, rejectedNote err), s)
  | none =>
      match trialLoad tflite s with
      | (some why, s1) => ((-EINVAL, rejectedNote why), s1)
      | (none, s1) =>
          let s2 := publish tflite len src (copyStaged len s1)
          ((0, activeNote len s2), if persist then saveActive fa s2 else s2)

/-- A call, with what its caller has put into `model_staging`. -/
structure Call where
  staged : Mem
  len : ℕ
  src : Bytes
  persist : Bool

def installStep (c : Call) (s : ModelState) : (ℤ × Bytes) × ModelState :=
  installFromStaging tflite fa c.len c.src c.persist { s with staging := c.staged }

/-! ## What a call leaves -/

/-- A call that fails leaves the active model and the flash copy as they are. -/
structure Unchanged (s s' : ModelState) : Prop where
  active : s'.active = s.active
  activeLen : s'.activeLen = s.activeLen
  src : s'.src = s.src
  flash : s'.flash = s.flash

/-- The interpreter runs the active model, which is valid. -/
structure Running (s : ModelState) : Prop where
  bound : s.interp = some .active
  valid : IotvValid s.active s.activeLen
  loads : tflite (payload s.active) = .loaded

variable {tflite fa}

theorem LoadResult.error_eq_none {res : LoadResult} : res.error = none ↔ res = .loaded := by
  cases res <;> simp [LoadResult.error]

theorem visionInferInit_unchanged (r : Region) (s : ModelState) :
    Unchanged s (visionInferInit tflite r s).2 := ⟨rfl, rfl, rfl, rfl⟩

theorem visionInferInit_loaded {r : Region} {s : ModelState}
    (h : tflite (payload (s.region r)) = .loaded) :
    (visionInferInit tflite r s).2.interp = some r := by
  simp only [visionInferInit, h]

/-- A trial load succeeds exactly on a payload that the library loads. -/
theorem trialLoad_fst (s : ModelState) :
    (trialLoad tflite s).1 = (tflite (payload s.staging)).error := by
  show (match (tflite (payload s.staging)).error with
    | none => _ | some why => _ : Option String × ModelState).1 = _
  cases (tflite (payload s.staging)).error <;> rfl

theorem trialLoad_unchanged (s : ModelState) :
    Unchanged s (trialLoad tflite s).2 ∧ (trialLoad tflite s).2.staging = s.staging := by
  unfold trialLoad
  simp only
  cases (visionInferInit tflite .staging s).1.error with
  | none => exact ⟨visionInferInit_unchanged .staging s, rfl⟩
  | some why =>
      dsimp only
      split
      · exact ⟨⟨rfl, rfl, rfl, rfl⟩, rfl⟩
      · exact ⟨⟨rfl, rfl, rfl, rfl⟩, rfl⟩

/-- A failed trial load leaves the interpreter on the active model, if that loads. -/
theorem trialLoad_rollback {s : ModelState} (hrun : Running tflite s) {why : String}
    (h : (trialLoad tflite s).1 = some why) : Running tflite (trialLoad tflite s).2 := by
  have herror : (visionInferInit tflite .staging s).1.error = some why := by
    rwa [trialLoad_fst] at h
  -- there is an active model to go back to
  have hlen : (visionInferInit tflite .staging s).2.activeLen > 0 :=
    Nat.lt_of_le_of_lt (Nat.zero_le _) hrun.valid.len_pos
  have hafter : (trialLoad tflite s).2 =
      (visionInferInit tflite .active (visionInferInit tflite .staging s).2).2 := by
    unfold trialLoad
    simp only [herror]
    rw [if_pos hlen]
  rw [hafter]
  refine ⟨visionInferInit_loaded ?_, hrun.valid, hrun.loads⟩
  exact hrun.loads

/-- The header and the payload are part of a valid blob. -/
theorem IotvValid.payload_congr {buf buf' : Mem} {len : ℕ} (h : IotvValid buf len)
    (hsame : ∀ i, i < len → buf i = buf' i) : payload buf = payload buf' := by
  have hlen := h.length
  have hhdr := iotvHdr_congr (fun i hi => hsame i (by omega) : ∀ i, i < hdrLen → buf i = buf' i)
  unfold payload
  rw [← hhdr]
  exact bytesAt_congr fun i _ hi => hsame i (by omega)

theorem memcpyFrom_same (dst src : Mem) (n : ℕ) :
    ∀ i, i < n → src i = memcpyFrom dst src n i := fun _ hi => (if_pos hi).symm

/-- What is committed after a successful trial load runs. -/
theorem publish_running {s : ModelState} {len : ℕ} (src : Bytes) (hvalid : IotvValid s.staging len)
    (hloads : tflite (payload s.staging) = .loaded) :
    Running tflite (publish tflite len src (copyStaged len s)) := by
  have hsame := memcpyFrom_same s.active s.staging len
  have hactive : tflite (payload (copyStaged len s).active) = .loaded := by
    rw [← hloads]
    exact congrArg tflite (hvalid.payload_congr hsame).symm
  exact ⟨visionInferInit_loaded hactive, hvalid.congr hsame, hactive⟩

theorem Running.saveActive {s : ModelState} (h : Running tflite s) :
    Running tflite (saveActive fa s) := ⟨h.bound, h.valid, h.loads⟩

section Call

variable {len : ℕ} {src : Bytes} {persist : Bool} {s s1 : ModelState}

theorem installFromStaging_invalid {err : String} (h : iotvValidate s.staging len = some err) :
    installFromStaging tflite fa len src persist s = ((-EINVAL, rejectedNote err), s) := by
  simp only [installFromStaging, h]

theorem installFromStaging_rejected {why : String} (hvalid : iotvValidate s.staging len = none)
    (htrial : trialLoad tflite s = (some why, s1)) :
    installFromStaging tflite fa len src persist s = ((-EINVAL, rejectedNote why), s1) := by
  simp only [installFromStaging, hvalid, htrial]

theorem installFromStaging_loaded (hvalid : iotvValidate s.staging len = none)
    (htrial : trialLoad tflite s = (none, s1)) :
    installFromStaging tflite fa len src persist s =
      let s2 := publish tflite len src (copyStaged len s1)
      ((0, activeNote len s2), if persist then saveActive fa s2 else s2) := by
  simp only [installFromStaging, hvalid, htrial]

/-- **What a call does.** It fails and changes nothing, or it makes the staged blob, which is valid
and loads, the active one. -/
theorem installFromStaging_cases (tflite : Bytes → LoadResult) (fa : FlashArea) (len : ℕ)
    (src : Bytes) (persist : Bool) (s : ModelState) :
    let r := installFromStaging tflite fa len src persist s
    (r.1.1 = -EINVAL ∧ Unchanged s r.2 ∧ (Running tflite s → Running tflite r.2)) ∨
      (r.1.1 = 0 ∧ r.2.activeLen = len ∧ r.2.active = memcpyFrom s.active s.staging len ∧
        Running tflite r.2) := by
  dsimp only
  cases hvalid : iotvValidate s.staging len with
  | some err =>
      rw [installFromStaging_invalid hvalid]
      exact Or.inl ⟨rfl, ⟨rfl, rfl, rfl, rfl⟩, id⟩
  | none =>
      have hsame : Unchanged s (trialLoad tflite s).2 := (trialLoad_unchanged s).1
      have hstaging : (trialLoad tflite s).2.staging = s.staging := (trialLoad_unchanged s).2
      have hfst : (trialLoad tflite s).1 = (tflite (payload s.staging)).error := trialLoad_fst s
      have hrollback : ∀ why, (trialLoad tflite s).1 = some why → Running tflite s →
          Running tflite (trialLoad tflite s).2 := fun _ h hrun => trialLoad_rollback hrun h
      rcases htrial : trialLoad tflite s with ⟨res, s1⟩
      rw [htrial] at hsame hstaging hfst hrollback
      cases res with
      | some why =>
          rw [installFromStaging_rejected hvalid htrial]
          exact Or.inl ⟨rfl, hsame, hrollback why rfl⟩
      | none =>
          -- the active copy loads like the staged one
          have hrun : Running tflite (publish tflite len src (copyStaged len s1)) := by
            refine publish_running src ?_ ?_
            · rw [hstaging]
              exact iotvValidate_eq_none.mp hvalid
            · rw [hstaging]
              exact LoadResult.error_eq_none.mp hfst.symm
          have hactive : (publish tflite len src (copyStaged len s1)).active =
              memcpyFrom s.active s.staging len := by
            rw [← hsame.active, ← hstaging]
            rfl
          rw [installFromStaging_loaded hvalid htrial]
          cases persist with
          | false => exact Or.inr ⟨rfl, rfl, hactive, hrun⟩
          | true => exact Or.inr ⟨rfl, rfl, hactive, hrun.saveActive⟩

end Call

end Install

/-- **Installing, with rollback.** After a first successful call and any further ones, the
interpreter runs the payload in `model_active`, which is valid. A call that returns an error leaves
the active model, its length, its source and the flash copy as they were, and a call that returns 0
makes the staged blob the active one. -/
theorem install_rolls_back (tflite : Bytes → LoadResult) (fa : FlashArea) (s0 : ModelState)
    (first : Call) (calls : List Call) (hfirst : (installStep tflite fa first s0).1.1 = 0) :
    let s := runState (installStep tflite fa) (first :: calls) s0
    s.interp = some .active ∧ iotvValidate s.active s.activeLen = none ∧
      ∀ c, let r := installStep tflite fa c s
        (r.1.1 ≠ 0 → r.2.active = s.active ∧ r.2.activeLen = s.activeLen ∧ r.2.src = s.src ∧
          r.2.flash = s.flash) ∧
        (r.1.1 = 0 → r.2.activeLen = c.len ∧
          bytesAt r.2.active 0 c.len = bytesAt c.staged 0 c.len) := by
  intro s
  -- the first call has put the interpreter on the active model
  have hstart : Running tflite (installStep tflite fa first s0).2 := by
    rcases installFromStaging_cases tflite fa first.len first.src first.persist
      { s0 with staging := first.staged } with ⟨hret, -, -⟩ | ⟨-, -, -, hnew⟩
    · exact absurd (hret.symm.trans hfirst) (by decide)
    · exact hnew
  have hstep : ∀ c ∈ calls, ∀ t, Running tflite t →
      Running tflite (installStep tflite fa c t).2 := by
    intro c _ t ht
    rcases installFromStaging_cases tflite fa c.len c.src c.persist
      { t with staging := c.staged } with ⟨-, -, hkeep⟩ | ⟨-, -, -, hnew⟩
    · exact hkeep ⟨ht.bound, ht.valid, ht.loads⟩
    · exact hnew
  have hrun : Running tflite s := run_inv hstep hstart
  refine ⟨hrun.bound, iotvValidate_eq_none.mpr hrun.valid, fun c => ?_⟩
  intro r
  rcases installFromStaging_cases tflite fa c.len c.src c.persist
    { s with staging := c.staged } with ⟨hret, hsame, -⟩ | ⟨hret, hlen, hactive, -⟩
  · refine ⟨fun _ => ⟨hsame.active, hsame.activeLen, hsame.src, hsame.flash⟩, fun hok => ?_⟩
    exact absurd (hret.symm.trans hok) (by decide)
  · refine ⟨fun hfail => absurd hret hfail, fun _ => ⟨hlen, ?_⟩⟩
    have hbytes : r.2.active = memcpyFrom s.active c.staged c.len := hactive
    rw [hbytes]
    exact (bytesAt_congr fun i _ hi => memcpyFrom_same s.active c.staged c.len i (by omega)).symm

/-- The partition of 7 MiB on a flash that works. -/
def slot1 : FlashArea where
  openRet := 0
  faSize := 7 * 1024 * 1024
  erase n flash := (0, fun i => if i < n then 0xFF else flash i)
  write blob len flash := (0, memcpyFrom flash blob len)

/-- A library that loads every flatbuffer of the schema it knows. -/
def schemaOnly (model : Bytes) : LoadResult :=
  if (model.drop 4).take 4 = tflMagic then .loaded else .wrongSchema

/-- A device before its first model. -/
def blank : ModelState where
  active := fun _ => 0
  activeLen := 0
  src := ascii "none"
  interp := none
  staging := fun _ => 0
  flash := fun _ => 0xFF

/-- A flatbuffer of 8 bytes, wrapped. -/
def smallCall : Call where
  staged := iotvWrapInPlace (patch (fun _ => 0) hdrLen ([28, 0, 0, 0] ++ tflMagic)) 8 1 []
  len := 40
  src := ascii "cloud"
  persist := true

/-- The small flatbuffer is installed, and a copy of it cut short then rejected. -/
theorem install_rolls_back_small : (installStep schemaOnly slot1 smallCall blank).1.1 = 0 ∧
    (runState (installStep schemaOnly slot1) [smallCall, { smallCall with len := 39 }]
      blank).interp = some .active :=
  ⟨by decide +kernel, (install_rolls_back schemaOnly slot1 blank smallCall
    [{ smallCall with len := 39 }] (by decide +kernel)).1⟩

end IotcDemos.Vision
