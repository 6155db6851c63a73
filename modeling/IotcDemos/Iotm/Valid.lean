import IotcDemos.Iotm.Device

set_option autoImplicit false

/-! # Only valid models run

What an event can do to the model of the device is said once, in `deviceStep_cases _`: it leaves the
model and the setting as they are, or it puts a valid model in and says so, or it is a boot.
-/

namespace IotcDemos.Iotm

/-- The model of the device: `model_blob`, `model_len`, `model_src` and the persisted setting. -/
def Device.model (s : Device) : Bytes × ℕ × ModelSrc × Option Bytes :=
  (s.modelBlob, s.modelLen, s.modelSrc, s.setting)

theorem Device.model_phase (s : Device) (p : Phase) : { s with phase := p }.model = s.model := rfl

/-- The model after the copy of `blob` over that of `s`. -/
def Device.withModel (s : Device) (blob : Bytes) (src : ModelSrc) (setting : Option Bytes) :
    Bytes × ℕ × ModelSrc × Option Bytes :=
  (blit s.modelBlob 0 blob, blob.length, src, setting)

/-- `model_blob[0..model_len)` is a valid model, inside a buffer that has kept its size. -/
structure RunsValid (s : Device) : Prop where
  capacity : s.modelBlob.length = modelMaxBlob
  fits : s.modelLen ≤ modelMaxBlob
  valid : ModelValid s.active

/-! ## Installing -/

theorem modelInstall_invalid {blob : Bytes} (h : ¬ ModelValid blob) (src : ModelSrc)
    (persist : Bool) (save : ℤ) (s : Device) :
    modelInstall blob src persist save s = (-EINVAL, s) := by
  cases hv : modelValidate blob with
  | none => exact absurd (modelValidate_eq_none.mp hv) h
  | some err => simp [modelInstall, hv]

/-- A valid blob is copied, and stored if that is asked for and works. -/
theorem modelInstall_model {blob : Bytes} (h : ModelValid blob) (src : ModelSrc) (persist : Bool)
    (save : ℤ) (s : Device) :
    (modelInstall blob src persist save s).2.model =
      s.withModel blob src (if persist && save == 0 then some blob else s.setting) := by
  simp only [modelInstall, modelValidate_eq_none.mpr h]
  split <;> rfl

theorem modelInstall_active {blob : Bytes} (h : ModelValid blob) (src : ModelSrc) (persist : Bool)
    (save : ℤ) (s : Device) : (modelInstall blob src persist save s).2.active = blob := by
  simp only [modelInstall, modelValidate_eq_none.mpr h]
  split <;> exact blit_zero_take s.modelBlob blob

/-- A device whose model is a valid blob copied into a buffer of full size runs a valid model. -/
theorem RunsValid.of_withModel {s s' : Device} {blob : Bytes} {src : ModelSrc}
    {setting : Option Bytes} (hblob : ModelValid blob) (hcap : s.modelBlob.length = modelMaxBlob)
    (h : s'.model = s.withModel blob src setting) : RunsValid s' := by
  obtain ⟨hb, hl, -, -⟩ : s'.modelBlob = blit s.modelBlob 0 blob ∧ s'.modelLen = blob.length ∧
      s'.modelSrc = src ∧ s'.setting = setting := by
    simpa [Device.model, Device.withModel, Prod.ext_iff] using h
  have hfits := hblob.fits
  have hactive : s'.active = blob := by
    rw [Device.active, hb, hl, blit_zero_take]
  constructor
  · rw [hb, blit_length (by omega), hcap]
  · rw [hl]
    exact hfits
  · rw [hactive]
    exact hblob

/-- The invariant speaks about the model only. -/
theorem RunsValid.of_model {s s' : Device} (hs : RunsValid s) (h : s'.model = s.model) :
    RunsValid s' := by
  obtain ⟨hb, hl, -, -⟩ : s'.modelBlob = s.modelBlob ∧ s'.modelLen = s.modelLen ∧
      s'.modelSrc = s.modelSrc ∧ s'.setting = s.setting := by
    simpa [Device.model, Prod.ext_iff] using h
  have hactive : s'.active = s.active := by rw [Device.active, Device.active, hb, hl]
  exact ⟨by rw [hb]; exact hs.capacity, by rw [hl]; exact hs.fits, by rw [hactive]; exact hs.valid⟩

/-! ## Boots -/

/-- While the settings are loaded, the buffer keeps its size and a model that is there is valid. -/
def Loading (s : Device) : Prop :=
  s.modelBlob.length = modelMaxBlob ∧ (s.modelLen ≠ 0 → RunsValid s)

theorem mlmdlSet_loading {c : SettingsCall} {s : Device} (h : Loading s) :
    Loading (mlmdlSet c s).2 := by
  unfold mlmdlSet
  split_ifs
  · exact h
  · exact h
  -- the restored bytes are checked like any others
  · by_cases hvalid : ModelValid c.content
    · have hmodel := modelInstall_model hvalid .flash false 0 s
      have hruns := RunsValid.of_withModel hvalid h.1 hmodel
      exact ⟨hruns.capacity, fun _ => hruns⟩
    · rw [modelInstall_invalid hvalid]
      exact h

theorem boot_runsValid (calls : List SettingsCall) (setting : Option Bytes) :
    RunsValid (boot calls setting) := by
  have hload : Loading (calls.foldl (fun s c => (mlmdlSet c s).2) (Device.reset setting)) := by
    have hreset : Loading (Device.reset setting) := by
      constructor
      · simp [Device.reset]
      · intro h
        exact absurd rfl h
    generalize Device.reset setting = s at hreset
    induction calls generalizing s with
    | nil => exact hreset
    | cons c calls ih => exact ih _ (mlmdlSet_loading hreset)
  unfold boot
  generalize calls.foldl (fun s c => (mlmdlSet c s).2) (Device.reset setting) = s at hload
  dsimp only
  split_ifs with hlen
  · have hmodel := modelInstall_model modelBuiltin_valid .builtin false 0 s
    exact (RunsValid.of_withModel modelBuiltin_valid hload.1 hmodel).of_model
      (Device.model_phase _ _)
  · exact (hload.2 hlen).of_model (Device.model_phase _ _)

/-! ## Events -/

/-- The acknowledgements that say a model has been put in. -/
def Note.installs : Note → Bool
  | installed _ _ | installedChunked _ | reverted _ | deployed _ _ => true
  | _ => false

/-- An answer that leaves the model alone. -/
def Keeps (a : Option Answer) (s s' : Device) : Prop :=
  s'.model = s.model ∧ ∀ n, a = some ⟨true, n⟩ → n.installs = false

/-- A valid model has been put in and acknowledged. If the settings store has answered `0`, it now
holds that model, or nothing and the model is the built-in one. -/
def Activates (store : ℤ) (a : Option Answer) (s s' : Device) : Prop :=
  ∃ blob src stored n, ModelValid blob ∧
    (stored = some blob ∨ stored = none ∧ blob = modelBuiltin) ∧
    n.installs = true ∧ a = some ⟨true, n⟩ ∧
    s'.model = s.withModel blob src (if store = 0 then stored else s.setting)

theorem Keeps.rejected (n : Note) (s : Device) : Keeps (some ⟨false, n⟩) s s :=
  ⟨rfl, by simp⟩

theorem Keeps.accepted {n : Note} {s s' : Device} (hn : n.installs = false)
    (hmodel : s'.model = s.model) : Keeps (some ⟨true, n⟩) s s' := by
  refine ⟨hmodel, ?_⟩
  intro m hm
  cases hm
  exact hn

theorem Keeps.silent {s s' : Device} (hmodel : s'.model = s.model) : Keeps none s s' :=
  ⟨hmodel, by simp⟩

section Step

variable {base64Decode : Bytes → Option Decoded}

variable (base64Decode) in
theorem installB64_cases (b64 : Bytes) (save : ℤ) (s : Device) :
    (∃ err, installB64 base64Decode b64 save s = (some err, s)) ∨
      ∃ blob s', ModelValid blob ∧ installB64 base64Decode b64 save s = (none, s') ∧
        s'.model = s.withModel blob .cloud (if save = 0 then some blob else s.setting) := by
  unfold installB64
  cases hdec : base64Decode b64 with
  | none => exact Or.inl ⟨_, rfl⟩
  | some decoded =>
      cases hv : modelValidate decoded.val with
      | some err => exact Or.inl ⟨err, by simp [hv]⟩
      | none =>
          have hvalid := modelValidate_eq_none.mp hv
          refine Or.inr ⟨decoded.val, (modelInstall decoded.val .cloud true save s).2, hvalid,
            by simp [hv], ?_⟩
          simpa using modelInstall_model hvalid .cloud true save s

variable (base64Decode) in
/-- Each command leaves the model alone, or puts one in. -/
theorem performCommand_cases (save del : ℤ) (c : Command) (s : Device) :
    let r := performCommand base64Decode save del c s
    Keeps (some r.1) s r.2 ∨
      Activates (if c = .modelReset then del else save) (some r.1) s r.2 := by
  intro r
  cases c with
  | modelPush b64 =>
      rcases installB64_cases base64Decode b64 save s with
        ⟨err, h⟩ | ⟨blob, s', hvalid, h, hmodel⟩
      · have hr : r = (⟨false, .rejected err⟩, s) := by simp [r, performCommand, h]
        rw [hr]
        exact Or.inl (.rejected _ s)
      · have hr : r = (⟨true, .installed s'.hdr.modelVer s'.modelSrc⟩, s') := by
          simp [r, performCommand, h]
        rw [hr]
        exact Or.inr ⟨blob, .cloud, _, _, hvalid, Or.inl rfl, rfl, rfl, hmodel⟩
  | modelCommit =>
      by_cases hopen : ¬ s.xferOpen ∨ s.xferLen = 0
      · have hr : r = (⟨false, .noTransferOpen⟩, s) := by
          simp only [r, performCommand]
          rw [if_pos hopen]
        rw [hr]
        exact Or.inl (.rejected _ s)
      · rcases installB64_cases base64Decode (s.xferB64.take s.xferLen) save s
          with ⟨err, h⟩ | ⟨blob, s', hvalid, h, hmodel⟩
        · have hr : r = (⟨false, .rejected err⟩, { s with xferOpen := false }) := by
            simp only [r, performCommand]
            rw [if_neg hopen, h]
          rw [hr]
          exact Or.inl ⟨rfl, by simp⟩
        · have hr : r = (⟨true, .installedChunked s'.hdr.modelVer⟩,
              { s' with xferOpen := false }) := by
            simp only [r, performCommand]
            rw [if_neg hopen, h]
          rw [hr]
          exact Or.inr ⟨blob, .cloud, _, _, hvalid, Or.inl rfl, rfl, rfl, hmodel⟩
  | modelReset =>
      refine Or.inr ⟨modelBuiltin, .builtin, none, _, modelBuiltin_valid, Or.inr ⟨rfl, rfl⟩, rfl,
        rfl, ?_⟩
      simp only [r, performCommand]
      rw [modelInstall_model modelBuiltin_valid]
      by_cases hdel : del = 0 <;> simp [hdel, Device.withModel]
  | modelData chunk =>
      left
      simp only [r, performCommand]
      split_ifs
      · exact ⟨rfl, by simp⟩
      · exact .accepted rfl rfl
      · exact .rejected _ s
  | interval arg =>
      left
      simp only [r, performCommand]
      split_ifs
      · exact .accepted rfl rfl
      · exact .rejected _ s
  | led mode => cases mode <;> exact Or.inl (.accepted rfl rfl)
  | modelBegin => exact Or.inl (.accepted rfl rfl)
  | modelInfo => exact Or.inl (.accepted rfl rfl)
  | reboot => exact Or.inl (.accepted rfl rfl)
  | unknown => exact Or.inl (.rejected _ s)

theorem onModelPush_cases (dl : Download) (save : ℤ) (s : Device) :
    let r := onModelPush dl save s
    Keeps r.1 s r.2 ∨ Activates save r.1 s r.2 := by
  intro r
  have h : onModelPush dl save s = r := rfl
  unfold onModelPush at h
  split at h
  · rw [← h]
    exact Or.inl (.rejected _ s)
  split at h
  · rw [← h]
    exact Or.inl (.rejected _ s)
  split at h
  · rw [← h]
    exact Or.inl (.rejected _ s)
  cases hblob : dl.blob with
  | none =>
      rw [hblob] at h
      rw [← h]
      exact Or.inl (.silent rfl)
  | some answer =>
      rw [hblob] at h
      cases answer with
      | error err =>
          rw [← h]
          exact Or.inl (.rejected _ s)
      | ok blob =>
          cases hv : modelValidate blob with
          | some err =>
              simp only [hv] at h
              rw [← h]
              exact Or.inl (.rejected _ s)
          | none =>
              have hvalid := modelValidate_eq_none.mp hv
              simp only [hv] at h
              rw [← h]
              refine Or.inr ⟨blob, .cloud, some blob, _, hvalid, Or.inl rfl, rfl, rfl, ?_⟩
              simpa using modelInstall_model hvalid .cloud true save s

variable (base64Decode) in
/-- What an event does to the model of the device. -/
theorem deviceStep_cases (e : Event) (s : Device) :
    let r := deviceStep base64Decode e s
    Keeps r.1 s r.2 ∨ Activates (e.storeResult s) r.1 s r.2 ∨
      ∃ calls, e = .boot calls ∧ r = (none, boot calls s.setting) := by
  intro r
  cases e with
  | boot calls => exact Or.inr (Or.inr ⟨calls, rfl, rfl⟩)
  | command cmd save del =>
      by_cases hphase : s.phase = .running
      · cases cmd with
        | none =>
            have hr : r = (some ⟨false, .unknownCommand⟩, s) := by
              simp [r, deviceStep, hphase, onCommand]
            rw [hr]
            exact Or.inl (.rejected _ s)
        | some text =>
            have hr : r = (some (performCommand base64Decode save del (parseCommand text) s).1,
                (performCommand base64Decode save del (parseCommand text) s).2) := by
              simp [r, deviceStep, hphase, onCommand]
            have hstore : (Event.command (some text) save del).storeResult s =
                if parseCommand text = .modelReset then del else save := by
              simp [Event.storeResult, Event.carried, hphase]
            rw [hr, hstore]
            rcases performCommand_cases base64Decode save del
              (parseCommand text) s with h | h
            · exact Or.inl h
            · exact Or.inr (Or.inl h)
      · have hr : r = (none, s) := by simp [r, deviceStep, hphase]
        rw [hr]
        exact Or.inl (.silent rfl)
  | push dl save =>
      by_cases hphase : s.phase = .running
      · have hr : r = onModelPush dl save s := by simp [r, deviceStep, hphase]
        rw [hr]
        rcases onModelPush_cases dl save s with h | h
        · exact Or.inl h
        · exact Or.inr (Or.inl h)
      · have hr : r = (none, s) := by simp [r, deviceStep, hphase]
        rw [hr]
        exact Or.inl (.silent rfl)

/-! ## Runs -/

/-- A device that has come up runs a valid model. -/
def UpIsValid (s : Device) : Prop := s.phase ≠ .off → RunsValid s

variable (base64Decode) in
/-- Only a boot brings the device up. -/
theorem deviceStep_phase {e : Event} {s : Device} (hboot : ∀ calls, e ≠ .boot calls)
    (h : (deviceStep base64Decode e s).2.phase ≠ .off) : s.phase ≠ .off := by
  intro hoff
  cases e with
  | boot calls => exact absurd rfl (hboot calls)
  | command cmd save del => simp [deviceStep, hoff] at h
  | push dl save => simp [deviceStep, hoff] at h

theorem deviceStep_valid (e : Event) {s : Device} (h : UpIsValid s) :
    UpIsValid (deviceStep base64Decode e s).2 := by
  intro hup
  rcases deviceStep_cases base64Decode e s with hkeep | hact | ⟨calls, -, hb⟩
  -- case: the model stays as it is
  · by_cases hboot : ∃ calls, e = .boot calls
    · obtain ⟨calls, rfl⟩ := hboot
      exact boot_runsValid calls s.setting
    · exact (h (deviceStep_phase _ (by simpa using hboot) hup)).of_model hkeep.1
  -- case: a model is put in
  · obtain ⟨blob, src, stored, n, hvalid, -, -, ha, hmodel⟩ := hact
    have hruns : RunsValid s := by
      refine h (deviceStep_phase base64Decode ?_ hup)
      rintro calls rfl
      cases ha
    exact RunsValid.of_withModel hvalid hruns.capacity hmodel
  -- case: a boot
  · rw [hb]
    exact boot_runsValid calls s.setting

/-- A rejection leaves the model and the setting as they were. -/
theorem deviceStep_rejected {e : Event} {s : Device} {n : Note}
    (h : (deviceStep base64Decode e s).1 = some ⟨false, n⟩) :
    (deviceStep base64Decode e s).2.model = s.model := by
  rcases deviceStep_cases base64Decode e s with hkeep | hact | ⟨calls, -, hb⟩
  · exact hkeep.1
  · obtain ⟨blob, src, stored, m, -, -, -, ha, -⟩ := hact
    rw [ha] at h
    cases h
  · rw [hb] at h
    cases h

end Step

/-- **Only valid models run, and a rejected one changes nothing.** After any run of boots,
commands and pushes, a device that has come up runs a model that passes `model_validate` inside
`model_blob`, and an event that is answered with a rejection leaves `model_blob`, `model_len`,
`model_src` and the setting as they were. -/
theorem only_valid_models_run (base64Decode : Bytes → Option Decoded) (setting : Option Bytes)
    (es : List Event) :
    let s := runState (deviceStep base64Decode) es (Device.reset setting)
    (s.phase ≠ .off → s.modelBlob.length = modelMaxBlob ∧ s.modelLen ≤ modelMaxBlob ∧
      modelValidate (s.modelBlob.take s.modelLen) = none) ∧
    ∀ e n, (deviceStep base64Decode e s).1 = some ⟨false, n⟩ →
      (deviceStep base64Decode e s).2.model = s.model := by
  refine ⟨fun hup => ?_, fun e n h => deviceStep_rejected h⟩
  have hvalid : UpIsValid (runState (deviceStep base64Decode) es (Device.reset setting)) := by
    refine run_inv (fun e _ s hs => deviceStep_valid e hs) ?_
    intro hoff
    exact absurd rfl hoff
  have hruns := hvalid hup
  exact ⟨hruns.capacity, hruns.fits, modelValidate_eq_none.mpr hruns.valid⟩

end IotcDemos.Iotm
