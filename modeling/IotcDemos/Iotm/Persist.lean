import IotcDemos.Iotm.Valid

set_option autoImplicit false

/-! # What a reboot runs

A model is in RAM, and the settings store holds what the next boot restores. The two are changed in
separate steps, and the acknowledgement does not depend on the second one. `SurvivesReboot` says
that a reboot runs the model acknowledged last; it holds throughout a run exactly when no failure
of the store has made the two differ.
-/

namespace IotcDemos.Iotm

/-! ## Boots that read the store -/

theorem Device.active_phase (s : Device) (p : Phase) :
    { s with phase := p }.active = s.active := rfl

/-- The calls of `mlmdl_set` at a boot whose reads work. -/
def bootCalls : Option Bytes → List SettingsCall
  | none => []
  | some blob => [⟨"blob", blob, blob.length⟩]

/-- The device after a reboot with this setting. -/
def rebooted (setting : Option Bytes) : Device := boot (bootCalls setting) setting

theorem boot_setting (calls : List SettingsCall) (setting : Option Bytes) :
    (boot calls setting).setting = setting := by
  have hinstall : ∀ (blob : Bytes) (src : ModelSrc) (s : Device),
      (modelInstall blob src false 0 s).2.setting = s.setting := by
    intro blob src s
    unfold modelInstall
    cases modelValidate blob <;> rfl
  have hset : ∀ (c : SettingsCall) (s : Device), (mlmdlSet c s).2.setting = s.setting := by
    intro c s
    unfold mlmdlSet
    split_ifs
    · rfl
    · rfl
    · exact hinstall c.content .flash s
  -- the calls of `mlmdl_set` install models, and store nothing
  have hload : (calls.foldl (fun s c => (mlmdlSet c s).2) (Device.reset setting)).setting =
      setting := by
    have hreset : (Device.reset setting).setting = setting := rfl
    generalize Device.reset setting = s at hreset
    induction calls generalizing s with
    | nil => exact hreset
    | cons c calls ih => exact ih _ ((hset c s).trans hreset)
  unfold boot
  generalize calls.foldl (fun s c => (mlmdlSet c s).2) (Device.reset setting) = s at hload
  dsimp only
  split_ifs
  · rw [hinstall, hload]
  · exact hload

/-- A valid model in the store is the one that a reboot runs. -/
theorem rebooted_some {blob : Bytes} (h : ModelValid blob) :
    (rebooted (some blob)).active = blob := by
  have hfits := h.fits
  have hset : mlmdlSet ⟨"blob", blob, blob.length⟩ (Device.reset (some blob)) =
      (0, (modelInstall blob .flash false 0 (Device.reset (some blob))).2) := by
    unfold mlmdlSet
    rw [if_neg (by simp; omega), if_neg (by simp)]
  -- the model is there, so the built-in one is not installed
  have hlen : (modelInstall blob .flash false 0 (Device.reset (some blob))).2.modelLen ≠ 0 := by
    simp only [modelInstall, modelValidate_eq_none.mpr h]
    exact Nat.pos_iff_ne_zero.mp h.length_pos
  have hactive := modelInstall_active h .flash false 0 (Device.reset (some blob))
  rw [rebooted, boot, bootCalls, List.foldl_cons, List.foldl_nil, hset]
  simp only [hlen, if_false]
  rw [Device.active_phase, hactive]

theorem rebooted_none : (rebooted none).active = modelBuiltin := by
  have hlen : (Device.reset none).modelLen = 0 := rfl
  rw [rebooted, boot, bootCalls, List.foldl_nil]
  simp only [hlen, if_true]
  rw [Device.active_phase]
  exact modelInstall_active modelBuiltin_valid .builtin false 0 (Device.reset none)

section Store

variable {base64Decode : Bytes → Option Decoded}

/-! ## Acknowledged models -/

variable (base64Decode) in
/-- The model that an event has made the active one, and acknowledged. -/
def acknowledged (e : Event) (s : Device) : Option Bytes :=
  match deviceStep base64Decode e s with
  | (some ⟨true, n⟩, s') => if n.installs then some s'.active else none
  | _ => none

variable (base64Decode) in
/-- The model acknowledged last in a run after a boot. -/
def lastAcknowledged (setting : Option Bytes) (es : List Event) : Option Bytes :=
  ((trace (deviceStep base64Decode) es (rebooted setting)).filterMap fun p =>
    acknowledged base64Decode p.1 p.2).getLast?

variable (base64Decode) in
/-- A reboot runs the model that was acknowledged last. -/
def SurvivesReboot (setting : Option Bytes) (es : List Event) : Prop :=
  ∀ blob, lastAcknowledged base64Decode setting es = some blob →
    (rebooted (runState (deviceStep base64Decode) es (rebooted setting)).setting).active = blob

/-- An event that acknowledges a model leaves the store with it, if the store works. -/
theorem acknowledged_some {e : Event} {s : Device} {blob : Bytes}
    (h : acknowledged base64Decode e s = some blob) :
    ∃ stored, (rebooted stored).active = blob ∧
      (deviceStep base64Decode e s).2.setting =
        if e.storeResult s = 0 then stored else s.setting := by
  rcases deviceStep_cases base64Decode e s with hkeep | hact | ⟨calls, -, hb⟩
  · unfold acknowledged at h
    split at h
    · next n s' hstep =>
        have hno := hkeep.2 n (by rw [hstep])
        simp [hno] at h
    · cases h
  · obtain ⟨b, src, stored, n, hvalid, hstored, hn, ha, hmodel⟩ := hact
    obtain ⟨hbuf, hlen, -, hset⟩ : (deviceStep base64Decode e s).2.modelBlob =
        blit s.modelBlob 0 b ∧ (deviceStep base64Decode e s).2.modelLen = b.length ∧
        (deviceStep base64Decode e s).2.modelSrc = src ∧
        (deviceStep base64Decode e s).2.setting =
          if e.storeResult s = 0 then stored else s.setting := by
      simpa [Device.model, Device.withModel, Prod.ext_iff] using hmodel
    have hactive : (deviceStep base64Decode e s).2.active = b := by
      rw [Device.active, hbuf, hlen, blit_zero_take]
    -- the model that is acknowledged is the active one
    have hblob : blob = b := by
      have hack : acknowledged base64Decode e s =
          some (deviceStep base64Decode e s).2.active := by
        unfold acknowledged
        rw [← Prod.eta (deviceStep base64Decode e s), ha]
        simp [hn]
      rw [hack, hactive] at h
      exact (Option.some.inj h).symm
    refine ⟨stored, ?_, hset⟩
    rcases hstored with rfl | ⟨rfl, hbuiltin⟩
    · rw [hblob, rebooted_some hvalid]
    · rw [hblob, hbuiltin, rebooted_none]
  · unfold acknowledged at h
    rw [hb] at h
    cases h

/-- An event that acknowledges no model leaves the store alone. -/
theorem acknowledged_none {e : Event} {s : Device} (h : acknowledged base64Decode e s = none) :
    (deviceStep base64Decode e s).2.setting = s.setting := by
  rcases deviceStep_cases base64Decode e s with hkeep | hact | ⟨calls, -, hb⟩
  · exact congrArg (fun m => m.2.2.2) hkeep.1
  · obtain ⟨b, src, stored, n, -, -, hn, ha, -⟩ := hact
    unfold acknowledged at h
    rw [← Prod.eta (deviceStep base64Decode e s), ha] at h
    simp [hn] at h
  · rw [hb]
    exact boot_setting calls s.setting

theorem lastAcknowledged_snoc (setting : Option Bytes) (es : List Event) (e : Event) :
    lastAcknowledged base64Decode setting (es ++ [e]) =
      (acknowledged base64Decode e
        (runState (deviceStep base64Decode) es (rebooted setting))).or
          (lastAcknowledged base64Decode setting es) := by
  rw [lastAcknowledged, trace_snoc, List.filterMap_append]
  cases h : acknowledged base64Decode e
    (runState (deviceStep base64Decode) es (rebooted setting)) with
  | none => simp [h, lastAcknowledged]
  | some blob => simp [h]

variable (base64Decode) in
/-- The store follows an event: its call has succeeded, or what it holds already boots to the
model that the event acknowledges. -/
def StoreFollows (e : Event) (s : Device) : Prop :=
  ∀ blob, acknowledged base64Decode e s = some blob →
    e.storeResult s = 0 ∨ (rebooted s.setting).active = blob

/-- One event: the store follows it exactly when a reboot runs the model it acknowledges. -/
theorem storeFollows_iff {e : Event} {s : Device} :
    StoreFollows base64Decode e s ↔ ∀ blob, acknowledged base64Decode e s = some blob →
      (rebooted (deviceStep base64Decode e s).2.setting).active = blob := by
  refine forall_congr' fun blob => imp_congr_right fun hack => ?_
  obtain ⟨stored, hboots, hset⟩ := acknowledged_some hack
  rw [hset]
  by_cases hstore : e.storeResult s = 0
  · simp [hstore, hboots]
  · simp [hstore]

/-- A run whose events the store follows ends with the acknowledged model in the store. -/
theorem survivesReboot_of_follows (setting : Option Bytes) (es : List Event)
    (h : ∀ p ∈ trace (deviceStep base64Decode) es (rebooted setting),
      StoreFollows base64Decode p.1 p.2) : SurvivesReboot base64Decode setting es := by
  induction es using List.reverseRecOn with
  | nil =>
      intro blob hlast
      cases hlast
  | append_singleton es e ih =>
      rw [trace_snoc] at h
      have hbefore := ih fun p hp => h p (List.mem_append_left _ hp)
      have hfollows := storeFollows_iff.mp
        (h _ (List.mem_append_right _ (List.mem_singleton_self _)))
      intro blob hlast
      rw [lastAcknowledged_snoc] at hlast
      rw [runState_append, runState_cons, runState_nil]
      cases hack : acknowledged base64Decode e
        (runState (deviceStep base64Decode) es (rebooted setting)) with
      | some b =>
          obtain rfl : b = blob := by simpa [hack] using hlast
          exact hfollows b hack
      | none =>
          rw [hack, Option.none_or] at hlast
          rw [acknowledged_none hack]
          exact hbefore blob hlast

end Store

/-- **When an acknowledged model is what the next boot runs.** At every moment of a run a reboot
runs the model acknowledged last, the built-in one after a reset, exactly when at each
acknowledgement the call of `settings_save_one` or `settings_delete` has succeeded, or the store
already held what boots to that model. -/
theorem acknowledged_model_boots_iff (base64Decode : Bytes → Option Decoded)
    (setting : Option Bytes) (es : List Event) :
    (∀ pre, pre <+: es → SurvivesReboot base64Decode setting pre) ↔
      ∀ p ∈ trace (deviceStep base64Decode) es (rebooted setting),
        StoreFollows base64Decode p.1 p.2 := by
  constructor
  · intro h p hp
    obtain ⟨pre, post, rfl, hs⟩ := mem_trace.mp hp
    rw [storeFollows_iff, hs]
    intro blob hack
    have hprefix : pre ++ [p.1] <+: pre ++ p.1 :: post := ⟨post, by simp⟩
    have hsurvives := h _ hprefix blob (by rw [lastAcknowledged_snoc, hack, Option.some_or])
    rwa [runState_append, runState_cons, runState_nil] at hsurvives
  · rintro h pre ⟨post, rfl⟩
    refine survivesReboot_of_follows setting pre fun p hp => h p ?_
    rw [trace_append]
    exact List.mem_append_left _ hp

/-- A download of `modelComfort` as it is. -/
def comfortDownload : Download where
  buffer := true
  url := true
  ret := 0
  mem := byteAt modelComfort
  len := 124

/-- A push whose model could not be saved is acknowledged, and the next boot runs the built-in
model; a reset whose setting could not be deleted is acknowledged too, and the next boot runs the
pushed model. -/
theorem failed_save_is_acknowledged :
    ¬ SurvivesReboot (fun _ => none) none [.push comfortDownload (- EIO)] ∧
      ¬ SurvivesReboot (fun _ => none) none
        [.push comfortDownload 0, .command (some (ascii "model-reset")) 0 (- EIO)] := by
  constructor
  · intro h
    exact absurd (h modelComfort (by decide +kernel)) (by decide +kernel)
  · intro h
    exact absurd (h modelBuiltin (by decide +kernel)) (by decide +kernel)

end IotcDemos.Iotm
