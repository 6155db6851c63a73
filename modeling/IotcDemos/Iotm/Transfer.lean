import IotcDemos.Iotm.Valid

set_option autoImplicit false

/-! # Chunked transfers

A transfer is what lies in `xfer_b64` while `xfer_open` is set. `Holding s acc` says that the
transfer is open and has received `acc`; the commands of a transfer are shown to append to `acc`,
and a run that ends with an open transfer is split at the `model-begin` that opened it.
-/

namespace IotcDemos.Iotm

/-! ## Command texts -/

theorem splitCommand_append {name arg : Bytes} (hname : 32 ∉ name) (hne : name ≠ [])
    (harg : arg ≠ []) (hhead : arg.head? ≠ some 32) :
    splitCommand (name ++ 32 :: arg) = (name, some arg) := by
  have hfirst : (name ++ 32 :: arg).dropWhile (· == 32) = name ++ 32 :: arg := by
    cases name with
    | nil => exact absurd rfl hne
    | cons x name =>
        have hx : x ≠ 32 := fun h => hname (by simp [h])
        simp [hx]
  have htok : ∀ x ∈ name, (x != 32) = true := by
    intro x hx
    simp only [bne_iff_ne, ne_eq]
    rintro rfl
    exact hname hx
  have hblanks : arg.dropWhile (· == 32) = arg := by
    cases arg with
    | nil => rfl
    | cons x arg =>
        have hx : x ≠ 32 := fun h => hhead (by simp [h])
        simp [hx]
  simp only [splitCommand, hfirst]
  rw [List.dropWhile_append_of_pos htok, List.takeWhile_append_of_pos htok]
  simp [hblanks, harg]

/-- A text without blanks starts with none. -/
theorem head?_ne_blank {text : Bytes} (h : 32 ∉ text) : text.head? ≠ some 32 := fun hhead =>
  h (List.mem_of_mem_head? hhead)

def pushText (text : Bytes) : Bytes := ascii "model-push" ++ 32 :: text

def beginText : Bytes := ascii "model-begin"

def dataText (chunk : Bytes) : Bytes := ascii "model-data" ++ 32 :: chunk

def commitText : Bytes := ascii "model-commit"

theorem parse_pushText {text : Bytes} (hne : text ≠ []) (h : 32 ∉ text) :
    parseCommand (pushText text) = .modelPush text := by
  rw [parseCommand, pushText, splitCommand_append (by decide) (by decide) hne (head?_ne_blank h)]
  exact if_pos (by decide)

theorem parse_dataText {chunk : Bytes} (hne : chunk ≠ []) (h : 32 ∉ chunk) :
    parseCommand (dataText chunk) = .modelData chunk := by
  rw [parseCommand, dataText, splitCommand_append (by decide) (by decide) hne (head?_ne_blank h)]
  have hpush : tokIs (ascii "model-data") "model-push" = false := by decide
  have hbegin : tokIs (ascii "model-data") "model-begin" = false := by decide
  have hdata : tokIs (ascii "model-data") "model-data" = true := by decide
  simp [hpush, hbegin, hdata]

theorem parse_beginText : parseCommand beginText = .modelBegin := by decide

theorem parse_commitText : parseCommand commitText = .modelCommit := by decide

/-! ## What a command does to the transfer -/

/-- The transfer is open and has received `acc`. -/
structure Holding (s : Device) (acc : Bytes) : Prop where
  isOpen : s.xferOpen = true
  len : s.xferLen = acc.length
  content : s.xferB64.take s.xferLen = acc

/-- The buffer of the transfer has its size, and what has been received fits it. -/
structure XferFits (s : Device) : Prop where
  capacity : s.xferB64.length = modelB64Max
  fits : s.xferLen ≤ modelB64Max

/-- The transfer of the device. -/
def Device.xfer (s : Device) : Bytes × ℕ × Bool := (s.xferB64, s.xferLen, s.xferOpen)

theorem Device.xfer_phase (s : Device) (p : Phase) : { s with phase := p }.xfer = s.xfer := rfl

theorem xfer_fields {s : Device} {buf : Bytes} {len : ℕ} {isOpen : Bool}
    (h : s.xfer = (buf, len, isOpen)) :
    s.xferB64 = buf ∧ s.xferLen = len ∧ s.xferOpen = isOpen := by
  simpa [Device.xfer, Prod.ext_iff] using h

theorem Holding.of_xfer {s s' : Device} {acc : Bytes} (hs : Holding s acc)
    (h : s'.xfer = s.xfer) : Holding s' acc := by
  obtain ⟨hb, hl, ho⟩ := xfer_fields h
  exact ⟨by rw [ho, hs.isOpen], by rw [hl, hs.len], by rw [hb, hl, hs.content]⟩

theorem XferFits.of_xfer {s s' : Device} (hs : XferFits s) (h : s'.xfer = s.xfer) :
    XferFits s' := by
  obtain ⟨hb, hl, -⟩ := xfer_fields h
  exact ⟨by rw [hb, hs.capacity], by rw [hl]; exact hs.fits⟩

/-- Installing a model leaves the transfer and the phase alone. -/
theorem modelInstall_xfer (blob : Bytes) (src : ModelSrc) (persist : Bool) (save : ℤ)
    (s : Device) : (modelInstall blob src persist save s).2.xfer = s.xfer ∧
      (modelInstall blob src persist save s).2.phase = s.phase := by
  unfold modelInstall
  cases modelValidate blob with
  | some err => exact ⟨rfl, rfl⟩
  | none =>
      dsimp only
      split <;> exact ⟨rfl, rfl⟩

namespace Command

/-- The commands of a transfer. -/
def ofTransfer : Command → Bool
  | modelBegin | modelData _ | modelCommit => true
  | _ => false

/-- The commands that a transfer may be interleaved with: all others but `reboot`. -/
def unrelated (c : Command) : Bool := !c.ofTransfer && c != reboot

end Command

section Transfer

variable {base64Decode : Bytes → Option Decoded}

variable (base64Decode) in
theorem installB64_xfer (b64 : Bytes) (save : ℤ) (s : Device) :
    (installB64 base64Decode b64 save s).2.xfer = s.xfer ∧
      (installB64 base64Decode b64 save s).2.phase = s.phase := by
  unfold installB64
  cases base64Decode b64 with
  | none => exact ⟨rfl, rfl⟩
  | some decoded =>
      dsimp only
      -- a blob that is not valid is not installed
      cases modelValidate decoded.val with
      | some err => exact ⟨rfl, rfl⟩
      | none => exact modelInstall_xfer decoded.val .cloud true save s

variable (base64Decode) in
/-- A command that is not one of a transfer leaves it alone. -/
theorem performCommand_xfer {c : Command} (save del : ℤ) (s : Device)
    (hc : c.ofTransfer = false) : (performCommand base64Decode save del c s).2.xfer = s.xfer ∧
      (c ≠ .reboot → (performCommand base64Decode save del c s).2.phase = s.phase) := by
  cases c with
  | modelPush b64 =>
      obtain ⟨hxfer, hphase⟩ := installB64_xfer base64Decode b64 save s
      simp only [performCommand]
      generalize installB64 base64Decode b64 save s = r at hxfer hphase
      obtain ⟨_ | err, s'⟩ := r <;> exact ⟨hxfer, fun _ => hphase⟩
  | modelReset =>
      obtain ⟨hxfer, hphase⟩ := modelInstall_xfer modelBuiltin .builtin false 0
        (if del = 0 then { s with setting := none } else s)
      simp only [performCommand]
      rw [hxfer, hphase]
      split <;> exact ⟨rfl, fun _ => rfl⟩
  | interval arg =>
      simp only [performCommand]
      split <;> exact ⟨rfl, fun _ => rfl⟩
  | led mode => cases mode <;> exact ⟨rfl, fun _ => rfl⟩
  | modelInfo => exact ⟨rfl, fun _ => rfl⟩
  | reboot => exact ⟨rfl, fun h => absurd rfl h⟩
  | unknown => exact ⟨rfl, fun _ => rfl⟩
  | modelBegin => cases hc
  | modelData chunk => cases hc
  | modelCommit => cases hc

theorem onModelPush_xfer (dl : Download) (save : ℤ) (s : Device) :
    (onModelPush dl save s).2.xfer = s.xfer := by
  unfold onModelPush
  split
  · rfl
  split
  · rfl
  split
  · rfl
  cases dl.blob with
  | none => rfl
  | some answer =>
      cases answer with
      | error err => rfl
      | ok blob =>
          dsimp only
          cases modelValidate blob with
          | some err => rfl
          | none => exact (modelInstall_xfer blob .cloud true save s).1

variable (base64Decode) in
/-- Without a transfer a chunk is refused. -/
theorem modelData_shut {s : Device} (chunk : Bytes) (save del : ℤ) (h : ¬ s.xferOpen = true) :
    performCommand base64Decode save del (.modelData chunk) s = (⟨false, .noTransferOpen⟩, s) := by
  rw [performCommand, if_pos h]

variable (base64Decode) in
/-- A chunk that does not fit aborts the transfer. -/
theorem modelData_overflow {s : Device} {chunk : Bytes} (save del : ℤ) (hopen : s.xferOpen = true)
    (hfull : modelB64Max < s.xferLen + chunk.length) :
    performCommand base64Decode save del (.modelData chunk) s =
      (⟨false, .overflow⟩, { s with xferOpen := false }) := by
  rw [performCommand, if_neg (not_not.mpr hopen), if_pos hfull]

variable (base64Decode) in
/-- A chunk that fits is appended. -/
theorem modelData_append {s : Device} {chunk : Bytes} (save del : ℤ) (hopen : s.xferOpen = true)
    (hroom : s.xferLen + chunk.length ≤ modelB64Max) :
    performCommand base64Decode save del (.modelData chunk) s =
      (⟨true, .received (s.xferLen + chunk.length)⟩, { s with
        xferB64 := blit s.xferB64 s.xferLen chunk
        xferLen := s.xferLen + chunk.length }) := by
  rw [performCommand, if_neg (not_not.mpr hopen), if_neg (Nat.not_lt.mpr hroom)]

variable (base64Decode) in
theorem modelData_holding {s : Device} {acc chunk : Bytes} (save del : ℤ) (hs : Holding s acc)
    (hfits : XferFits s) (hroom : acc.length + chunk.length ≤ modelB64Max) :
    let r := performCommand base64Decode save del (.modelData chunk) s
    r.1.accepted = true ∧ Holding r.2 (acc ++ chunk) ∧ XferFits r.2 ∧ r.2.phase = s.phase := by
  intro r
  have hlen := hs.len
  have hcap := hfits.capacity
  have hr : r = _ := modelData_append base64Decode save del hs.isOpen (by rw [hlen]; exact hroom)
  rw [hr]
  refine ⟨rfl, ⟨hs.isOpen, ?_, ?_⟩, ⟨?_, ?_⟩, rfl⟩
  · rw [List.length_append, ← hlen]
  · show (blit s.xferB64 s.xferLen chunk).take (s.xferLen + chunk.length) = acc ++ chunk
    rw [blit_take (by omega), hs.content]
  · show (blit s.xferB64 s.xferLen chunk).length = modelB64Max
    rw [blit_length (by omega), hcap]
  · show s.xferLen + chunk.length ≤ modelB64Max
    omega

/-- The same acknowledgement with the text of a chunked transfer. -/
def Answer.chunked : Answer → Answer
  | ⟨ok, .installed ver _⟩ => ⟨ok, .installedChunked ver⟩
  | a => a

variable (base64Decode) in
/-- A commit does with the received text what a push does with it, and closes the transfer. -/
theorem commit_eq_push {s : Device} (save del : ℤ) (hopen : s.xferOpen = true)
    (hlen : s.xferLen ≠ 0) :
    let commit := performCommand base64Decode save del .modelCommit s
    let push := performCommand base64Decode save del (.modelPush (s.xferB64.take s.xferLen)) s
    commit.1 = push.1.chunked ∧ commit.2 = { push.2 with xferOpen := false } := by
  simp only [performCommand]
  -- the transfer is open and not empty
  rw [if_neg (by simp [hopen, hlen])]
  obtain ⟨_ | err, s'⟩ := installB64 base64Decode (s.xferB64.take s.xferLen) save s
  · exact ⟨rfl, rfl⟩
  · exact ⟨rfl, rfl⟩

/-! ## Transfers in a run -/

variable (base64Decode) in
/-- The event is a `model-commit` that is not refused for want of a transfer. -/
def Attempts (e : Event) (s : Device) : Prop :=
  e.carried s = some .modelCommit ∧
    (deviceStep base64Decode e s).1 ≠ some ⟨false, .noTransferOpen⟩

variable (base64Decode) in
/-- The chunk that an event has `model-data` accept. -/
def acceptedChunk (e : Event) (s : Device) : Option Bytes :=
  match e.carried s, (deviceStep base64Decode e s).1 with
  | some (.modelData chunk), some ⟨true, _⟩ => some chunk
  | _, _ => none

variable (base64Decode) in
theorem deviceStep_carried {e : Event} {s : Device} {c : Command} (h : e.carried s = some c) :
    ∃ save del, deviceStep base64Decode e s =
      (some (performCommand base64Decode save del c s).1,
        (performCommand base64Decode save del c s).2) := by
  cases e with
  | boot calls => cases h
  | push dl save => cases h
  | command cmd save del =>
      cases cmd with
      | none => cases h
      | some text =>
          by_cases hphase : s.phase = .running
          · obtain rfl : parseCommand text = c := by simpa [Event.carried, hphase] using h
            exact ⟨save, del, by simp [deviceStep, hphase, onCommand]⟩
          · simp [Event.carried, hphase] at h

/-- An event that carries out no command leaves the transfer alone, if it is no boot. -/
theorem deviceStep_uncarried {e : Event} {s : Device} (h : e.carried s = none)
    (hboot : ∀ calls, e ≠ .boot calls) : (deviceStep base64Decode e s).2.xfer = s.xfer := by
  cases e with
  | boot calls => exact absurd rfl (hboot calls)
  | push dl save =>
      simp only [deviceStep]
      split
      · exact onModelPush_xfer dl save s
      · rfl
  | command cmd save del =>
      by_cases hphase : s.phase = .running
      · cases cmd with
        | none => simp [deviceStep, hphase, onCommand]
        | some text => simp [Event.carried, hphase] at h
      · simp [deviceStep, hphase]

/-- The event does not belong to a transfer: nothing is begun, accepted or committed. -/
structure Aside (base64Decode : Bytes → Option Decoded) (e : Event) (s : Device) : Prop where
  noBegin : e.carried s ≠ some .modelBegin
  noBoot : ∀ calls, e ≠ .boot calls
  noOverflow : (deviceStep base64Decode e s).1 ≠ some ⟨false, .overflow⟩
  noAttempt : ¬ Attempts base64Decode e s

theorem boot_xfer (calls : List SettingsCall) (setting : Option Bytes) :
    (boot calls setting).xfer = (List.replicate modelB64Max 0, 0, false) := by
  have hset : ∀ (c : SettingsCall) (s : Device), (mlmdlSet c s).2.xfer = s.xfer := by
    intro c s
    unfold mlmdlSet
    split_ifs
    · rfl
    · rfl
    · exact (modelInstall_xfer c.content .flash false 0 s).1
  -- loading the settings installs models, and does no more
  have hload : (calls.foldl (fun s c => (mlmdlSet c s).2) (Device.reset setting)).xfer =
      (List.replicate modelB64Max 0, 0, false) := by
    have hreset : (Device.reset setting).xfer = (List.replicate modelB64Max 0, 0, false) := rfl
    generalize Device.reset setting = s at hreset
    induction calls generalizing s with
    | nil => exact hreset
    | cons c calls ih => exact ih _ ((hset c s).trans hreset)
  unfold boot
  generalize calls.foldl (fun s c => (mlmdlSet c s).2) (Device.reset setting) = s at hload
  dsimp only
  rw [Device.xfer_phase]
  split_ifs
  · rw [(modelInstall_xfer modelBuiltin .builtin false 0 s).1, hload]
  · exact hload

/-- Only `model-data` answers with an overflow. -/
theorem performCommand_overflow {c : Command} {save del : ℤ} {s : Device}
    (h : (performCommand base64Decode save del c s).1.note = .overflow) :
    ∃ chunk, c = .modelData chunk := by
  cases c with
  | modelData chunk => exact ⟨chunk, rfl⟩
  | modelPush b64 =>
      simp only [performCommand] at h
      split at h <;> cases h
  | modelCommit =>
      simp only [performCommand] at h
      split at h
      · cases h
      · split at h <;> cases h
  | interval arg =>
      simp only [performCommand] at h
      split at h <;> cases h
  | led mode => cases mode <;> cases h
  | modelBegin => cases h
  | modelInfo => cases h
  | modelReset => cases h
  | reboot => cases h
  | unknown => cases h

theorem onModelPush_overflow (dl : Download) (save : ℤ) (s : Device) :
    (onModelPush dl save s).1 ≠ some ⟨false, .overflow⟩ := by
  intro h
  unfold onModelPush at h
  split at h
  · cases h
  split at h
  · cases h
  split at h
  · cases h
  split at h
  · cases h
  · cases h
  · split at h <;> cases h

/-- A command that begins no transfer, overflows none and commits none is an event beside it. -/
theorem aside_of_command {e : Event} {s : Device} {c : Command} {save del : ℤ}
    (h : e.carried s = some c)
    (hstep : deviceStep base64Decode e s = (some (performCommand base64Decode save del c s).1,
      (performCommand base64Decode save del c s).2))
    (hbegin : c ≠ .modelBegin)
    (hover : (performCommand base64Decode save del c s).1.note ≠ .overflow)
    (hattempt : ¬ Attempts base64Decode e s) : Aside base64Decode e s := by
  refine ⟨?_, ?_, ?_, hattempt⟩
  · rw [h]
    exact fun he => hbegin (Option.some.inj he)
  · rintro calls rfl
    cases h
  · rw [hstep]
    exact fun he => hover (congrArg Answer.note (Option.some.inj he))

theorem not_attempts {e : Event} {s : Device} {c : Command} (h : e.carried s = some c)
    (hc : c ≠ .modelCommit) : ¬ Attempts base64Decode e s := by
  rintro ⟨hcommit, -⟩
  exact hc (Option.some.inj (h.symm.trans hcommit))

/-- A command that is carried out outside a transfer is an event beside it. -/
theorem aside_of_carried {e : Event} {s : Device} {c : Command} (h : e.carried s = some c)
    (hc : c.ofTransfer = false) : Aside base64Decode e s := by
  obtain ⟨save, del, hstep⟩ := deviceStep_carried base64Decode h
  refine aside_of_command h hstep ?_ ?_ (not_attempts h ?_)
  · rintro rfl
    cases hc
  · intro hover
    obtain ⟨chunk, rfl⟩ := performCommand_overflow hover
    cases hc
  · rintro rfl
    cases hc

theorem aside_of_uncarried {e : Event} {s : Device} (h : e.carried s = none)
    (hboot : ∀ calls, e ≠ .boot calls) : Aside base64Decode e s := by
  refine ⟨by simp [h], hboot, ?_, by simp [Attempts, h]⟩
  cases e with
  | boot calls => exact absurd rfl (hboot calls)
  | push dl save =>
      simp only [deviceStep]
      split
      · exact onModelPush_overflow dl save s
      · simp
  | command cmd save del =>
      by_cases hphase : s.phase = .running
      · cases cmd with
        | none => simp [deviceStep, hphase, onCommand]
        | some text => simp [Event.carried, hphase] at h
      · simp [deviceStep, hphase]

theorem acceptedChunk_of_carried {e : Event} {s : Device} {c : Option Command}
    (h : e.carried s = c) (hc : ∀ chunk, c ≠ some (.modelData chunk)) :
    acceptedChunk base64Decode e s = none := by
  unfold acceptedChunk
  rw [h]
  split
  · next hdata _ => exact absurd rfl (hc _)
  · rfl

/-- What an event does to the transfer: nothing; `model-begin` empties it; `model-data` appends a
chunk that fits; or it is closed. -/
inductive XferStep (base64Decode : Bytes → Option Decoded) (e : Event) (s s' : Device) : Prop where
  | same (hxfer : s'.xfer = s.xfer) (haside : s.xferOpen = true →
      Aside base64Decode e s ∧ acceptedChunk base64Decode e s = none)
  | opened (hbegin : e.carried s = some .modelBegin) (hxfer : s'.xfer = (s.xferB64, 0, true))
  | appended (chunk : Bytes) (haside : Aside base64Decode e s)
      (haccept : acceptedChunk base64Decode e s = some chunk) (hopen : s.xferOpen = true)
      (hroom : s.xferLen + chunk.length ≤ modelB64Max)
      (hxfer : s'.xfer = (blit s.xferB64 s.xferLen chunk, s.xferLen + chunk.length, true))
  | closed (hclosed : s'.xferOpen = false) (hfits : XferFits s')

theorem modelData_xferStep {e : Event} {s : Device} {chunk : Bytes} {save del : ℤ}
    (hfits : XferFits s) (hcarried : e.carried s = some (.modelData chunk))
    (hstep : deviceStep base64Decode e s =
      (some (performCommand base64Decode save del (.modelData chunk) s).1,
        (performCommand base64Decode save del (.modelData chunk) s).2)) :
    XferStep base64Decode e s (deviceStep base64Decode e s).2 := by
  by_cases hopen : s.xferOpen = true
  · by_cases hfull : modelB64Max < s.xferLen + chunk.length
    · have hr := modelData_overflow base64Decode save del hopen hfull
      rw [hstep, hr]
      exact .closed rfl ⟨hfits.capacity, hfits.fits⟩
    · have hroom := Nat.not_lt.mp hfull
      have hr := modelData_append base64Decode save del hopen hroom
      have haside : Aside base64Decode e s :=
        aside_of_command hcarried hstep (by simp) (by rw [hr]; simp)
          (not_attempts hcarried (by simp))
      have haccept : acceptedChunk base64Decode e s = some chunk := by
        simp [acceptedChunk, hcarried, hstep, hr]
      refine .appended chunk haside haccept hopen hroom ?_
      rw [hstep, hr, ← hopen]
      rfl
  · have hr := modelData_shut base64Decode chunk save del hopen
    rw [hstep, hr]
    exact .same rfl (fun h => absurd h hopen)

theorem modelCommit_xferStep {e : Event} {s : Device} {save del : ℤ} (hfits : XferFits s)
    (hcarried : e.carried s = some .modelCommit)
    (hstep : deviceStep base64Decode e s =
      (some (performCommand base64Decode save del .modelCommit s).1,
        (performCommand base64Decode save del .modelCommit s).2)) :
    XferStep base64Decode e s (deviceStep base64Decode e s).2 := by
  by_cases hguard : ¬ s.xferOpen = true ∨ s.xferLen = 0
  · have hr : performCommand base64Decode save del .modelCommit s =
        (⟨false, .noTransferOpen⟩, s) := by
      rw [performCommand, if_pos hguard]
    have hattempt : ¬ Attempts base64Decode e s := by
      rintro ⟨-, hanswer⟩
      exact hanswer (by rw [hstep, hr])
    have haside : Aside base64Decode e s :=
      aside_of_command hcarried hstep (by simp) (by rw [hr]; simp) hattempt
    refine .same (by rw [hstep, hr]) (fun _ => ⟨haside, ?_⟩)
    exact acceptedChunk_of_carried hcarried (by simp)
  · -- an attempt, which closes the transfer
    obtain ⟨hopen, hlen⟩ := not_or.mp hguard
    obtain ⟨-, hcommit⟩ := commit_eq_push base64Decode save del (not_not.mp hopen) hlen
    obtain ⟨hxfer, -⟩ := performCommand_xfer base64Decode
      (c := .modelPush (s.xferB64.take s.xferLen)) save del s rfl
    obtain ⟨hb, hl, -⟩ := xfer_fields hxfer
    rw [hstep]
    dsimp only
    rw [hcommit]
    refine .closed rfl ⟨?_, ?_⟩
    · exact (congrArg List.length hb).trans hfits.capacity
    · exact hl.trans_le hfits.fits

variable (base64Decode) in
theorem deviceStep_xferStep (e : Event) {s : Device} (hfits : XferFits s) :
    XferStep base64Decode e s (deviceStep base64Decode e s).2 := by
  by_cases hboot : ∃ calls, e = .boot calls
  · obtain ⟨calls, rfl⟩ := hboot
    obtain ⟨hb, hl, ho⟩ := xfer_fields (boot_xfer calls s.setting)
    refine .closed ho ⟨?_, ?_⟩
    · exact (congrArg List.length hb).trans List.length_replicate
    · exact hl.trans_le (Nat.zero_le _)
  have hnoboot : ∀ calls, e ≠ .boot calls := fun calls he => hboot ⟨calls, he⟩
  cases hcarried : e.carried s with
  | none =>
      exact .same (deviceStep_uncarried hcarried hnoboot) fun _ =>
        ⟨aside_of_uncarried hcarried hnoboot, acceptedChunk_of_carried hcarried (by simp)⟩
  | some c =>
      obtain ⟨save, del, hstep⟩ := deviceStep_carried base64Decode hcarried
      by_cases hc : c.ofTransfer = false
      · refine .same ?_ fun _ =>
          ⟨aside_of_carried hcarried hc, acceptedChunk_of_carried hcarried ?_⟩
        · rw [hstep]
          exact (performCommand_xfer _ save del s hc).1
        · rintro chunk ⟨⟩
          cases hc
      · cases c with
        | modelBegin =>
            rw [hstep]
            exact .opened hcarried rfl
        | modelData chunk => exact modelData_xferStep hfits hcarried hstep
        | modelCommit => exact modelCommit_xferStep hfits hcarried hstep
        | modelPush b64 => exact absurd rfl hc
        | modelInfo => exact absurd rfl hc
        | modelReset => exact absurd rfl hc
        | led mode => exact absurd rfl hc
        | interval arg => exact absurd rfl hc
        | reboot => exact absurd rfl hc
        | unknown => exact absurd rfl hc

theorem deviceStep_xferFits (e : Event) {s : Device} (hfits : XferFits s) :
    XferFits (deviceStep base64Decode e s).2 := by
  cases deviceStep_xferStep base64Decode e hfits with
  | same hsame _ => exact hfits.of_xfer hsame
  | opened _ hempty =>
      obtain ⟨hb, hl, -⟩ := xfer_fields hempty
      exact ⟨by rw [hb, hfits.capacity], by rw [hl]; exact Nat.zero_le _⟩
  | appended chunk _ _ _ hroom happend =>
      obtain ⟨hb, hl, -⟩ := xfer_fields happend
      refine ⟨?_, by rw [hl]; exact hroom⟩
      rw [hb, blit_length (by rw [hfits.capacity]; exact hroom), hfits.capacity]
  | closed _ h => exact h

variable (base64Decode) in
/-- The device after a run from its first power-up. -/
def deviceAfter (setting : Option Bytes) (es : List Event) : Device :=
  runState (deviceStep base64Decode) es (Device.reset setting)

theorem deviceAfter_snoc (setting : Option Bytes) (es : List Event) (e : Event) :
    deviceAfter base64Decode setting (es ++ [e]) =
      (deviceStep base64Decode e (deviceAfter base64Decode setting es)).2 := by
  rw [deviceAfter, runState_append]
  rfl

variable (base64Decode) in
theorem deviceAfter_xferFits (setting : Option Bytes) (es : List Event) :
    XferFits (deviceAfter base64Decode setting es) := by
  refine run_inv (fun e _ s hs => deviceStep_xferFits e hs) ?_
  exact ⟨List.length_replicate, Nat.zero_le _⟩

variable (base64Decode) in
/-- The chunks accepted in a run, one after the other. -/
def acceptedText (es : List Event) (s : Device) : Bytes :=
  (trace (deviceStep base64Decode) es s).flatMap fun p =>
    (acceptedChunk base64Decode p.1 p.2).getD []

theorem acceptedText_snoc (es : List Event) (e : Event) (s : Device) :
    acceptedText base64Decode (es ++ [e]) s = acceptedText base64Decode es s ++
      (acceptedChunk base64Decode e (runState (deviceStep base64Decode) es s)).getD [] := by
  rw [acceptedText, trace_snoc, List.flatMap_append]
  simp [acceptedText]

variable (base64Decode) in
/-- A run has opened a transfer with its last `model-begin`, and has let it alone since then but
for the chunks it accepted. -/
def OpenedBy (setting : Option Bytes) (es : List Event) (acc : Bytes) : Prop :=
  ∃ pre b mid, es = pre ++ b :: mid ∧
    b.carried (deviceAfter base64Decode setting pre) = some .modelBegin ∧
    (∀ p ∈ trace (deviceStep base64Decode) mid (deviceAfter base64Decode setting (pre ++ [b])),
      Aside base64Decode p.1 p.2) ∧
    acc = acceptedText base64Decode mid (deviceAfter base64Decode setting (pre ++ [b]))

/-- An event beside the transfer extends the run that opened it. -/
theorem OpenedBy.snoc {setting : Option Bytes} {es : List Event} {acc : Bytes} {e : Event}
    (h : OpenedBy base64Decode setting es acc)
    (he : Aside base64Decode e (deviceAfter base64Decode setting es)) :
    OpenedBy base64Decode setting (es ++ [e])
      (acc ++ (acceptedChunk base64Decode e (deviceAfter base64Decode setting es)).getD []) := by
  obtain ⟨pre, b, mid, rfl, hbegin, haside, rfl⟩ := h
  have hstate : runState (deviceStep base64Decode) mid
      (deviceAfter base64Decode setting (pre ++ [b])) =
        deviceAfter base64Decode setting (pre ++ b :: mid) := by
    rw [deviceAfter, deviceAfter, ← runState_append, List.append_assoc, List.singleton_append]
  refine ⟨pre, b, mid ++ [e], by simp, hbegin, ?_, ?_⟩
  · rw [trace_snoc, hstate]
    intro p hp
    rcases List.mem_append.mp hp with hp | hp
    · exact haside p hp
    · obtain rfl := List.mem_singleton.mp hp
      exact he
  · rw [acceptedText_snoc, hstate]

/-- The open transfer of a run is the text accepted since its last `model-begin`. -/
theorem open_transfer (setting : Option Bytes) (es : List Event)
    (hopen : (deviceAfter base64Decode setting es).xferOpen = true) :
    ∃ acc, Holding (deviceAfter base64Decode setting es) acc ∧
      OpenedBy base64Decode setting es acc := by
  induction es using List.reverseRecOn with
  | nil => cases hopen
  | append_singleton es e ih =>
      have hfits := deviceAfter_xferFits base64Decode setting es
      rw [deviceAfter_snoc] at hopen ⊢
      generalize hs : deviceAfter base64Decode setting es = s at hfits ih hopen
      cases deviceStep_xferStep base64Decode e hfits with
      | same hsame haside =>
          have hwas : s.xferOpen = true := by rw [← (xfer_fields hsame).2.2, hopen]
          obtain ⟨acc, hhold, hby⟩ := ih hwas
          obtain ⟨hbeside, hnone⟩ := haside hwas
          refine ⟨acc, hhold.of_xfer hsame, ?_⟩
          simpa [hs, hnone] using hby.snoc (e := e) (by rwa [hs])
      | opened hbegin hempty =>
          refine ⟨[], ?_, es, e, [], rfl, by rwa [hs], ?_, rfl⟩
          · obtain ⟨hb, hl, ho⟩ := xfer_fields hempty
            exact ⟨ho, hl, by rw [hl]; rfl⟩
          · intro p hp
            cases hp
      | appended chunk haside haccept hwas hroom happend =>
          obtain ⟨acc, hhold, hby⟩ := ih hwas
          obtain ⟨hb, hl, ho⟩ := xfer_fields happend
          refine ⟨acc ++ chunk, ⟨ho, ?_, ?_⟩, ?_⟩
          · rw [hl, hhold.len, List.length_append]
          · rw [hb, hl, blit_take (by rw [hfits.capacity]; exact hfits.fits), hhold.content]
          · simpa [hs, haccept] using hby.snoc (e := e) (by rwa [hs])
      | closed h _ =>
          rw [h] at hopen
          cases hopen

/-! ## Chunks or one push -/

/-- A step of a transfer: a chunk, or another command in between, with the answers of the settings
store. -/
inductive TransferItem where
  | chunk (c : Bytes) (save del : ℤ)
  | other (text : Bytes) (save del : ℤ)

namespace TransferItem

def event : TransferItem → Event
  | chunk c save del => .command (some (dataText c)) save del
  | other text save del => .command (some text) save del

/-- What the item adds to the transfer. -/
def adds : TransferItem → Bytes
  | chunk c _ _ => c
  | other _ _ _ => []

/-- Chunks are not empty, and the commands in between do not belong to a transfer. -/
def WellFormed : TransferItem → Prop
  | chunk c _ _ => c ≠ []
  | other text _ _ => (parseCommand text).unrelated = true

end TransferItem

def TransferItem.text (items : List TransferItem) : Bytes := items.flatMap TransferItem.adds

variable (base64Decode) in
theorem deviceStep_running {text : Bytes} {c : Command} {save del : ℤ} {s : Device}
    (hup : s.phase = .running) (hparse : parseCommand text = c) :
    deviceStep base64Decode (.command (some text) save del) s =
      (some (performCommand base64Decode save del c s).1,
        (performCommand base64Decode save del c s).2) := by
  simp [deviceStep, hup, onCommand, hparse]

/-- A commit is refused, or it does what a push does of the text accepted since the last
`model-begin`. -/
theorem commit_of_run (setting : Option Bytes) (es : List Event) {cmd : Bytes} {save del : ℤ}
    (hup : (deviceAfter base64Decode setting es).phase = .running)
    (hcmd : parseCommand cmd = .modelCommit) :
    let s := deviceAfter base64Decode setting es
    let commit := deviceStep base64Decode (.command (some cmd) save del) s
    commit = (some ⟨false, .noTransferOpen⟩, s) ∨
      ∃ text, OpenedBy base64Decode setting es text ∧ text ≠ [] ∧
        let push := performCommand base64Decode save del (.modelPush text) s
        commit = (some push.1.chunked, { push.2 with xferOpen := false }) := by
  intro s commit
  have hcommit : commit = _ := deviceStep_running base64Decode hup hcmd
  by_cases hguard : ¬ s.xferOpen = true ∨ s.xferLen = 0
  · left
    rw [hcommit, performCommand, if_pos hguard]
  · right
    obtain ⟨hopen, hlen⟩ := not_or.mp hguard
    obtain ⟨acc, hhold, hby⟩ := open_transfer setting es (not_not.mp hopen)
    obtain ⟨hanswer, hstate⟩ := commit_eq_push base64Decode save del hhold.isOpen hlen
    rw [hhold.content] at hanswer hstate
    refine ⟨acc, hby, ?_, ?_⟩
    · rintro rfl
      exact hlen hhold.len
    · rw [hcommit]
      exact Prod.ext (congrArg some hanswer) hstate

variable (base64Decode) in
/-- An item of a transfer adds its chunk. -/
theorem item_holding {i : TransferItem} {s : Device} {acc : Bytes} (hi : i.WellFormed)
    (hblank : 32 ∉ i.adds) (hroom : acc.length + i.adds.length ≤ modelB64Max)
    (hhold : Holding s acc) (hfits : XferFits s) (hup : s.phase = .running) :
    Holding (deviceStep base64Decode i.event s).2 (acc ++ i.adds) ∧
      (deviceStep base64Decode i.event s).2.phase = .running := by
  cases i with
  | chunk c save del =>
      rw [TransferItem.event, deviceStep_running _ hup (parse_dataText hi hblank)]
      obtain ⟨-, hhold', -, hphase⟩ := modelData_holding base64Decode save del
        hhold hfits hroom
      exact ⟨hhold', hphase.trans hup⟩
  | other text save del =>
      obtain ⟨hc, hreboot⟩ : (parseCommand text).ofTransfer = false ∧
          parseCommand text ≠ .reboot := by
        simpa [TransferItem.WellFormed, Command.unrelated] using hi
      rw [TransferItem.event, deviceStep_running _ hup rfl]
      obtain ⟨hxfer, hphase⟩ := performCommand_xfer base64Decode save del s hc
      constructor
      · rw [TransferItem.adds, List.append_nil]
        exact hhold.of_xfer hxfer
      · show (performCommand base64Decode save del (parseCommand text) s).2.phase = .running
        rw [hphase hreboot, hup]

variable (base64Decode) in
/-- The items of a transfer add their chunks in order. -/
theorem items_holding {items : List TransferItem} {s : Device} {acc : Bytes}
    (hitems : ∀ i ∈ items, i.WellFormed) (hblank : 32 ∉ TransferItem.text items)
    (hroom : acc.length + (TransferItem.text items).length ≤ modelB64Max)
    (hhold : Holding s acc) (hfits : XferFits s) (hup : s.phase = .running) :
    Holding (runState (deviceStep base64Decode) (items.map TransferItem.event) s)
        (acc ++ TransferItem.text items) ∧
      (runState (deviceStep base64Decode) (items.map TransferItem.event) s).phase = .running := by
  induction items generalizing s acc with
  | nil => simpa [TransferItem.text] using And.intro hhold hup
  | cons i items ih =>
      have htext : TransferItem.text (i :: items) = i.adds ++ TransferItem.text items := rfl
      rw [htext] at hblank hroom ⊢
      rw [List.length_append] at hroom
      obtain ⟨hhold', hup'⟩ := item_holding base64Decode
        (hitems i List.mem_cons_self) (fun h => hblank (List.mem_append_left _ h)) (by omega)
        hhold hfits hup
      rw [List.map_cons, runState_cons, ← List.append_assoc]
      exact ih (fun j hj => hitems j (List.mem_cons_of_mem _ hj))
        (fun h => hblank (List.mem_append_right _ h)) (by rw [List.length_append]; omega)
        hhold' (deviceStep_xferFits i.event hfits) hup'

end Transfer

/-- **A chunked transfer is one push.** In every reachable state of a device that is up, the
commands `model-begin`, `model-data` for the chunks of a text, with others in between, and
`model-commit` end with the result that `model-push` of the text has there. And whatever the
commands, a `model-commit` is refused and changes nothing, or it ends as `model-push` of exactly the
chunks accepted since the last `model-begin` does, with no overflow and no other attempt since
then. -/
theorem chunked_transfer_is_push (base64Decode : Bytes → Option Decoded) (setting : Option Bytes)
    (es : List Event) :
    (∀ (items : List TransferItem) (save₀ del₀ save del : ℤ),
      (deviceAfter base64Decode setting es).phase = .running →
      (∀ i ∈ items, i.WellFormed) → 32 ∉ TransferItem.text items →
      TransferItem.text items ≠ [] → (TransferItem.text items).length ≤ modelB64Max →
      let s := deviceAfter base64Decode setting
        (es ++ .command (some beginText) save₀ del₀ :: items.map TransferItem.event)
      let commit := deviceStep base64Decode (.command (some commitText) save del) s
      let push := deviceStep base64Decode
        (.command (some (pushText (TransferItem.text items))) save del) s
      commit.1 = push.1.map Answer.chunked ∧ commit.2 = { push.2 with xferOpen := false }) ∧
    ∀ (cmd : Bytes) (save del : ℤ), (deviceAfter base64Decode setting es).phase = .running →
      parseCommand cmd = .modelCommit →
      let s := deviceAfter base64Decode setting es
      let commit := deviceStep base64Decode (.command (some cmd) save del) s
      commit = (some ⟨false, .noTransferOpen⟩, s) ∨
        ∃ text, OpenedBy base64Decode setting es text ∧ text ≠ [] ∧
          let push := performCommand base64Decode save del (.modelPush text) s
          commit = (some push.1.chunked, { push.2 with xferOpen := false }) := by
  constructor
  · intro items save₀ del₀ save del hup hitems hblank hne hlen s commit push
    have hfits := deviceAfter_xferFits base64Decode setting es
    -- the transfer is open and empty behind `model-begin`
    have hbegin : deviceStep base64Decode (.command (some beginText) save₀ del₀)
        (deviceAfter base64Decode setting es) = _ :=
      deviceStep_running base64Decode hup parse_beginText
    have hs : s = runState (deviceStep base64Decode) (items.map TransferItem.event)
        (performCommand base64Decode save₀ del₀ .modelBegin
          (deviceAfter base64Decode setting es)).2 := by
      show deviceAfter base64Decode setting _ = _
      rw [deviceAfter, runState_append, runState_cons]
      show runState _ _ (deviceStep base64Decode _ (deviceAfter base64Decode setting es)).2 = _
      rw [hbegin]
    have hopened : Holding (performCommand base64Decode save₀ del₀ .modelBegin
        (deviceAfter base64Decode setting es)).2 [] := ⟨rfl, rfl, rfl⟩
    have hfits' : XferFits (performCommand base64Decode save₀ del₀ .modelBegin
        (deviceAfter base64Decode setting es)).2 := ⟨hfits.capacity, Nat.zero_le _⟩
    obtain ⟨hhold, hup'⟩ := items_holding base64Decode hitems hblank
      (by simpa using hlen) hopened hfits' hup
    rw [← hs] at hhold hup'
    rw [List.nil_append] at hhold
    have hlen' : s.xferLen ≠ 0 := by
      rw [hhold.len]
      exact fun h => hne (List.length_eq_zero_iff.mp h)
    obtain ⟨hanswer, hstate⟩ := commit_eq_push base64Decode save del hhold.isOpen hlen'
    rw [hhold.content] at hanswer hstate
    have hcommit : commit = _ := deviceStep_running _ hup' parse_commitText
    have hpush : push = _ := deviceStep_running _ hup' (parse_pushText hne hblank)
    rw [hcommit, hpush]
    exact ⟨congrArg some hanswer, hstate⟩
  · intro cmd save del hup hcmd
    exact commit_of_run setting es hup hcmd

/-- `"AA=="` is the text of one byte; other texts are refused. -/
def decodeOneByte (text : Bytes) : Option Decoded :=
  if text = ascii "AA==" then some ⟨[0], by decide⟩ else none

/-- A transfer in two chunks with `model-info` in between: its commit answers like a push. -/
theorem chunked_transfer_two_chunks :
    let s := deviceAfter decodeOneByte none [.boot [], .command (some beginText) 0 0,
      .command (some (dataText (ascii "AA"))) 0 0, .command (some (ascii "model-info")) 0 0,
      .command (some (dataText (ascii "=="))) 0 0]
    (deviceStep decodeOneByte (.command (some commitText) 0 0) s).1 =
      (deviceStep decodeOneByte (.command (some (pushText (ascii "AA=="))) 0 0) s).1.map
        Answer.chunked :=
  ((chunked_transfer_is_push decodeOneByte none [.boot []]).1
    [.chunk (ascii "AA") 0 0, .other (ascii "model-info") 0 0, .chunk (ascii "==") 0 0] 0 0 0 0
    (by decide +kernel)
    (by
      simp only [List.forall_mem_cons]
      exact ⟨show ascii "AA" ≠ [] by decide,
        show (parseCommand (ascii "model-info")).unrelated = true by decide,
        show ascii "==" ≠ [] by decide, by simp⟩)
    (by decide) (by decide) (by decide)).1

end IotcDemos.Iotm
