import IotcDemos.Iotm.Blob
import IotcDemos.Lib.CNumber
import IotcDemos.Lib.Errno
import IotcDemos.Lib.Run
import IotcDemos.Zip.Termination

set_option autoImplicit false

/-! # The ml-model-update demo: commands, model pushes and boots

The state the callbacks of the C2D thread work on, and what they do to it. A model reaches
`model_blob` on four ways: from the settings store at boot, by `model-push`, by `model-begin`,
`model-data` and `model-commit`, and by a download. `base64_decode`, the settings store and the
download are not code of the demo: the decoder is a parameter, and the others answer as the event
says.
-/

namespace IotcDemos.Iotm

def modelB64Max : ℕ := 1100
def modelDlMax : ℕ := 8192

/-! ## State -/

/-- The values of `model_src`. -/
inductive ModelSrc where
  | none
  | builtin
  | flash
  | cloud
  deriving DecidableEq

def ModelSrc.text : ModelSrc → String
  | none => "none"
  | builtin => "builtin"
  | flash => "flash"
  | cloud => "cloud"

inductive LedMode where
  | auto
  | on
  | off
  deriving DecidableEq

/-- The C2D thread is not there before the boot sequence has ended, and does not come back from a
ZIP walk that never ends. -/
inductive Phase where
  | off
  | running
  | stuck
  deriving DecidableEq

/-- The RAM of the demo, and the setting `mlmdl/blob` in NVS. -/
structure Device where
  phase : Phase
  modelBlob : Bytes
  modelLen : ℕ
  modelSrc : ModelSrc
  xferB64 : Bytes
  xferLen : ℕ
  xferOpen : Bool
  ledMode : LedMode
  ledState : Bool
  publishIntervalSec : ℤ
  setting : Option Bytes

/-- The RAM at reset, with what the store holds. -/
def Device.reset (setting : Option Bytes) : Device where
  phase := .off
  modelBlob := List.replicate modelMaxBlob 0
  modelLen := 0
  modelSrc := .none
  xferB64 := List.replicate modelB64Max 0
  xferLen := 0
  xferOpen := false
  ledMode := .auto
  ledState := false
  publishIntervalSec := 5
  setting := setting

/-- The bytes `model_blob[0..model_len)`. -/
def Device.active (s : Device) : Bytes := s.modelBlob.take s.modelLen

/-- The header that `model_blob` is cast to. -/
def Device.hdr (s : Device) : ModelHdr := modelHdr (byteAt s.modelBlob)

/-! ## Answers -/

/-- The text of an acknowledgement. -/
inductive Note where
  | unknownCommand
  | installed (ver : UInt16) (src : ModelSrc)
  | rejected (reason : String)
  | transferOpen
  | noTransferOpen
  | overflow
  | received (chars : ℕ)
  | installedChunked (ver : UInt16)
  | info (text : String)
  | reverted (ver : UInt16)
  | ledForcedOn
  | ledForcedOff
  | ledFollows
  | interval (sec : ℤ)
  | intervalOutOfRange
  /-- `reboot` is acknowledged without a text. -/
  | rebooting
  | noMemory
  | noUrl
  | downloadFailed (ret : ℤ)
  | deployed (ver : UInt16) (len : ℕ)
  deriving DecidableEq

def Note.text : Note → String
  | unknownCommand => "unknown command"
  | installed ver src => "model v" ++ toString ver.toNat ++ " installed (" ++ src.text ++ ")"
  | rejected reason => "rejected: " ++ reason
  | transferOpen => "transfer open (max " ++ toString modelB64Max ++ " b64 chars)"
  | noTransferOpen => "no transfer open"
  | overflow => "overflow; transfer aborted"
  | received chars => toString chars ++ "/" ++ toString modelB64Max ++ " b64 chars"
  | installedChunked ver => "model v" ++ toString ver.toNat ++ " installed (chunked)"
  | info text => text
  | reverted ver => "reverted to builtin model v" ++ toString ver.toNat
  | ledForcedOn => "LED forced on"
  | ledForcedOff => "LED forced off"
  | ledFollows => "LED follows the model"
  | interval sec => "interval=" ++ toString sec ++ "s"
  | intervalOutOfRange => "interval out of range"
  | rebooting => ""
  | noMemory => "no memory for download buffer"
  | noUrl => "no download URL in model push"
  | downloadFailed ret => "download failed (" ++ toString ret ++ ")"
  | deployed ver len => "model v" ++ toString ver.toNat ++ " deployed (" ++ toString len ++ " B)"

/-- An acknowledgement: `status` is a success or a failure. -/
structure Answer where
  accepted : Bool
  note : Note
  deriving DecidableEq

/-- The C string at `p`. -/
def cStringAt (mem : Bytes) (p : ℕ) : String :=
  String.ofList (((mem.drop p).takeWhile (· ≠ 0)).map fun b => Char.ofNat b.toNat)

/-- `%08x`. -/
def hex8 (x : UInt32) : String :=
  let digits := Nat.toDigits 16 x.toNat
  String.ofList (List.replicate (8 - digits.length) '0' ++ digits)

/-- The note of `model-info`, cut to the 95 characters it has room for. -/
def Device.infoText (s : Device) : String :=
  let h := s.hdr
  let label := fun i => cStringAt s.modelBlob (12 + 12 * i)
  let text := "v" ++ toString h.modelVer.toNat ++ " " ++ s.modelSrc.text ++ " "
    ++ toString s.modelLen ++ "B " ++ toString h.nIn.toNat ++ "-" ++ toString h.nHid.toNat ++ "-"
    ++ toString h.nOut.toNat ++ " crc=" ++ hex8 h.crc ++ " [" ++ label 0 ++ "/" ++ label 1 ++ "/"
    ++ (if h.nOut > 2 then label 2 else "-") ++ "]"
  String.ofList (text.toList.take 95)

/-! ## Commands -/

/-- `tok_is`. -/
def tokIs (tok : Bytes) (name : String) : Bool := tok.map tolower == ascii name

/-- `"<name> [arg]"` at its first blank; an empty argument is none. -/
def splitCommand (cmd : Bytes) : Bytes × Option Bytes :=
  let cmd := cmd.dropWhile (· == 32)
  let arg := ((cmd.dropWhile (· != 32)).tail).dropWhile (· == 32)
  (cmd.takeWhile (· != 32), if arg = [] then none else some arg)

/-- The commands `on_command` knows. -/
inductive Command where
  | modelPush (b64 : Bytes)
  | modelBegin
  | modelData (chunk : Bytes)
  | modelCommit
  | modelInfo
  | modelReset
  | led (mode : LedMode)
  | interval (arg : Bytes)
  | reboot
  | unknown
  deriving DecidableEq

/-- The chain of `tok_is` in `on_command`: a command that needs an argument is unknown without
one. -/
def parseCommand (text : Bytes) : Command :=
  match splitCommand text with
  | (tok, some arg) =>
      if tokIs tok "model-push" then .modelPush arg
      else if tokIs tok "model-begin" then .modelBegin
      else if tokIs tok "model-data" then .modelData arg
      else if tokIs tok "model-commit" then .modelCommit
      else if tokIs tok "model-info" then .modelInfo
      else if tokIs tok "model-reset" then .modelReset
      else if tokIs tok "led-on" then .led .on
      else if tokIs tok "led-off" then .led .off
      else if tokIs tok "led-auto" then .led .auto
      else if tokIs tok "interval" then .interval arg
      else if tokIs tok "reboot" then .reboot
      else .unknown
  | (tok, none) =>
      if tokIs tok "model-begin" then .modelBegin
      else if tokIs tok "model-commit" then .modelCommit
      else if tokIs tok "model-info" then .modelInfo
      else if tokIs tok "model-reset" then .modelReset
      else if tokIs tok "led-on" then .led .on
      else if tokIs tok "led-off" then .led .off
      else if tokIs tok "led-auto" then .led .auto
      else if tokIs tok "reboot" then .reboot
      else .unknown

/-! ## Installing -/

/-- `model_install`; `save` is what `settings_save_one` returns. -/
def modelInstall (blob : Bytes) (src : ModelSrc) (persist : Bool) (save : ℤ) (s : Device) :
    ℤ × Device :=
  match modelValidate blob with
  | some _ => (-EINVAL, s)
  | none =>
      let s := { s with
        modelBlob := blit s.modelBlob 0 blob
        modelLen := blob.length
        modelSrc := src }
      (0, if persist && save == 0 then { s with setting := some blob } else s)

/-- A call of `mlmdl_set`: the name below `mlmdl/`, the length as that of what `read_cb` leaves in
the buffer, and what it returns. -/
structure SettingsCall where
  name : String
  content : Bytes
  ret : ℤ

def mlmdlSet (c : SettingsCall) (s : Device) : ℤ × Device :=
  if c.name ≠ "blob" ∨ c.content.length > modelMaxBlob then (-ENOENT, s)
  else if c.ret ≠ c.content.length then (- EIO, s)
  else (0, (modelInstall c.content .flash false 0 s).2)

/-- The boot sequence of `main`, with the calls of `mlmdl_set` that loading the subtree makes. -/
def boot (calls : List SettingsCall) (setting : Option Bytes) : Device :=
  let s := calls.foldl (fun s c => (mlmdlSet c s).2) (Device.reset setting)
  let s := if s.modelLen = 0 then (modelInstall modelBuiltin .builtin false 0 s).2 else s
  { s with phase := .running }

/-- A download, as `on_model_push` sees it: whether there is a buffer and an URL, what
`iotc_https_download` returns, and the memory from the buffer on. -/
structure Download where
  buffer : Bool
  url : Bool
  ret : ℤ
  mem : Mem
  len : Fin (modelDlMax + 1)

/-- `"PK"`. -/
def pkPrefix : Bytes := [0x50, 0x4B]

/-- The blob of a download: the entry of an archive, or the body itself. There is none when the
walk of the archive never ends. -/
def Download.blob (dl : Download) : Option (Except String Bytes) :=
  if 4 ≤ dl.len.val ∧ memcmpEq dl.mem 0 pkPrefix then
    (zipAnswer .iotm dl.mem (UInt32.ofNat dl.len.val)).map fun r =>
      r.map fun payload => bytesAt dl.mem payload.1.toNat payload.2.toNat
  else some (.ok (bytesAt dl.mem 0 dl.len.val))

/-- What base64_decode leaves in a buffer of `MODEL_MAX_BLOB` bytes. -/
abbrev Decoded := { b : Bytes // b.length ≤ modelMaxBlob }

section Callbacks

variable (base64Decode : Bytes → Option Decoded)

/-- `install_b64`: `none` when the model is installed, else the reason. -/
def installB64 (b64 : Bytes) (save : ℤ) (s : Device) : Option String × Device :=
  match base64Decode b64 with
  | none => (some "base64 decode failed", s)
  | some decoded =>
      match modelValidate decoded.val with
      | some err => (some err, s)
      | none => (none, (modelInstall decoded.val .cloud true save s).2)

/-- The branches of `on_command`; `save` and `del` are what the settings store answers. -/
def performCommand (save del : ℤ) : Command → Device → Answer × Device
  | .modelPush b64, s =>
      match installB64 base64Decode b64 save s with
      | (none, s) => (⟨true, .installed s.hdr.modelVer s.modelSrc⟩, s)
      | (some err, s) => (⟨false, .rejected err⟩, s)
  | .modelBegin, s => (⟨true, .transferOpen⟩, { s with xferLen := 0, xferOpen := true })
  | .modelData chunk, s =>
      if ¬ s.xferOpen then (⟨false, .noTransferOpen⟩, s)
      else if s.xferLen + chunk.length > modelB64Max then
        (⟨false, .overflow⟩, { s with xferOpen := false })
      else
        (⟨true, .received (s.xferLen + chunk.length)⟩, { s with
          xferB64 := blit s.xferB64 s.xferLen chunk
          xferLen := s.xferLen + chunk.length })
  | .modelCommit, s =>
      -- a commit with nothing received leaves the transfer open
      if ¬ s.xferOpen ∨ s.xferLen = 0 then (⟨false, .noTransferOpen⟩, s)
      else
        match installB64 base64Decode (s.xferB64.take s.xferLen) save s with
        | (none, s) => (⟨true, .installedChunked s.hdr.modelVer⟩, { s with xferOpen := false })
        | (some err, s) => (⟨false, .rejected err⟩, { s with xferOpen := false })
  | .modelInfo, s => (⟨true, .info s.infoText⟩, s)
  | .modelReset, s =>
      let s := if del = 0 then { s with setting := none } else s
      let s := (modelInstall modelBuiltin .builtin false 0 s).2
      (⟨true, .reverted s.hdr.modelVer⟩, s)
  | .led .on, s => (⟨true, .ledForcedOn⟩, { s with ledMode := .on, ledState := true })
  | .led .off, s => (⟨true, .ledForcedOff⟩, { s with ledMode := .off, ledState := false })
  | .led .auto, s => (⟨true, .ledFollows⟩, { s with ledMode := .auto })
  | .interval arg, s =>
      if atoi arg ≥ 1 ∧ atoi arg ≤ 3600 then
        (⟨true, .interval (atoi arg)⟩, { s with publishIntervalSec := atoi arg })
      else (⟨false, .intervalOutOfRange⟩, s)
  | .reboot, s => (⟨true, .rebooting⟩, { s with phase := .off })
  | .unknown, s => (⟨false, .unknownCommand⟩, s)

/-- `on_command`; the command may be missing. -/
def onCommand (cmd : Option Bytes) (save del : ℤ) (s : Device) : Answer × Device :=
  match cmd with
  | none => (⟨false, .unknownCommand⟩, s)
  | some text => performCommand base64Decode save del (parseCommand text) s

/-- `on_model_push`; it gives no answer when the walk of the archive never ends. -/
def onModelPush (dl : Download) (save : ℤ) (s : Device) : Option Answer × Device :=
  if ¬ dl.buffer then (some ⟨false, .noMemory⟩, s)
  else if ¬ dl.url then (some ⟨false, .noUrl⟩, s)
  else if dl.ret ≠ 0 then (some ⟨false, .downloadFailed dl.ret⟩, s)
  else
    match dl.blob with
    | none => (none, { s with phase := .stuck })
    | some (.error err) => (some ⟨false, .rejected err⟩, s)
    | some (.ok blob) =>
        match modelValidate blob with
        | some err => (some ⟨false, .rejected err⟩, s)
        | none =>
            let s := (modelInstall blob .cloud true save s).2
            (some ⟨true, .deployed s.hdr.modelVer blob.length⟩, s)

/-! ## Runs -/

/-- What happens to the device. -/
inductive Event where
  /-- Power-up, after a `reboot` or at any other time. -/
  | boot (calls : List SettingsCall)
  | command (cmd : Option Bytes) (save del : ℤ)
  | push (dl : Download) (save : ℤ)

/-- The command that an event has the C2D thread carry out. -/
def Event.carried : Event → Device → Option Command
  | command (some text) _ _, s => if s.phase = .running then some (parseCommand text) else none
  | _, _ => none

/-- What the settings store answers to an event: `model-reset` deletes, other commands save. -/
def Event.storeResult : Event → Device → ℤ
  | boot _, _ => 0
  | command cmd save del, s =>
      if (command cmd save del).carried s = some .modelReset then del else save
  | push _ save, _ => save

def deviceStep : Event → Device → Option Answer × Device
  | .boot calls, s => (none, boot calls s.setting)
  | .command cmd save del, s =>
      if s.phase = .running then
        let (a, s) := onCommand base64Decode cmd save del s
        (some a, s)
      else (none, s)
  | .push dl save, s => if s.phase = .running then onModelPush dl save s else (none, s)

end Callbacks

end IotcDemos.Iotm
