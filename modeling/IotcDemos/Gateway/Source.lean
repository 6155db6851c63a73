import IotcDemos.Gateway.ChildRecord
import IotcDemos.Gateway.Relay
import IotcDemos.Lib.Excerpt
import IotcDemos.Lib.PyText
import Mathlib.Data.Bool.AllAny

set_option autoImplicit false

/-! # From a source board to a child record

A board without a network prints its telemetry on its console
(`demos/uart-telemetry-source/src/main.c`). The console is wired to a UART of the gateway, or read
by `relay_sources.py`, which writes to that UART. cJSON, which iotc-c-lib prints with, and `double`
are parameters.
-/

namespace IotcDemos

/-! ## The source -/

/-- The results of the calls in a round of the loop. -/
structure SourceRound (N : Type) where
  /-- `iotcl_telemetry_create` gives a message. -/
  created : Bool
  /-- `k_uptime_get()` -/
  uptimeMs : Int
  /-- What `iotc_vitals_append` adds, where it is built in. -/
  vitals : List (CStr × Json N)
  /-- `iotcl_telemetry_create_serialized_string` gives a string. -/
  serialized : Bool

section Source

variable {N : Type} [IntCast N] [Add N] [Div N]

/-- The values of a message. -/
def sourceValues (board : CStr) (seq : UInt32) (r : SourceRound N) : List (CStr × Json N) :=
  let pseudoTemp : N := ((30 : Int) : N) + (((r.uptimeMs.tdiv 1000).tmod 100 : Int) : N) /
    ((10 : Int) : N)
  [(⟨ascii "sequence", by decide⟩, .num ((seq.toNat : Int) : N)),
    (⟨ascii "uptime_s", by decide⟩, .num ((r.uptimeMs : N) / ((1000 : Int) : N))),
    (⟨ascii "cpu_temp_c", by decide⟩, .num pseudoTemp),
    (keyBoard, .str board),
    (⟨ascii "bearer", by decide⟩, .str ⟨ascii "uart-source", by decide⟩),
    (⟨ascii "status", by decide⟩, .str ⟨ascii "Ready", by decide⟩),
    (⟨ascii "safe_state", by decide⟩, .bool true)] ++ r.vitals

/-- The message that iotc-c-lib makes of the values. -/
def telemetryMessage (values : List (CStr × Json N)) : Json N :=
  .obj [(keyD, .arr [.obj [(keyD, .obj values)]])]

variable (cjson : CJson N) (board : CStr)

/-- A round of the loop: what it prints, and `seq` after it. -/
def sourceStep (r : SourceRound N) (seq : UInt32) : Bytes × UInt32 :=
  -- `seq` counts the messages that were made, also those that cannot be printed
  if r.created = false then (ascii "telemetry_create failed (out of memory)\n", seq)
  else if r.serialized = false then (ascii "telemetry serialize failed\n", seq + 1)
  else
    let json := cjson.printUnformatted (telemetryMessage (sourceValues board seq r))
    (ascii "IOTC-TELEMETRY: " ++ json ++ ascii "\n", seq + 1)

/-- The values of the messages that are printed, from `seq` on. -/
def printedValues : List (SourceRound N) → UInt32 → List (List (CStr × Json N))
  | [], _ => []
  | r :: rounds, seq =>
      if r.created = false then printedValues rounds seq
      else if r.serialized = false then printedValues rounds (seq + 1)
      else sourceValues board seq r :: printedValues rounds (seq + 1)

/-- The text that the gateway gets of a message. -/
def printed (values : List (CStr × Json N)) : Bytes :=
  cjson.printUnformatted (telemetryMessage values)

end Source

/-! ## The console -/

section Lines

variable {N : Type} [IntCast N] [Add N] [Div N] {cjson : CJson N} {board : CStr}

/-- The messages that are not too long for the gateway. -/
def fitting (cjson : CJson N) (messages : List (List (CStr × Json N))) :
    List (List (CStr × Json N)) :=
  messages.filter fun values => (printed cjson values).length ≤ 1007

variable (cjson board) in
/-- The lines that the loop prints in these rounds. -/
structure LoopLines (rounds : List (SourceRound N)) (seq : UInt32) (lines : List Bytes) : Prop where
  text : (run (sourceStep cjson board) rounds seq).1.flatten = lines.flatMap (· ++ [10])
  oneLine : ∀ line ∈ lines, ∀ c ∈ line, isEol c = false
  telemetry : lines.filterMap telemetryLine
    = (fitting cjson (printedValues board rounds seq)).map (printed cjson)

section Round

variable {r : SourceRound N} {rounds : List (SourceRound N)} {seq seq' : UInt32}
  {lines : List Bytes}

/-- No message is printed in a round. -/
theorem LoopLines.failed (h : LoopLines cjson board rounds seq' lines) {line : Bytes}
    (hstep : sourceStep cjson board r seq = (line ++ [10], seq'))
    (hvalues : printedValues board (r :: rounds) seq = printedValues board rounds seq')
    (hline : ∀ c ∈ line, isEol c = false) (hnone : telemetryLine line = none) :
    LoopLines cjson board (r :: rounds) seq (line :: lines) where
  text := by
    rw [run_cons, hstep, List.flatten_cons, h.text, List.flatMap_cons]
  oneLine := List.forall_mem_cons.mpr ⟨hline, h.oneLine⟩
  telemetry := by
    rw [List.filterMap_cons_none hnone, h.telemetry, hvalues]

end Round

end Lines

end IotcDemos
