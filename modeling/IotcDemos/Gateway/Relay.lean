import IotcDemos.Gateway.Framing
import IotcDemos.Lib.Split

set_option autoImplicit false

/-! # The relay on the PC (`demos/gateway/tools/relay_sources.py`)

`pump` reads the console of a source board in pieces of any length, cuts it into lines at `'\n'` and
writes the telemetry lines to the UART of the gateway. The handler of that UART ends a line at a
`'\r'` as well. What the relay leaves out is `pump_eq`; when it matters is `relay_stands_in_iff`.
-/

namespace IotcDemos

/-! ## `pump` -/

def isLf (c : UInt8) : Bool := c == 10

def isCr (c : UInt8) : Bool := c == 13

/-- What is written to the gateway for a line. -/
def relayLine (line : Bytes) : Bytes :=
  let line := strip isCr line
  if ingestPrefix <+: line then line ++ [10] else []

/-- The `while` loop: what it writes, and what it leaves in `buf`. -/
def pumpLoop (buf : Bytes) : Bytes × Bytes :=
  if buf.any isLf then
    -- `line, buf = buf.split(b"\n", 1)`
    let line := buf.takeWhile fun c => !isLf c
    let (out, rest) := pumpLoop (buf.drop (line.length + 1))
    (relayLine line ++ out, rest)
  else ([], buf)
termination_by buf.length
decreasing_by
  have hne : buf ≠ [] := by
    rintro rfl
    contradiction
  have hpos := List.length_pos_iff.mpr hne
  rw [List.length_drop]
  omega

/-- A round of `pump` that has read `data`. -/
def pumpRead (data buf : Bytes) : Bytes × Bytes := pumpLoop (buf ++ data)

/-- What `pump` writes to the gateway. -/
def pump (chunks : List Bytes) : Bytes := (run pumpRead chunks []).1.flatten

/-! ## What the relay writes -/

/-- The lines of a stream that end in `'\n'`, and what follows the last one. -/
def lfLines (stream : Bytes) : List Bytes := (stream.splitOnP isLf).dropLast

def lfRest (stream : Bytes) : Bytes := (stream.splitOnP isLf).getLastD []

theorem pumpLoop_line {line : Bytes} (rest : Bytes) (hline : ∀ c ∈ line, isLf c = false) :
    pumpLoop (line ++ 10 :: rest) =
      (relayLine line ++ (pumpLoop rest).1, (pumpLoop rest).2) := by
  have hany : (line ++ 10 :: rest).any isLf = true := by simp [isLf]
  have htake : (line ++ 10 :: rest).takeWhile (fun c => !isLf c) = line := by
    rw [List.takeWhile_append_of_pos (by simpa using hline)]
    simp [isLf]
  have hdrop : (line ++ 10 :: rest).drop (line.length + 1) = rest := by
    rw [← List.drop_drop, List.drop_left]
    rfl
  rw [pumpLoop, if_pos hany]
  dsimp only
  rw [htake, hdrop]

theorem pumpLoop_rest {buf : Bytes} (h : ∀ c ∈ buf, isLf c = false) : pumpLoop buf = ([], buf) := by
  have hany : ¬ buf.any isLf = true := by
    rw [List.any_eq_true]
    rintro ⟨c, hc, hlf⟩
    rw [h c hc] at hlf
    cases hlf
  rw [pumpLoop, if_neg hany]

/-- Every stream is a rest without `'\n'`, or starts with a line. -/
theorem lines_induction {P : Bytes → Prop} (hrest : ∀ buf, (∀ c ∈ buf, isLf c = false) → P buf)
    (hline : ∀ line rest, (∀ c ∈ line, isLf c = false) → P rest → P (line ++ 10 :: rest))
    (buf : Bytes) : P buf := by
  suffices ∀ line, (∀ c ∈ line, isLf c = false) → P (line ++ buf) from this [] nofun
  induction buf with
  | nil =>
      intro line h
      rw [List.append_nil]
      exact hrest line h
  | cons c buf ih =>
      intro line h
      cases hc : isLf c with
      | true =>
          obtain rfl : c = 10 := by simpa [isLf] using hc
          exact hline line buf h (ih [] nofun)
      | false =>
          rw [List.append_cons]
          refine ih (line ++ [c]) fun d hd => ?_
          rcases List.mem_append.mp hd with hd | hd
          · exact h d hd
          · rw [List.mem_singleton.mp hd]
            exact hc

theorem lfLines_line {line : Bytes} (rest : Bytes) (hline : ∀ c ∈ line, isLf c = false) :
    lfLines (line ++ 10 :: rest) = line :: lfLines rest ∧
      lfRest (line ++ 10 :: rest) = lfRest rest := by
  have hne := List.splitOnP_ne_nil isLf rest
  rw [lfLines, lfRest, List.splitOnP_append_cons_of_forall_mem hline 10 rfl,
    List.dropLast_cons_of_ne_nil hne]
  refine ⟨rfl, ?_⟩
  rw [List.getLastD_cons, lfRest]
  obtain ⟨part, parts, hparts⟩ := List.exists_cons_of_ne_nil hne
  rw [hparts, List.getLastD_cons, List.getLastD_cons]

theorem lfLines_rest {buf : Bytes} (h : ∀ c ∈ buf, isLf c = false) :
    lfLines buf = [] ∧ lfRest buf = buf := by
  rw [lfLines, lfRest, List.splitOnP_eq_singleton h]
  exact ⟨rfl, rfl⟩

theorem lfRest_isLf (buf : Bytes) : ∀ c ∈ lfRest buf, isLf c = false := by
  induction buf using lines_induction with
  | hrest buf h =>
      rw [(lfLines_rest h).2]
      exact h
  | hline line rest h ih =>
      rw [(lfLines_line rest h).2]
      exact ih

/-- The loop cuts the lines off. -/
theorem pumpLoop_eq (buf : Bytes) :
    pumpLoop buf = ((lfLines buf).flatMap relayLine, lfRest buf) := by
  induction buf using lines_induction with
  | hrest buf h =>
      obtain ⟨hlines, hrest⟩ := lfLines_rest h
      rw [pumpLoop_rest h, hlines, hrest]
      rfl
  | hline line rest h ih =>
      obtain ⟨hlines, hrest⟩ := lfLines_line rest h
      rw [pumpLoop_line rest h, hlines, hrest, ih]
      rfl

/-- Whether the loop runs before or after the next piece is read does not matter. -/
theorem pumpLoop_append (buf data : Bytes) : (pumpLoop (buf ++ data)).1 =
    (pumpLoop buf).1 ++ (pumpLoop ((pumpLoop buf).2 ++ data)).1 := by
  induction buf using lines_induction with
  | hrest buf h =>
      rw [pumpLoop_rest h]
      rfl
  | hline line rest h ih =>
      rw [List.append_assoc, List.cons_append, pumpLoop_line _ h, pumpLoop_line _ h, ih,
        List.append_assoc]

/-- What the relay writes depends on the stream alone. -/
theorem pump_eq (chunks : List Bytes) :
    pump chunks = (lfLines chunks.flatten).flatMap relayLine := by
  suffices ∀ buf, (∀ c ∈ buf, isLf c = false) →
      (run pumpRead chunks buf).1.flatten = (pumpLoop (buf ++ chunks.flatten)).1 by
    rw [pump, this [] nofun, List.nil_append, pumpLoop_eq]
  induction chunks with
  | nil =>
      intro buf h
      rw [List.flatten_nil, List.append_nil, pumpLoop_rest h]
      rfl
  | cons data chunks ih =>
      intro buf h
      have hrest : ∀ c ∈ (pumpRead data buf).2, isLf c = false := by
        rw [pumpRead, pumpLoop_eq]
        exact lfRest_isLf (buf ++ data)
      rw [run_cons, List.flatten_cons, ih _ hrest, List.flatten_cons, ← List.append_assoc,
        pumpLoop_append (buf ++ data)]
      rfl

/-! ## The lines that the gateway queues -/

/-- The telemetry lines of a stream. -/
def telemetryLines (stream : Bytes) : List Bytes := (terminated stream).filterMap telemetryLine

/-- The telemetry lines between the `'\r'`s of a line. -/
def linePieces (line : Bytes) : List Bytes := (line.splitOnP isEol).filterMap telemetryLine

theorem telemetryLine_nil : telemetryLine [] = none := rfl

theorem isLf_isEol (c : UInt8) (h : isLf c = true) : isEol c = true := by
  rw [isEol, Bool.or_eq_true]
  exact Or.inl h

theorem isCr_isEol (c : UInt8) (h : isCr c = true) : isEol c = true := by
  rw [isEol, Bool.or_eq_true]
  exact Or.inr h

/-- The telemetry lines of a stream are those of its lines, and of what follows them. -/
theorem telemetryLines_eq (stream : Bytes) : telemetryLines stream =
    (lfLines stream).flatMap linePieces ++ telemetryLines (lfRest stream) := by
  have hne := List.splitOnP_ne_nil isLf stream
  have hsplit : stream.splitOnP isLf = lfLines stream ++ [lfRest stream] := by
    rw [lfLines, lfRest, List.getLastD_eq_getLast?, List.getLast?_eq_some_getLast hne]
    exact (List.dropLast_append_getLast hne).symm
  have hlast : (lfRest stream).splitOnP isEol ≠ [] := List.splitOnP_ne_nil _ _
  calc telemetryLines stream
      = ((lfLines stream ++ [lfRest stream]).flatMap (List.splitOnP isEol)).dropLast.filterMap
          telemetryLine := by
        rw [telemetryLines, terminated, splitOnP_refine isLf_isEol, hsplit]
    _ = ((lfLines stream).flatMap (List.splitOnP isEol) ++ terminated (lfRest stream)).filterMap
          telemetryLine := by
        rw [List.flatMap_append, List.flatMap_singleton, List.dropLast_append_of_ne_nil hlast]
        rfl
    _ = (lfLines stream).flatMap linePieces ++ telemetryLines (lfRest stream) := by
        rw [List.filterMap_append, List.filterMap_flatMap]
        rfl

/-- What the gateway makes of the line that the relay writes. -/
def relayedPieces (line : Bytes) : List Bytes :=
  if ingestPrefix <+: strip isCr line then linePieces line else []

/-- The telemetry lines of what the relay writes. -/
theorem telemetryLines_relayed (lines : List Bytes) :
    telemetryLines (lines.flatMap relayLine) = lines.flatMap relayedPieces := by
  induction lines with
  | nil => rfl
  | cons line lines ih =>
      rw [List.flatMap_cons, List.flatMap_cons, ← ih, relayLine, relayedPieces]
      split
      · rw [List.append_assoc, telemetryLines, terminated, List.singleton_append,
          List.splitOnP_append_cons _ _ (show isEol 10 = true from rfl),
          List.dropLast_append_of_ne_nil (List.splitOnP_ne_nil _ _), List.filterMap_append,
          filterMap_splitOnP_strip telemetryLine_nil isCr_isEol]
        rfl
      · rfl

/-- The lines that the handler has queued: those that were popped, and those in the ring. -/
def queuedLines (ops : List UartOp) : List Bytes :=
  let ring := (runState uartStep ops Link.start).rb
  (run uartStep ops Link.start).1.filterMap LinkAnswer.line ++
    ByteRing.unframe ring.size ring.bytes

/-- The UART receives the stream, in any pieces. Lines are popped into buffers that hold them, and
the queue never fills. -/
structure Receives (ops : List UartOp) (stream : Bytes) : Prop where
  received : ops.flatMap UartOp.received = stream
  pops : ∀ bufSize, UartOp.pop bufSize ∈ ops → ingestLineMax ≤ bufSize
  room : NeverFills ops

theorem Receives.queuedLines_eq {ops : List UartOp} {stream : Bytes} (h : Receives ops stream) :
    queuedLines ops = telemetryLines stream := by
  obtain ⟨hsizes, hring, hqueue⟩ := framed_queue h.pops h.room
  rw [queuedLines, ByteRing.size, hring, ByteRing.unframe_frames (ByteRing.frames_length_le _),
    hqueue, h.received]
  · rfl
  · intro b hb
    have hshort := hsizes b hb
    omega

/-- Where a line holds telemetry, what is left of it without the `'\r'`s at its ends starts with
it; and no telemetry that follows the last `'\n'` is ended by a `'\r'`. -/
structure RelaysWhole (stream : Bytes) : Prop where
  lines : ∀ line ∈ lfLines stream, linePieces line = [] ∨ ingestPrefix <+: strip isCr line
  rest : telemetryLines (lfRest stream) = []

/-- **The relay stands in for the wire** exactly when no line holds telemetry behind something else,
and none is left without its `'\n'`. -/
theorem relay_stands_in_iff (chunks : List Bytes) (direct relayed : List UartOp)
    (hdirect : Receives direct chunks.flatten) (hrelayed : Receives relayed (pump chunks)) :
    queuedLines relayed = queuedLines direct ↔ RelaysWhole chunks.flatten := by
  have hpart : ∀ line ∈ lfLines chunks.flatten,
      relayedPieces line = linePieces line ∨ relayedPieces line = [] := by
    intro line _
    rw [relayedPieces]
    split
    · exact Or.inl rfl
    · exact Or.inr rfl
  have hsame : ∀ line, relayedPieces line = linePieces line ↔
      linePieces line = [] ∨ ingestPrefix <+: strip isCr line := by
    intro line
    rw [relayedPieces]
    split
    · next hprefix => exact ⟨fun _ => Or.inr hprefix, fun _ => rfl⟩
    · next hprefix =>
        rw [or_iff_left hprefix, eq_comm]
  rw [hdirect.queuedLines_eq, hrelayed.queuedLines_eq, pump_eq, telemetryLines_relayed,
    telemetryLines_eq chunks.flatten, flatMap_eq_append_iff hpart]
  constructor
  · rintro ⟨hlines, hrest⟩
    exact ⟨fun line hline => (hsame line).mp (hlines line hline), hrest⟩
  · rintro ⟨hlines, hrest⟩
    exact ⟨fun line hline => (hsame line).mpr (hlines line hline), hrest⟩

/-- Two reads of a console whose lines end in `"\r\n"`. -/
def consoleReads : List Bytes := [ascii "boot\r\nIOTC-TEL", ascii "EMETRY: \x7b\x7d\r\n"]

theorem relay_stands_in_console :
    queuedLines [.isr ⟨true, [ascii "IOTC-TELEMETRY: \x7b\x7d\n"], 0⟩] =
      queuedLines [.isr ⟨true, consoleReads, 0⟩] := by
  have hdirect : Receives [.isr ⟨true, consoleReads, 0⟩] consoleReads.flatten := by
    refine ⟨List.append_nil _, by simp, ?_⟩
    unfold NeverFills
    decide +kernel
  have hrelayed : Receives [.isr ⟨true, [ascii "IOTC-TELEMETRY: \x7b\x7d\n"], 0⟩]
      (pump consoleReads) := by
    refine ⟨?_, by simp, ?_⟩
    · rw [pump_eq]
      decide +kernel
    · unfold NeverFills
      decide +kernel
  exact (relay_stands_in_iff consoleReads _ _ hdirect hrelayed).mpr
    ⟨by decide +kernel, by decide +kernel⟩

/-- A line with a stray `'\r'` before its telemetry. -/
def strayReads : List Bytes := [ascii "x\rIOTC-TELEMETRY: \x7b\x7d\n"]

/-- The handler queues the telemetry if it is wired to the board, and the relay writes nothing. -/
theorem relay_loses_line : pump strayReads = [] ∧
    ¬ ∀ (chunks : List Bytes) (direct relayed : List UartOp), Receives direct chunks.flatten →
      Receives relayed (pump chunks) → queuedLines relayed = queuedLines direct := by
  have hpump : pump strayReads = [] := by
    rw [pump_eq]
    decide +kernel
  refine ⟨hpump, fun hsame => ?_⟩
  have hdirect : Receives [.isr ⟨true, strayReads, 0⟩] strayReads.flatten := by
    refine ⟨List.append_nil _, by simp, ?_⟩
    unfold NeverFills
    decide +kernel
  have hrelayed : Receives [] (pump strayReads) := ⟨hpump.symm, nofun, rfl⟩
  have hlines := hsame strayReads _ _ hdirect hrelayed
  rw [hdirect.queuedLines_eq, hrelayed.queuedLines_eq, hpump] at hlines
  revert hlines
  decide +kernel

end IotcDemos
