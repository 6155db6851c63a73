import IotcDemos.Lib.ByteRing
import IotcDemos.Lib.Errno

set_option autoImplicit false

/-! # UART ingest (`demos/gateway/src/uart_ingest.c`)

One link: the line assembled by the interrupt handler, the queue of complete telemetry lines (a
16 KiB byte ring of `[u16 length][bytes]` records) and the counters. The queue is shared under a
spinlock, so a completed line and a pop are atomic; between them any interleaving is possible.

A function that stores into the line buffer also answers with the indices it stored at.
-/

namespace IotcDemos

def ingestLineMax : ℕ := 1024

/-- `"IOTC-TELEMETRY: "`. -/
def ingestPrefix : Bytes := [73, 79, 84, 67, 45, 84, 69, 76, 69, 77, 69, 84, 82, 89, 58, 32]

def ingestPrefixLen : ℕ := 16

def lineRingSize : ℕ := 16 * 1024

/-- The array `line` of a link. -/
structure LineBuf where
  bytes : Bytes
  size : bytes.length = ingestLineMax

def LineBuf.store (b : LineBuf) (i : ℕ) (c : UInt8) : LineBuf :=
  ⟨b.bytes.set i c, by rw [List.length_set, b.size]⟩

def LineBuf.zeros : LineBuf := ⟨List.replicate ingestLineMax 0, List.length_replicate⟩

structure IngestStats where
  linesOk : UInt32
  linesDropped : UInt32
  lastSeenMs : Int
  deriving DecidableEq

/-- `struct link`, without the device and the lock. -/
structure Link where
  line : LineBuf
  lineLen : ℕ
  overlong : Bool
  rb : ByteRing lineRingSize
  stats : IngestStats

/-- A link after `uart_ingest_init`. -/
def Link.start : Link := ⟨LineBuf.zeros, 0, false, ByteRing.empty, ⟨0, 0, 0⟩⟩

/-! ## The interrupt handler -/

/-- `strncmp(a, b, n) == 0`: equal up to `n` bytes or to a common NUL. -/
def strncmpEq : ℕ → Bytes → Bytes → Bool
  | 0, _, _ => true
  | n + 1, a, b =>
      if a.headD 0 ≠ b.headD 0 then false
      else if a.headD 0 = 0 then true
      else strncmpEq n a.tail b.tail

/-- The line counts as dropped, for being overlong or because the queue is full. -/
def IngestStats.drop (s : IngestStats) : IngestStats :=
  { s with linesDropped := s.linesDropped + 1 }

/-- Queue the record of a line, or count it as dropped when the ring has no room for it. -/
def Link.queueLine (now : Int) (json : Bytes) (len : UInt16) (l : Link) : Link :=
  if l.rb.space < 2 + len.toNat then { l with stats := l.stats.drop }
  else
    let rb := (l.rb.put (toLe16 len)).2
    let rb := (rb.put (json.take len.toNat)).2
    { l with
      rb := rb
      stats := { l.stats with linesOk := l.stats.linesOk + 1, lastSeenMs := now } }

/-- A full line has been assembled; `now` is `k_uptime_get()`. -/
def lineComplete (now : Int) (l : Link) : List ℕ × Link :=
  if l.overlong then ([], { l with overlong := false, lineLen := 0, stats := l.stats.drop })
  else
    let line := l.line.store l.lineLen 0
    if l.lineLen ≤ ingestPrefixLen ∨ strncmpEq ingestPrefixLen line.bytes ingestPrefix = false then
      -- boot banners and log noise are ignored
      ([l.lineLen], { l with line := line, lineLen := 0 })
    else
      let json := line.bytes.drop ingestPrefixLen
      let len := UInt16.ofNat (l.lineLen - ingestPrefixLen)
      ([l.lineLen], { (({ l with line := line } : Link).queueLine now json len) with lineLen := 0 })

def isEol (c : UInt8) : Bool := c == 10 || c == 13

/-- One byte of a chunk read from the UART. -/
def rxByte (now : Int) (c : UInt8) (l : Link) : List ℕ × Link :=
  if isEol c then
    -- the LF of a CR LF ends an empty line
    if l.lineLen > 0 ∨ l.overlong = true then lineComplete now l else ([], l)
  else if l.lineLen < ingestLineMax - 1 then
    ([l.lineLen], { l with line := l.line.store l.lineLen c, lineLen := l.lineLen + 1 })
  -- the byte is lost, and the line with it
  else ([], { l with overlong := true })

def rxChunk (now : Int) : Bytes → Link → List ℕ × Link
  | [], l => ([], l)
  | c :: cs, l =>
      let (stores, l') := rxByte now c l
      let (stores', l'') := rxChunk now cs l'
      (stores ++ stores', l'')

/-- An interrupt: whether `uart_irq_update` succeeds, and the chunks that `uart_fifo_read`
returns (at most 64 bytes each) as long as `uart_irq_rx_ready` holds. -/
structure Interrupt where
  updated : Bool
  chunks : List Bytes
  now : Int

def rxChunks (now : Int) : List Bytes → Link → List ℕ × Link
  | [], l => ([], l)
  | chunk :: chunks, l =>
      let (stores, l') := rxChunk now chunk l
      let (stores', l'') := rxChunks now chunks l'
      (stores ++ stores', l'')

def uartIsr (i : Interrupt) (l : Link) : List ℕ × Link :=
  if i.updated = false then ([], l) else rxChunks i.now i.chunks l

/-! ## `uart_ingest_pop` -/

/-- The discard loop: `r` bytes are still to be dropped, at most 64 in one pass. A pass that
moves no byte changes nothing, and every other one shortens `r`: if the loop needs more than `r`
passes it never ends, which is the answer `none`. -/
def discard : (passes r : ℕ) → ByteRing lineRingSize → Option (ByteRing lineRingSize)
  | _, 0, rb => some rb
  | 0, _ + 1, _ => none
  | k + 1, r + 1, rb =>
      let (sink, rb') := rb.get (min (r + 1) 64)
      discard k (r + 1 - sink.length) rb'

/-- What a pop does under the lock: the return value, what was copied to the buffer (without the
terminating NUL) and the link; `none` when the discard loop never ends. -/
def Link.pop (bufSize : ℕ) (l : Link) : Option (Int × Option Bytes × Link) :=
  if l.rb.size < 2 then some (0, none, l)
  else
    let (hdr, rb) := l.rb.get 2
    let len := le16At (byteAt hdr) 0
    if len.toNat ≥ bufSize then
      -- the caller cannot take the line; it goes all the same
      match discard len.toNat len.toNat rb with
      | none => none
      | some rb' => some (-EMSGSIZE, none, { l with rb := rb', stats := l.stats.drop })
    else
      let (json, rb') := rb.get len.toNat
      some (len.toNat, some json, { l with rb := rb' })

/-! ## Runs -/

/-- A byte is received, at some uptime, or `uart_ingest_pop` is called on the link. -/
inductive LinkOp where
  | rx (c : UInt8) (now : Int)
  | pop (bufSize : ℕ)

/-- What an operation shows: the stores into the line buffer, or the answer of a pop. -/
inductive LinkAnswer where
  | stored (indices : List ℕ)
  | popped (ret : Int) (buf : Option Bytes)
  | hung
  deriving DecidableEq

def linkStep : LinkOp → Link → LinkAnswer × Link
  | .rx c now, l =>
      let (stores, l') := rxByte now c l
      (.stored stores, l')
  | .pop bufSize, l =>
      match l.pop bufSize with
      | none => (.hung, l)
      | some (ret, buf, l') => (.popped ret buf, l')

end IotcDemos
