import IotcDemos.Gateway.Drain

set_option autoImplicit false

/-! # The gateway's main loop (`demos/gateway/src/main.c`)

One round of the loop samples the connection, tries to reconnect when it is due, forwards or
spools the lines the UART links have queued, publishes or spools the gateway's own record when
its interval is over, and drains a few spooled records when connected. The SDK, the clock, the
lines and the builders of the JSON records are inputs of a round (`Tick`).

The state carries a trace of events, newest first, that the code cannot see. A record is known by
the number it was built with, which is also the stamp of its slot when it is spooled, and by its
bytes.
-/

namespace IotcDemos

def reconnectPeriodSec : Int := 20

def drainPerTick : ℕ := 4

/-- The links are numbered from 0. -/
def ingestMaxLinks : ℕ := 2

/-- The SDK at one call of `publish_raw`: `iotcl_mqtt_get_config()` with its `pub_rpt`, and
`iotc_mqtt_client_publish`. -/
structure Sdk where
  config : Option (Option String)
  publish : String → Bytes → Int

/-- `publish_raw`: what the client returned, if it was called at all. -/
def publishRaw (sdk : Sdk) (json : Bytes) : Option Int :=
  match sdk.config with
  | some (some pubRpt) => some (sdk.publish pubRpt json)
  | _ => none

/-- What happened to a record. An event about a slot of the spool names its record, if the slot
holds one. -/
inductive RecordEvent where
  | built (e : Entry)
  | publish (e : Entry) (accepted : Bool)
  | dropped (e : Option Entry)
  | committed (e : Option Entry)
  deriving DecidableEq

def RecordEvent.isBuilt : RecordEvent → Bool
  | .built _ => true
  | _ => false

def RecordEvent.isDropped : RecordEvent → Bool
  | .dropped _ => true
  | _ => false

/-- The inputs of one round. -/
structure Tick where
  /-- `k_uptime_get()` -/
  now : Int
  /-- `iotconnect_sdk_is_connected()` -/
  isConnected : Bool
  /-- `iotconnect_sdk_connect()` -/
  connect : Int
  /-- `publish_interval_sec`, which a command can change -/
  publishIntervalSec : Int
  /-- the lines `uart_ingest_pop` returns for a link before it returns 0 -/
  lines : ℕ → List Bytes
  /-- `build_child_record` for a link and a line, as the record of the given number -/
  buildChildRecord : ℕ → ℕ → Bytes → Option Bytes
  /-- the gateway's own record, given whether it is connected and the spool's counters -/
  buildGatewayRecord : Bool → SpoolStats → Option Bytes
  /-- the SDK at the calls of `publish_raw`, numbered through the whole run -/
  sdk : ℕ → Sdk

/-- The state of `main.c`, with the number of calls of `publish_raw` and the trace. -/
structure Gateway where
  node : Node Disk
  spoolOk : Bool
  fwdTotal : UInt32
  wasConnected : Bool
  lastPub : Int
  lastReconnect : Int
  calls : ℕ
  trace : List RecordEvent

section Loop

variable (crc32Ieee : Bytes → UInt32) (c : SpoolConfig)

/-- A record is built and gets the next number. -/
def Gateway.build (json : Bytes) (g : Gateway) : Gateway :=
  { g with
    node := { g.node with disk := g.node.disk.tick }
    trace := .built (g.node.disk.tick.clock, json) :: g.trace }

/-- `publish_raw` for the record `e`; its return value is not used. -/
def Gateway.publish (t : Tick) (e : Entry) (g : Gateway) : Gateway :=
  { g with
    calls := g.calls + 1
    trace := .publish e (publishRaw (t.sdk g.calls) e.2 == some 0) :: g.trace }

/-- What `spool_push` counts as dropped: a record that is too long, or the oldest of a full
ring. -/
def pushDrops (e : Entry) (n : Node Disk) : List RecordEvent :=
  if e.2.length > spoolPayloadMax then [.dropped (some e)]
  else if n.ram.recCount.toNat = c.nslots then
    [.dropped (entryOf crc32Ieee c n.disk n.ram.headSeq)]
  else []

/-- `spool_push` for the record `e`; its return value is not used. -/
def Gateway.push (e : Entry) (g : Gateway) : Gateway :=
  { g with
    node := (spoolPush Disk.reliable crc32Ieee c e.2 g.node).2
    trace := pushDrops crc32Ieee c e g.node ++ g.trace }

/-- A record is published when connected, and spooled otherwise. -/
def Gateway.offer (t : Tick) (connected : Bool) (json : Bytes) (g : Gateway) : Gateway :=
  let g' := g.build json
  let e := (g'.node.disk.clock, json)
  if connected then g'.publish t e
  -- offline, only a spool keeps the record
  else if g'.spoolOk then g'.push crc32Ieee c e
  else g'

/-! ## `ingest_children` and `publish_or_spool_gateway` -/

def ingestLine (t : Tick) (connected : Bool) (link : ℕ) (g : Gateway) (line : Bytes) : Gateway :=
  match t.buildChildRecord g.node.disk.clock link line with
  | none => g
  | some json =>
      let g' := g.offer crc32Ieee c t connected json
      if connected then { g' with fwdTotal := g'.fwdTotal + 1 } else g'

def ingestLink (t : Tick) (connected : Bool) (g : Gateway) (link : ℕ) : Gateway :=
  (t.lines link).foldl (ingestLine crc32Ieee c t connected link) g

def ingestChildren (t : Tick) (connected : Bool) (g : Gateway) : Gateway :=
  (List.range ingestMaxLinks).foldl (ingestLink crc32Ieee c t connected) g

def publishOrSpoolGateway (t : Tick) (connected : Bool) (g : Gateway) : Gateway :=
  match t.buildGatewayRecord connected (spoolGetStats g.node) with
  | none => g
  | some json => g.offer crc32Ieee c t connected json

/-! ## The drain -/

/-- What `spool_peek` counts as dropped on its way from `n` to `n'`. -/
def peekDrops (n n' : Node Disk) : List RecordEvent :=
  ((List.range (n.ram.recCount.toNat - n'.ram.recCount.toNat)).map fun k =>
    .dropped (entryOf crc32Ieee c n.disk (n.ram.seqAt k))).reverse

/-- `spool_peek` with a buffer of `SPOOL_PAYLOAD_MAX + 1` bytes. -/
def Gateway.peek (g : Gateway) : Int × Option Bytes × Gateway :=
  let (n, spoolOut, node) := spoolPeek Disk.reliable crc32Ieee c (spoolPayloadMax + 1) g.node
  (n, spoolOut, { g with
    node := node
    trace := peekDrops crc32Ieee c g.node node ++ g.trace })

def Gateway.commit (g : Gateway) : Gateway :=
  { g with
    node := (spoolCommit Disk.reliable c g.node).2
    trace := .committed (entryOf crc32Ieee c g.node.disk g.node.ram.headSeq) :: g.trace }

/-- The drain loop, `i` more times. A peek that returns more than 0 has filled `spool_out`. -/
def drainLoop (t : Tick) : (i : ℕ) → Gateway → Gateway
  | 0, g => g
  | i + 1, g =>
      match g.peek crc32Ieee c with
      | (n, some spoolOut, g') =>
          if n ≤ 0 then g'
          else
            let e := (stampAt c g'.node.disk (slotIdx c g'.node.ram.headSeq), spoolOut)
            -- committed whatever the publish returned
            drainLoop t i ((g'.publish t e).commit crc32Ieee c)
      | (_, none, g') => g'

/-! ## The loop -/

/-- The reconnect at the start of a round, with `connected` after it. -/
def reconnect (t : Tick) (g : Gateway) : Bool × Gateway :=
  let due := !t.isConnected &&
    (g.lastReconnect == 0 || decide (t.now - g.lastReconnect ≥ reconnectPeriodSec * 1000))
  if due then
    -- a failed attempt also waits for the next period
    let connected := t.connect == 0
    (connected, { g with wasConnected := connected, lastReconnect := t.now })
  else (t.isConnected, { g with wasConnected := g.wasConnected || t.isConnected })

/-- The gateway's own record, when its interval is over. -/
def publishWhenDue (t : Tick) (connected : Bool) (g : Gateway) : Gateway :=
  if g.lastPub = 0 ∨ t.now - g.lastPub ≥ t.publishIntervalSec * 1000 then
    { publishOrSpoolGateway crc32Ieee c t connected g with lastPub := t.now }
  else g

def round (t : Tick) (g : Gateway) : Gateway :=
  let (connected, g) := reconnect t g
  let g := publishWhenDue crc32Ieee c t connected (ingestChildren crc32Ieee c t connected g)
  if connected && g.spoolOk then drainLoop crc32Ieee c t drainPerTick g else g

/-- A disk with the given contents, of which nothing was written by this program. -/
def Disk.holding (image : ℕ → Sector) : Disk := ⟨fun a => ⟨image a, 0⟩, 0⟩

/-- `main` before its loop: `spool_init` on whatever the disk holds. -/
def mainStart (image : ℕ → Sector) : Gateway :=
  let (ret, n) := spoolInit Disk.reliable c ⟨Disk.holding image, Spool.off⟩
  ⟨n, ret == 0, 0, false, 0, 0, 0, []⟩

def mainStep (t : Tick) (g : Gateway) : Unit × Gateway := ((), round crc32Ieee c t g)

/-! ## What must not be lost -/

/-- The records in the spool's window. -/
def queued (n : Node Disk) : List Entry :=
  entriesFrom crc32Ieee c n.disk n.ram.recCount.toNat n.ram.headSeq

/-- The record was accepted by a publish, or is queued, or was counted in `drops`. -/
def Gateway.Accounted (g : Gateway) (e : Entry) : Prop :=
  .publish e true ∈ g.trace ∨ e ∈ queued crc32Ieee c g.node ∨ .dropped (some e) ∈ g.trace

instance (g : Gateway) (e : Entry) : Decidable (g.Accounted crc32Ieee c e) :=
  inferInstanceAs (Decidable (_ ∨ _ ∨ _))

end Loop

end IotcDemos
