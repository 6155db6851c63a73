import IotcDemos.Gateway.UartIngest
import IotcDemos.Lib.Run

set_option autoImplicit false

/-! # The line queue of a link

`lineQueueStep` is the link as it is meant to be: a queue of lines. A segment of the received
bytes that ends at a terminator and is a telemetry line is queued if its record fits the ring;
a pop takes the oldest line, and returns it if the buffer is large enough. The link makes the
same steps (`linkStep_tracks`), because its ring is at every moment a concatenation of whole
records, whatever the interleaving of received bytes and pops (`line_queue_in_sync`).
-/

namespace IotcDemos

open ByteRing (frame)

/-! ## The queue of lines -/

/-- The telemetry line in a terminated segment: short enough, behind the prefix, not empty. -/
def telemetryLine (seg : Bytes) : Option Bytes :=
  if seg.length ≤ ingestLineMax - 1 ∧ ingestPrefix <+: seg ∧ ingestPrefixLen < seg.length then
    some (seg.drop ingestPrefixLen)
  else none

structure LineQueue where
  /-- The bytes since the last terminator. -/
  seg : Bytes
  /-- The lines in the queue, oldest first. -/
  lines : List Bytes
  /-- All lines ever queued. -/
  accepted : List Bytes
  /-- All lines ever popped, and among them those that were returned. -/
  taken : List Bytes
  returned : List Bytes
  /-- Lines popped into a buffer that was too small. -/
  discarded : ℕ
  /-- Segments longer than a line may be. -/
  overlong : ℕ
  /-- Telemetry lines the ring had no room for. -/
  rejected : ℕ

namespace LineQueue

def start : LineQueue := ⟨[], [], [], [], [], 0, 0, 0⟩

/-- A terminator ends the segment. -/
def endLine (q : LineQueue) : LineQueue :=
  if ingestLineMax - 1 < q.seg.length then { q with seg := [], overlong := q.overlong + 1 }
  else
    match telemetryLine q.seg with
    | none => { q with seg := [] }
    | some line =>
        if lineRingSize < (q.lines.flatMap frame).length + (2 + line.length) then
          { q with seg := [], rejected := q.rejected + 1 }
        else { q with seg := [], lines := q.lines ++ [line], accepted := q.accepted ++ [line] }

/-- The indices of the line buffer that a received byte is stored at. -/
def stores (c : UInt8) (q : LineQueue) : List ℕ :=
  if isEol c then
    if q.seg = [] ∨ ingestLineMax - 1 < q.seg.length then [] else [q.seg.length]
  else if q.seg.length < ingestLineMax - 1 then [q.seg.length] else []

def rx (c : UInt8) (q : LineQueue) : LineQueue :=
  if isEol c then q.endLine else { q with seg := q.seg ++ [c] }

def pop (bufSize : ℕ) (q : LineQueue) : LinkAnswer × LineQueue :=
  match q.lines with
  | [] => (.popped 0 none, q)
  | b :: rest =>
      if b.length < bufSize then
        (.popped b.length (some b),
          { q with lines := rest, taken := q.taken ++ [b], returned := q.returned ++ [b] })
      else
        (.popped (-EMSGSIZE) none,
          { q with lines := rest, taken := q.taken ++ [b], discarded := q.discarded + 1 })

end LineQueue

def lineQueueStep : LinkOp → LineQueue → LinkAnswer × LineQueue
  | .rx c _, q => (.stored (q.stores c), q.rx c)
  | .pop bufSize, q => q.pop bufSize

theorem telemetryLine_length {seg line : Bytes} (h : telemetryLine seg = some line) :
    1 ≤ line.length ∧ line.length ≤ 1007 := by
  unfold telemetryLine at h
  split at h
  · rename_i hseg
    obtain ⟨hmax, -, hlen⟩ := hseg
    obtain rfl := Option.some.inj h
    rw [List.length_drop]
    unfold ingestLineMax at hmax
    unfold ingestPrefixLen at hlen ⊢
    omega
  · exact absurd h (by simp)

/-! ## The link is a queue of lines -/

/-- The link `l` is in the state that the queue `q` describes. -/
structure Tracks (l : Link) (q : LineQueue) : Prop where
  ring : l.rb.bytes = q.lines.flatMap frame
  sizes : ∀ b ∈ q.lines, 1 ≤ b.length ∧ b.length ≤ 1007
  len : l.lineLen = min q.seg.length (ingestLineMax - 1)
  overlong : l.overlong = decide (ingestLineMax - 1 < q.seg.length)
  text : l.line.bytes.take l.lineLen = q.seg.take (ingestLineMax - 1)
  ok : l.stats.linesOk = UInt32.ofNat q.accepted.length
  dropped : l.stats.linesDropped = UInt32.ofNat (q.overlong + q.rejected + q.discarded)
  history : q.accepted = q.taken ++ q.lines
  popped : q.taken.length = q.returned.length + q.discarded

theorem tracks_start : Tracks Link.start LineQueue.start :=
  ⟨rfl, by simp [LineQueue.start], rfl, rfl, rfl, rfl, rfl, rfl, rfl⟩

/-- Comparing with the prefix, which has no NUL in it, is comparing the first bytes. -/
theorem strncmpEq_iff {p a : Bytes} (hp : ∀ x ∈ p, x ≠ 0) (ha : p.length ≤ a.length) :
    strncmpEq p.length a p = true ↔ a.take p.length = p := by
  induction p generalizing a with
  | nil => simp [strncmpEq]
  | cons x p ih =>
      cases a with
      | nil => simp at ha
      | cons y a =>
          have hx : x ≠ 0 := hp x List.mem_cons_self
          rw [List.length_cons, List.length_cons] at ha
          have ih' := ih (a := a) (fun z hz => hp z (List.mem_cons_of_mem _ hz)) (by omega)
          rw [List.length_cons, strncmpEq]
          simp only [List.headD_cons, List.tail_cons, List.take_succ_cons, List.cons.injEq]
          by_cases hyx : y = x
          · subst hyx
            simp [hx, ih']
          · simp [hyx]

theorem ingestPrefix_ne_zero : ∀ x ∈ ingestPrefix, x ≠ 0 := by
  simp [ingestPrefix]

/-! ### A byte that does not end a line -/

theorem Tracks.rx_text {l : Link} {q : LineQueue} (h : Tracks l q) {c : UInt8} (now : Int)
    (hc : isEol c = false) :
    (rxByte now c l).1 = q.stores c ∧ Tracks (rxByte now c l).2 (q.rx c) := by
  have hmax : ingestLineMax - 1 = 1023 := rfl
  have hlen := h.len
  have htext := h.text
  have hsize := l.line.size
  have hsize' : l.line.bytes.length = 1024 := hsize
  unfold rxByte LineQueue.stores LineQueue.rx
  simp only [hc, Bool.false_eq_true, if_false]
  rw [hmax] at hlen htext ⊢
  -- the byte is stored, or the line is overlong from here on
  by_cases hroom : q.seg.length < 1023
  · have hll : l.lineLen = q.seg.length := by omega
    rw [if_pos (by omega), if_pos hroom]
    refine ⟨by rw [hll], ?_⟩
    refine ⟨h.ring, h.sizes, ?_, ?_, ?_, h.ok, h.dropped, h.history, h.popped⟩
    · show l.lineLen + 1 = _
      rw [List.length_append, List.length_singleton]
      omega
    · show l.overlong = _
      rw [h.overlong, hmax, List.length_append, List.length_singleton]
      simp only [decide_eq_decide]
      omega
    · -- the byte extends the text
      show (l.line.bytes.set l.lineLen c).take (l.lineLen + 1) = (q.seg ++ [c]).take 1023
      have hlt : l.lineLen < l.line.bytes.length := by omega
      have hold : q.seg.take 1023 = q.seg := List.take_of_length_le (by omega)
      have hnew : (q.seg ++ [c]).take 1023 = q.seg ++ [c] :=
        List.take_of_length_le (by rw [List.length_append, List.length_singleton]; omega)
      rw [hnew, List.take_add_one, List.take_set_of_le (Nat.le_refl _), htext, hold,
        List.getElem?_set_self hlt]
      rfl
  · rw [if_neg (by omega), if_neg hroom]
    refine ⟨rfl, ?_⟩
    refine ⟨h.ring, h.sizes, ?_, ?_, ?_, h.ok, h.dropped, h.history, h.popped⟩
    · show l.lineLen = _
      rw [List.length_append, List.length_singleton]
      omega
    · show true = _
      rw [hmax, List.length_append, List.length_singleton]
      simp only [Bool.true_eq, decide_eq_true_eq]
      omega
    · show l.line.bytes.take l.lineLen = (q.seg ++ [c]).take 1023
      rw [htext, List.take_append_of_le_length (by omega)]

/-! ### A terminator -/

/-- Queueing a line whose record fits appends the record to the ring. -/
theorem queueLine_bytes {l : Link} {json line : Bytes} (now : Int) (hlen : line.length ≤ 1007)
    (hjson : json.take line.length = line) (hroom : 2 + line.length ≤ l.rb.space) :
    (l.queueLine now json (UInt16.ofNat line.length)).rb.bytes = l.rb.bytes ++ frame line ∧
    (l.queueLine now json (UInt16.ofNat line.length)).stats
      = { l.stats with linesOk := l.stats.linesOk + 1, lastSeenMs := now } := by
  have hval : (UInt16.ofNat line.length).toNat = line.length := by
    rw [UInt16.toNat_ofNat', Nat.mod_eq_of_lt (by omega)]
  unfold Link.queueLine
  rw [hval, if_neg (by omega)]
  refine ⟨?_, rfl⟩
  show ((l.rb.put (toLe16 (UInt16.ofNat line.length))).2.put (json.take line.length)).2.bytes = _
  have hput : (l.rb.put (toLe16 (UInt16.ofNat line.length))).2.bytes
      = l.rb.bytes ++ toLe16 (UInt16.ofNat line.length) :=
    ByteRing.put_bytes (by rw [toLe16_length]; omega)
  have hspace : (l.rb.put (toLe16 (UInt16.ofNat line.length))).2.space = l.rb.space - 2 := by
    rw [ByteRing.space, hput, List.length_append, toLe16_length, ByteRing.space]
    omega
  rw [hjson, ByteRing.put_bytes (by omega), hput, List.append_assoc]
  rfl

theorem queueLine_full {l : Link} {json line : Bytes} (now : Int) (hlen : line.length ≤ 1007)
    (hroom : l.rb.space < 2 + line.length) :
    l.queueLine now json (UInt16.ofNat line.length) = { l with stats := l.stats.drop } := by
  have hval : (UInt16.ofNat line.length).toNat = line.length := by
    rw [UInt16.toNat_ofNat', Nat.mod_eq_of_lt (by omega)]
  unfold Link.queueLine
  rw [hval, if_pos hroom]

/-- Queueing does not touch the line buffer. -/
theorem queueLine_frame (now : Int) (json : Bytes) (len : UInt16) (l : Link) :
    (l.queueLine now json len).line = l.line ∧
      (l.queueLine now json len).overlong = l.overlong := by
  unfold Link.queueLine
  split <;> exact ⟨rfl, rfl⟩

/-- What `line_complete` reads of a segment of at most `INGEST_LINE_MAX - 1` bytes. -/
theorem telemetryLine_of_text {line : Bytes} {seg : Bytes} (hseg : seg.length ≤ 1023)
    (hsize : line.length = 1024) (htext : line.take seg.length = seg) :
    (telemetryLine seg = none ↔
      seg.length ≤ ingestPrefixLen ∨ strncmpEq ingestPrefixLen line ingestPrefix = false) ∧
    ∀ b, telemetryLine seg = some b →
      b.length = seg.length - ingestPrefixLen ∧
      (line.drop ingestPrefixLen).take b.length = b := by
  have hmax : ingestLineMax - 1 = 1023 := rfl
  have hplen : ingestPrefix.length = ingestPrefixLen := rfl
  have hp16 : ingestPrefixLen = 16 := rfl
  have hcmp := strncmpEq_iff (a := line) ingestPrefix_ne_zero (by rw [hplen, hp16]; omega)
  rw [hplen] at hcmp
  -- the comparison stays inside the segment, and inside the prefix no byte is NUL
  have hprefix : ingestPrefixLen < seg.length →
      (strncmpEq ingestPrefixLen line ingestPrefix = true ↔ ingestPrefix <+: seg) := by
    intro hlt
    have htake : line.take ingestPrefixLen = seg.take ingestPrefixLen := by
      rw [← htext, List.take_take, Nat.min_eq_left (by omega)]
    rw [hcmp, htake, List.prefix_iff_eq_take, hplen]
    exact eq_comm
  constructor
  · unfold telemetryLine
    rw [hmax]
    by_cases hlt : ingestPrefixLen < seg.length
    · rw [← Bool.not_eq_true, hprefix hlt]
      simp [hseg, hlt]
    · simp only [hlt, and_false, if_false, true_iff]
      exact Or.inl (by omega)
  · intro b hb
    unfold telemetryLine at hb
    split at hb
    · obtain rfl := Option.some.inj hb
      rw [List.length_drop, ← List.drop_take, htext]
      exact ⟨rfl, rfl⟩
    · exact absurd hb (by simp)

/-! The four ways a line can end, in the queue and in the link. -/

theorem endLine_overlong {q : LineQueue} (h : ingestLineMax - 1 < q.seg.length) :
    q.endLine = { q with seg := [], overlong := q.overlong + 1 } := by
  rw [LineQueue.endLine, if_pos h]

theorem endLine_noise {q : LineQueue} (h : ¬ ingestLineMax - 1 < q.seg.length)
    (hn : telemetryLine q.seg = none) : q.endLine = { q with seg := [] } := by
  rw [LineQueue.endLine, if_neg h, hn]

theorem endLine_full {q : LineQueue} {b : Bytes} (h : ¬ ingestLineMax - 1 < q.seg.length)
    (hb : telemetryLine q.seg = some b)
    (hroom : lineRingSize < (q.lines.flatMap frame).length + (2 + b.length)) :
    q.endLine = { q with seg := [], rejected := q.rejected + 1 } := by
  rw [LineQueue.endLine, if_neg h, hb]
  exact if_pos hroom

theorem endLine_line {q : LineQueue} {b : Bytes} (h : ¬ ingestLineMax - 1 < q.seg.length)
    (hb : telemetryLine q.seg = some b)
    (hroom : ¬ lineRingSize < (q.lines.flatMap frame).length + (2 + b.length)) :
    q.endLine
      = { q with seg := [], lines := q.lines ++ [b], accepted := q.accepted ++ [b] } := by
  rw [LineQueue.endLine, if_neg h, hb]
  exact if_neg hroom

theorem endLine_cases (q : LineQueue) :
    q.endLine = { q with seg := [], overlong := q.overlong + 1 } ∨
    q.endLine = { q with seg := [] } ∨
    q.endLine = { q with seg := [], rejected := q.rejected + 1 } ∨
    ∃ b, telemetryLine q.seg = some b ∧ q.endLine
      = { q with seg := [], lines := q.lines ++ [b], accepted := q.accepted ++ [b] } := by
  by_cases hlong : ingestLineMax - 1 < q.seg.length
  · exact Or.inl (endLine_overlong hlong)
  · right
    rcases hline : telemetryLine q.seg with _ | b
    · exact Or.inl (endLine_noise hlong hline)
    · right
      by_cases hfull : lineRingSize < (q.lines.flatMap frame).length + (2 + b.length)
      · exact Or.inl (endLine_full hlong hline hfull)
      · exact Or.inr ⟨b, rfl, endLine_line hlong hline hfull⟩

/-- A byte received pops nothing, forgets no rejection, and queues at most the line it ends. -/
theorem rx_frame (c : UInt8) (q : LineQueue) :
    (q.rx c).taken = q.taken ∧ (q.rx c).returned = q.returned ∧
    (q.rx c).discarded = q.discarded ∧ q.rejected ≤ (q.rx c).rejected ∧
    ((q.rx c).lines = q.lines ∨
      ∃ b, telemetryLine q.seg = some b ∧ (q.rx c).lines = q.lines ++ [b]) := by
  unfold LineQueue.rx
  split
  · rcases endLine_cases q with hend | hend | hend | ⟨b, hb, hend⟩
    · rw [hend]
      exact ⟨rfl, rfl, rfl, Nat.le_refl _, Or.inl rfl⟩
    · rw [hend]
      exact ⟨rfl, rfl, rfl, Nat.le_refl _, Or.inl rfl⟩
    · rw [hend]
      exact ⟨rfl, rfl, rfl, Nat.le_succ _, Or.inl rfl⟩
    · rw [hend]
      exact ⟨rfl, rfl, rfl, Nat.le_refl _, Or.inr ⟨b, hb, rfl⟩⟩
  · exact ⟨rfl, rfl, rfl, Nat.le_refl _, Or.inl rfl⟩

theorem lineComplete_overlong {l : Link} (now : Int) (h : l.overlong = true) :
    lineComplete now l
      = ([], { l with overlong := false, lineLen := 0, stats := l.stats.drop }) := by
  rw [lineComplete, if_pos h]

theorem lineComplete_noise {l : Link} (now : Int) (h : l.overlong = false)
    (hn : l.lineLen ≤ ingestPrefixLen ∨
      strncmpEq ingestPrefixLen (l.line.store l.lineLen 0).bytes ingestPrefix = false) :
    lineComplete now l
      = ([l.lineLen], { l with line := l.line.store l.lineLen 0, lineLen := 0 }) := by
  rw [lineComplete, if_neg (by simp [h])]
  exact if_pos hn

theorem lineComplete_line {l : Link} (now : Int) (h : l.overlong = false)
    (hn : ¬ (l.lineLen ≤ ingestPrefixLen ∨
      strncmpEq ingestPrefixLen (l.line.store l.lineLen 0).bytes ingestPrefix = false)) :
    lineComplete now l = ([l.lineLen],
      { (({ l with line := l.line.store l.lineLen 0 } : Link).queueLine now
          ((l.line.store l.lineLen 0).bytes.drop ingestPrefixLen)
          (UInt16.ofNat (l.lineLen - ingestPrefixLen))) with lineLen := 0 }) := by
  rw [lineComplete, if_neg (by simp [h])]
  exact if_neg hn

theorem Tracks.overlong_end {l : Link} {q : LineQueue} (h : Tracks l q) (now : Int)
    (hlong : ingestLineMax - 1 < q.seg.length) :
    (lineComplete now l).1 = [] ∧ Tracks (lineComplete now l).2 q.endLine := by
  rw [endLine_overlong hlong, lineComplete_overlong now (by rw [h.overlong]; simpa using hlong)]
  refine ⟨rfl, h.ring, h.sizes, rfl, rfl, rfl, h.ok, ?_, h.history, h.popped⟩
  show l.stats.linesDropped + 1 = _
  rw [h.dropped, ← ofNat_succ32]
  congr 1
  ring

/-- What the link knows about a segment that is not overlong, when its terminator is seen. -/
theorem Tracks.short {l : Link} {q : LineQueue} (h : Tracks l q)
    (hshort : ¬ ingestLineMax - 1 < q.seg.length) :
    l.overlong = false ∧ l.lineLen = q.seg.length ∧
    (l.line.store l.lineLen 0).bytes.take q.seg.length = q.seg := by
  have hlen := h.len
  have htext := h.text
  have hll : l.lineLen = q.seg.length := by omega
  refine ⟨by rw [h.overlong]; simpa using hshort, hll, ?_⟩
  show (l.line.bytes.set l.lineLen 0).take q.seg.length = q.seg
  rw [← hll, List.take_set_of_le (Nat.le_refl _), htext, List.take_of_length_le (by omega)]

theorem Tracks.noise_end {l : Link} {q : LineQueue} (h : Tracks l q) (now : Int)
    (hshort : ¬ ingestLineMax - 1 < q.seg.length) (hnone : telemetryLine q.seg = none) :
    (lineComplete now l).1 = [q.seg.length] ∧ Tracks (lineComplete now l).2 q.endLine := by
  obtain ⟨hfalse, hll, htext⟩ := h.short hshort
  have hseg : q.seg.length ≤ 1023 := Nat.le_of_not_lt hshort
  have hn := (telemetryLine_of_text hseg (LineBuf.size _) htext).1.mp hnone
  rw [endLine_noise hshort hnone, lineComplete_noise now hfalse (by rw [hll]; rwa [hll] at hn)]
  exact ⟨by rw [hll], h.ring, h.sizes, rfl, hfalse, rfl, h.ok, h.dropped, h.history, h.popped⟩

theorem Tracks.line_end {l : Link} {q : LineQueue} (h : Tracks l q) (now : Int) {b : Bytes}
    (hshort : ¬ ingestLineMax - 1 < q.seg.length) (hb : telemetryLine q.seg = some b) :
    (lineComplete now l).1 = [q.seg.length] ∧ Tracks (lineComplete now l).2 q.endLine := by
  obtain ⟨hfalse, hll, htext⟩ := h.short hshort
  have hseg : q.seg.length ≤ 1023 := Nat.le_of_not_lt hshort
  obtain ⟨hnone, hsome⟩ := telemetryLine_of_text hseg (LineBuf.size _) htext
  obtain ⟨hblen, hbody⟩ := hsome b hb
  have hsizes := telemetryLine_length hb
  have hn : ¬ (l.lineLen ≤ ingestPrefixLen ∨
      strncmpEq ingestPrefixLen (l.line.store l.lineLen 0).bytes ingestPrefix = false) := by
    intro hor
    have := hnone.mpr (hor.imp_left fun hle => by omega)
    rw [hb] at this
    exact absurd this (by simp)
  have hdiff : l.lineLen - ingestPrefixLen = b.length := by omega
  rw [lineComplete_line now hfalse hn, hdiff]
  refine ⟨congrArg (fun k => [k]) hll, ?_⟩
  -- the room in the ring, measured on the bytes and on the records
  have hring : l.rb.bytes.length = (q.lines.flatMap frame).length := by rw [h.ring]
  have hfits := l.rb.fits
  have hspace : l.rb.space = lineRingSize - l.rb.bytes.length := rfl
  -- the link with its line terminated differs in the line buffer only
  generalize hm : ({ l with line := l.line.store l.lineLen 0 } : Link) = m
  have hrb : m.rb = l.rb := by rw [← hm]
  have hst : m.stats = l.stats := by rw [← hm]
  have hov : m.overlong = false := by rw [← hm]; exact hfalse
  by_cases hroom : lineRingSize < (q.lines.flatMap frame).length + (2 + b.length)
  · rw [endLine_full hshort hb hroom, queueLine_full now hsizes.2 (by rw [hrb]; omega)]
    refine ⟨by rw [← h.ring, ← hrb], h.sizes, rfl, hov, rfl, ?_, ?_, h.history, h.popped⟩
    · show m.stats.linesOk = _
      rw [hst]
      exact h.ok
    · show m.stats.linesDropped + 1 = _
      rw [hst, h.dropped, ← ofNat_succ32]
      congr 1
      ring
  · rw [endLine_line hshort hb hroom]
    obtain ⟨hbytes, hstats⟩ := queueLine_bytes (l := m) now hsizes.2 hbody (by rw [hrb]; omega)
    have hkeep := (queueLine_frame now
      ((l.line.store l.lineLen 0).bytes.drop ingestPrefixLen) (UInt16.ofNat b.length) m).2
    refine ⟨?_, ?_, rfl, hkeep.trans hov, rfl, ?_, ?_, ?_, h.popped⟩
    · calc _ = m.rb.bytes ++ frame b := hbytes
        _ = q.lines.flatMap frame ++ frame b := by rw [hrb, h.ring]
        _ = (q.lines ++ [b]).flatMap frame := by simp
    · intro x hx
      rcases List.mem_append.mp hx with hx | hx
      · exact h.sizes x hx
      · rw [List.mem_singleton.mp hx]
        exact hsizes
    · calc _ = m.stats.linesOk + 1 := congrArg IngestStats.linesOk hstats
        _ = UInt32.ofNat (q.accepted.length + 1) := by rw [hst, h.ok, ofNat_succ32]
        _ = UInt32.ofNat (q.accepted ++ [b]).length := by
            rw [List.length_append, List.length_singleton]
    · refine (congrArg IngestStats.linesDropped hstats).trans ?_
      show m.stats.linesDropped = _
      rw [hst]
      exact h.dropped
    · show q.accepted ++ [b] = q.taken ++ (q.lines ++ [b])
      rw [h.history, List.append_assoc]

theorem Tracks.rx_eol {l : Link} {q : LineQueue} (h : Tracks l q) {c : UInt8} (now : Int)
    (hc : isEol c = true) :
    (rxByte now c l).1 = q.stores c ∧ Tracks (rxByte now c l).2 (q.rx c) := by
  have hlen := h.len
  have hover := h.overlong
  rw [rxByte, LineQueue.stores, LineQueue.rx, if_pos hc, if_pos hc, if_pos hc]
  by_cases hnil : q.seg = []
  · -- an empty segment is ignored
    have hidle : ¬ (l.lineLen > 0 ∨ l.overlong = true) := by
      rw [hover, hlen, hnil]
      simp
    have hend : q.endLine = q := by
      rw [endLine_noise (by rw [hnil]; simp) (by rw [hnil]; rfl), ← hnil]
    rw [if_neg hidle, if_pos (Or.inl hnil), hend]
    exact ⟨rfl, h⟩
  · have hpos : 0 < q.seg.length := List.length_pos_iff.mpr hnil
    have hmax : ingestLineMax - 1 = 1023 := rfl
    rw [if_pos (Or.inl (by omega))]
    by_cases hlong : ingestLineMax - 1 < q.seg.length
    · rw [if_pos (Or.inr hlong)]
      exact h.overlong_end now hlong
    · rw [if_neg (by simp [hnil, hlong])]
      cases hline : telemetryLine q.seg with
      | none => exact h.noise_end now hlong hline
      | some b => exact h.line_end now hlong hline

/-! ### A pop -/

/-- The discard loop ends, and has dropped exactly `r` bytes, when that many are there. -/
theorem discard_eq {k r : ℕ} {rb : ByteRing lineRingSize} (hk : r ≤ k)
    (hr : r ≤ rb.bytes.length) : discard k r rb = some (rb.get r).2 := by
  induction k generalizing r rb with
  | zero =>
      obtain rfl : r = 0 := by omega
      exact congrArg some (ByteRing.ext_bytes rfl)
  | succ k ih =>
      cases r with
      | zero => exact congrArg some (ByteRing.ext_bytes rfl)
      | succ r =>
          -- the bytes are there, so a pass moves as many as it asks for
          have hsink : ((rb.get (min (r + 1) 64)).1).length = min (r + 1) 64 := by
            rw [ByteRing.get_data, List.length_take]
            omega
          have hrest : ((rb.get (min (r + 1) 64)).2).bytes.length
              = rb.bytes.length - min (r + 1) 64 := by
            rw [ByteRing.get_bytes, List.length_drop]
          show discard k (r + 1 - ((rb.get (min (r + 1) 64)).1).length)
            (rb.get (min (r + 1) 64)).2 = _
          rw [hsink, ih (by omega) (by omega)]
          apply congrArg some
          apply ByteRing.ext_bytes
          rw [ByteRing.get_bytes, ByteRing.get_bytes, ByteRing.get_bytes, List.drop_drop]
          congr 1
          omega

/-- **A pop on a ring of whole records**: the oldest record leaves, whatever the buffer. -/
theorem pop_frame {l : Link} {b : Bytes} {rest : List Bytes} (bufSize : ℕ)
    (hring : l.rb.bytes = frame b ++ rest.flatMap frame) (hb : b.length ≤ 1007) :
    ∃ rb, rb.bytes = rest.flatMap frame ∧ l.pop bufSize =
      if b.length < bufSize then some ((b.length : Int), some b, { l with rb := rb })
      else some (-EMSGSIZE, none, { l with rb := rb, stats := l.stats.drop }) := by
  have hlen : (le16At (byteAt (l.rb.get 2).1) 0).toNat = b.length := by
    rw [ByteRing.get_data, hring]
    exact ByteRing.frame_len (by omega)
  have hbody : ((l.rb.get 2).2.get b.length).1 = b := by
    rw [ByteRing.get_data, ByteRing.get_bytes, hring, ByteRing.frame_body]
  have hrest : ((l.rb.get 2).2.get b.length).2.bytes = rest.flatMap frame := by
    rw [ByteRing.get_bytes, ByteRing.get_bytes, hring, ByteRing.frame_rest]
  have hsize : ¬ l.rb.size < 2 := by
    rw [ByteRing.size, hring, List.length_append, ByteRing.frame_length]
    omega
  have hthere : b.length ≤ (l.rb.get 2).2.bytes.length := by
    rw [ByteRing.get_bytes, List.length_drop, hring, List.length_append, ByteRing.frame_length]
    omega
  refine ⟨((l.rb.get 2).2.get b.length).2, hrest, ?_⟩
  unfold Link.pop
  rw [if_neg hsize]
  simp only [hlen, ge_iff_le]
  -- the line fits the buffer, or is discarded
  by_cases hbig : b.length < bufSize
  · rw [if_neg (by omega), if_pos hbig, hbody]
  · rw [if_pos (by omega), if_neg hbig, discard_eq (Nat.le_refl _) hthere]

theorem pop_empty {l : Link} (bufSize : ℕ) (hring : l.rb.bytes = []) :
    l.pop bufSize = some (0, none, l) := by
  unfold Link.pop
  rw [if_pos (by rw [ByteRing.size, hring]; decide)]

/-- What a pop does to a link that tracks a queue, line by line. -/
theorem Tracks.pop_eq {l : Link} {q : LineQueue} (h : Tracks l q) (bufSize : ℕ) :
    (q.lines = [] ∧ l.pop bufSize = some (0, none, l)) ∨
    ∃ b rest rb, q.lines = b :: rest ∧ rb.bytes = rest.flatMap frame ∧ l.pop bufSize =
      if b.length < bufSize then some ((b.length : Int), some b, { l with rb := rb })
      else some (-EMSGSIZE, none, { l with rb := rb, stats := l.stats.drop }) := by
  cases hlines : q.lines with
  | nil => exact Or.inl ⟨rfl, pop_empty bufSize (by rw [h.ring, hlines]; rfl)⟩
  | cons b rest =>
      have hb := (h.sizes b (by rw [hlines]; exact List.mem_cons_self)).2
      have hring : l.rb.bytes = frame b ++ rest.flatMap frame := by
        rw [h.ring, hlines, List.flatMap_cons]
      obtain ⟨rb, hrb, hpop⟩ := pop_frame bufSize hring hb
      exact Or.inr ⟨b, rest, rb, rfl, hrb, hpop⟩

theorem LineQueue.pop_nil {q : LineQueue} (bufSize : ℕ) (h : q.lines = []) :
    q.pop bufSize = (.popped 0 none, q) := by
  rw [LineQueue.pop, h]

theorem LineQueue.pop_cons {q : LineQueue} {b : Bytes} {rest : List Bytes} (bufSize : ℕ)
    (h : q.lines = b :: rest) :
    q.pop bufSize =
      if b.length < bufSize then
        (.popped b.length (some b),
          { q with lines := rest, taken := q.taken ++ [b], returned := q.returned ++ [b] })
      else
        (.popped (-EMSGSIZE) none,
          { q with lines := rest, taken := q.taken ++ [b], discarded := q.discarded + 1 }) := by
  rw [LineQueue.pop, h]

theorem Tracks.pop {l : Link} {q : LineQueue} (h : Tracks l q) (bufSize : ℕ) :
    (linkStep (.pop bufSize) l).1 = (q.pop bufSize).1 ∧
    Tracks (linkStep (.pop bufSize) l).2 (q.pop bufSize).2 := by
  rw [linkStep]
  rcases h.pop_eq bufSize with ⟨hlines, hpop⟩ | ⟨b, rest, rb, hlines, hrb, hpop⟩
  · rw [LineQueue.pop_nil bufSize hlines, hpop]
    exact ⟨rfl, h⟩
  · have hsizes : ∀ x ∈ rest, 1 ≤ x.length ∧ x.length ≤ 1007 := fun x hx =>
      h.sizes x (by rw [hlines]; exact List.mem_cons_of_mem _ hx)
    have hhistory : q.accepted = q.taken ++ [b] ++ rest := by
      rw [h.history, hlines, List.append_assoc]
      rfl
    have hpopped := h.popped
    rw [LineQueue.pop_cons bufSize hlines, hpop]
    by_cases hbig : b.length < bufSize
    · rw [if_pos hbig, if_pos hbig]
      refine ⟨rfl, hrb, hsizes, h.len, h.overlong, h.text, h.ok, h.dropped, hhistory, ?_⟩
      show (q.taken ++ [b]).length = (q.returned ++ [b]).length + q.discarded
      rw [List.length_append, List.length_append]
      omega
    · rw [if_neg hbig, if_neg hbig]
      refine ⟨rfl, hrb, hsizes, h.len, h.overlong, h.text, h.ok, ?_, hhistory, ?_⟩
      · show l.stats.linesDropped + 1 = _
        rw [h.dropped, ← ofNat_succ32]
        rfl
      · show (q.taken ++ [b]).length = q.returned.length + (q.discarded + 1)
        rw [List.length_append, List.length_singleton]
        omega

/-! ## Runs -/

/-- **One operation of the link is one operation of the queue.** -/
theorem linkStep_tracks {l : Link} {q : LineQueue} (h : Tracks l q) (op : LinkOp) :
    (linkStep op l).1 = (lineQueueStep op q).1 ∧
    Tracks (linkStep op l).2 (lineQueueStep op q).2 := by
  cases op with
  | rx c now =>
      have hrx : (rxByte now c l).1 = q.stores c ∧ Tracks (rxByte now c l).2 (q.rx c) := by
        cases hc : isEol c with
        | false => exact h.rx_text now hc
        | true => exact h.rx_eol now hc
      exact ⟨congrArg LinkAnswer.stored hrx.1, hrx.2⟩
  | pop bufSize => exact h.pop bufSize

theorem link_run_tracks {l : Link} {q : LineQueue} (h : Tracks l q) (ops : List LinkOp) :
    (run linkStep ops l).1 = (run lineQueueStep ops q).1 ∧
    Tracks (runState linkStep ops l) (runState lineQueueStep ops q) :=
  run_refines (R := Tracks) (fun op _ _ _ ht => linkStep_tracks ht op) h

/-- The line an operation returned. -/
def LinkAnswer.line : LinkAnswer → Option Bytes
  | .popped _ buf => buf
  | _ => none

/-- The operation gave up a line that did not fit the buffer. -/
def LinkAnswer.discards : LinkAnswer → Bool
  | .popped ret _ => ret == -EMSGSIZE
  | _ => false

/-- An operation records the line that it returns or discards. -/
theorem lineQueueStep_pops (op : LinkOp) (q : LineQueue) :
    (lineQueueStep op q).2.returned = q.returned ++ ((lineQueueStep op q).1.line).toList ∧
    (lineQueueStep op q).2.discarded
      = q.discarded + if (lineQueueStep op q).1.discards then 1 else 0 := by
  cases op with
  | rx c now =>
      obtain ⟨-, hret, hdis, -⟩ := rx_frame c q
      simpa [lineQueueStep, LinkAnswer.line, LinkAnswer.discards] using And.intro hret hdis
  | pop bufSize =>
      rw [lineQueueStep]
      cases hlines : q.lines with
      | nil =>
          rw [LineQueue.pop_nil bufSize hlines]
          simp [LinkAnswer.line, LinkAnswer.discards, EMSGSIZE]
      | cons b rest =>
          rw [LineQueue.pop_cons bufSize hlines]
          by_cases hbig : b.length < bufSize
          · have hne : ((b.length : Int) == -EMSGSIZE) = false := by
              rw [beq_eq_false_iff_ne]
              unfold EMSGSIZE
              omega
            simp [hbig, LinkAnswer.line, LinkAnswer.discards, hne]
          · simp [hbig, LinkAnswer.line, LinkAnswer.discards]

/-- The queue's records of returned and discarded lines are what the pops of a run show. -/
theorem lineQueue_pops (ops : List LinkOp) (q : LineQueue) :
    (runState lineQueueStep ops q).returned
      = q.returned ++ (run lineQueueStep ops q).1.filterMap LinkAnswer.line ∧
    (runState lineQueueStep ops q).discarded
      = q.discarded + (run lineQueueStep ops q).1.countP LinkAnswer.discards := by
  induction ops generalizing q with
  | nil => simp [run]
  | cons op ops ih =>
      obtain ⟨hret, hdis⟩ := lineQueueStep_pops op q
      obtain ⟨ihret, ihdis⟩ := ih (lineQueueStep op q).2
      rw [runState_cons, run_cons, ihret, ihdis, hret, hdis, List.filterMap_cons, List.countP_cons]
      constructor
      · cases (lineQueueStep op q).1.line with
        | none => simp
        | some b => simp
      · omega

theorem lineQueueStep_not_hung (op : LinkOp) (q : LineQueue) :
    (lineQueueStep op q).1 ≠ .hung := by
  cases op with
  | rx c now => simp [lineQueueStep]
  | pop bufSize =>
      rw [lineQueueStep, LineQueue.pop]
      split
      · simp
      · split <;> simp

/-- **The line queue stays in sync.** In every interleaving of received bytes and pops: the
answers are those of the queue of lines, so no pop hangs; the ring is the concatenation of the
records of the queued lines; the next pop, with any buffer, takes exactly the oldest line and
returns it if it fits, and answers 0 only when no line is queued; the lines queued so far are
those popped, in order, and those still queued; and `lines_ok` counts the lines returned,
discarded and queued. -/
theorem line_queue_in_sync (ops : List LinkOp) :
    let l := runState linkStep ops Link.start
    let q := runState lineQueueStep ops LineQueue.start
    let answers := (run linkStep ops Link.start).1
    answers = (run lineQueueStep ops LineQueue.start).1 ∧
    LinkAnswer.hung ∉ answers ∧
    l.rb.bytes = q.lines.flatMap frame ∧
    (∀ b ∈ q.lines, 1 ≤ b.length ∧ b.length ≤ 1007) ∧
    (∀ bufSize, (q.lines = [] ∧ l.pop bufSize = some (0, none, l)) ∨
      ∃ b rest rb, q.lines = b :: rest ∧ rb.bytes = rest.flatMap frame ∧ l.pop bufSize =
        if b.length < bufSize then some ((b.length : Int), some b, { l with rb := rb })
        else some (-EMSGSIZE, none, { l with rb := rb, stats := l.stats.drop })) ∧
    q.accepted = q.taken ++ q.lines ∧
    l.stats.linesOk = UInt32.ofNat (answers.filterMap LinkAnswer.line).length
      + UInt32.ofNat (answers.countP LinkAnswer.discards) + UInt32.ofNat q.lines.length := by
  intro l q answers
  obtain ⟨hanswers, htracks⟩ : answers = (run lineQueueStep ops LineQueue.start).1 ∧ Tracks l q :=
    link_run_tracks tracks_start ops
  refine ⟨hanswers, ?_, htracks.ring, htracks.sizes, htracks.pop_eq, htracks.history, ?_⟩
  · rw [hanswers]
    intro hmem
    exact run_answers (P := (· ≠ .hung)) lineQueueStep_not_hung ops LineQueue.start _ hmem rfl
  · obtain ⟨hret, hdis⟩ := lineQueue_pops ops LineQueue.start
    have hpopped := htracks.popped
    have hlen : q.accepted.length = q.returned.length + q.discarded + q.lines.length := by
      rw [htracks.history, List.length_append, hpopped]
    have hret' : q.returned.length = (answers.filterMap LinkAnswer.line).length := by
      rw [hanswers]
      exact congrArg List.length hret
    have hdis' : q.discarded = answers.countP LinkAnswer.discards := by
      rw [hanswers]
      exact hdis.trans (Nat.zero_add _)
    calc l.stats.linesOk = UInt32.ofNat q.accepted.length := htracks.ok
      _ = UInt32.ofNat ((answers.filterMap LinkAnswer.line).length
            + answers.countP LinkAnswer.discards + q.lines.length) := by rw [hlen, hret', hdis']
      _ = _ := by rw [UInt32.ofNat_add, UInt32.ofNat_add]

end IotcDemos
