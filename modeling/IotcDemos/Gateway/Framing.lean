import IotcDemos.Gateway.LineQueue

set_option autoImplicit false

/-! # Line framing on the UART

What the interrupt handler makes of a byte stream depends on the stream alone, not on how it is
cut into chunks and interrupts: an interrupt is the bytes it reads, one by one (`uartStep_eq`).
So the lines queued are those of the stream cut at its terminators (`uart_framing`).
-/

namespace IotcDemos

open ByteRing (frame)

/-- An interrupt, or a call of `uart_ingest_pop` on the link. -/
inductive UartOp where
  | isr (i : Interrupt)
  | pop (bufSize : ℕ)

def uartStep : UartOp → Link → LinkAnswer × Link
  | .isr i, l =>
      let (stores, l') := uartIsr i l
      (.stored stores, l')
  | .pop bufSize, l => linkStep (.pop bufSize) l

/-- The bytes that an operation receives. -/
def UartOp.received : UartOp → Bytes
  | .isr i => if i.updated then i.chunks.flatten else []
  | .pop _ => []

/-- The operation, byte by byte. -/
def UartOp.bytewise : UartOp → List LinkOp
  | .isr i => (if i.updated then i.chunks.flatten else []).map fun c => .rx c i.now
  | .pop bufSize => [.pop bufSize]

/-- The stores of an operation into the line buffer. -/
def LinkAnswer.stores : LinkAnswer → List ℕ
  | .stored indices => indices
  | _ => []

/-! ## Chunks and interrupts do not matter -/

theorem rxChunk_eq (now : Int) (cs : Bytes) (l : Link) :
    (rxChunk now cs l).2 = runState linkStep (cs.map fun c => .rx c now) l ∧
    (rxChunk now cs l).1
      = (run linkStep (cs.map fun c => .rx c now) l).1.flatMap LinkAnswer.stores := by
  induction cs generalizing l with
  | nil => exact ⟨rfl, rfl⟩
  | cons c cs ih =>
      obtain ⟨hstate, hstores⟩ := ih (rxByte now c l).2
      refine ⟨hstate, ?_⟩
      rw [List.map_cons, run_cons, List.flatMap_cons]
      exact congrArg ((rxByte now c l).1 ++ ·) hstores

theorem rxChunks_eq (now : Int) (chunks : List Bytes) (l : Link) :
    (rxChunks now chunks l).2 = runState linkStep (chunks.flatten.map fun c => .rx c now) l ∧
    (rxChunks now chunks l).1
      = (run linkStep (chunks.flatten.map fun c => .rx c now) l).1.flatMap LinkAnswer.stores := by
  induction chunks generalizing l with
  | nil => exact ⟨rfl, rfl⟩
  | cons chunk chunks ih =>
      obtain ⟨hstate, hstores⟩ := rxChunk_eq now chunk l
      obtain ⟨ihstate, ihstores⟩ := ih (rxChunk now chunk l).2
      rw [List.flatten_cons, List.map_append, runState_append, run_append, List.flatMap_append,
        ← hstate, ← hstores, ← ihstate, ← ihstores]
      exact ⟨rfl, rfl⟩

/-- An operation is its bytes, one by one. -/
theorem uartStep_eq (op : UartOp) (l : Link) :
    (uartStep op l).2 = runState linkStep op.bytewise l ∧
    (uartStep op l).1.stores = (run linkStep op.bytewise l).1.flatMap LinkAnswer.stores ∧
    (uartStep op l).1.line.toList = (run linkStep op.bytewise l).1.filterMap LinkAnswer.line := by
  cases op with
  | pop bufSize =>
      refine ⟨rfl, ?_, ?_⟩
      · show _ = LinkAnswer.stores _ ++ []
        rw [List.append_nil]
        rfl
      · show _ = List.filterMap LinkAnswer.line [(linkStep (.pop bufSize) l).1]
        rw [List.filterMap_cons, List.filterMap_nil]
        show (linkStep (.pop bufSize) l).1.line.toList = _
        cases (linkStep (.pop bufSize) l).1.line <;> rfl
  | isr i =>
      have hnone : ∀ (cs : Bytes) (l : Link),
          (run linkStep (cs.map fun c => .rx c i.now) l).1.filterMap LinkAnswer.line = [] := by
        intro cs
        induction cs with
        | nil => intro l; rfl
        | cons c cs ih => intro l; exact ih _
      show (uartIsr i l).2 = _ ∧ (uartIsr i l).1 = _ ∧ [] = _
      rw [uartIsr, UartOp.bytewise, hnone]
      cases hu : i.updated with
      | false => exact ⟨rfl, rfl, rfl⟩
      | true =>
          obtain ⟨hstate, hstores⟩ := rxChunks_eq i.now i.chunks l
          exact ⟨hstate, hstores, rfl⟩

theorem uart_run_eq (ops : List UartOp) (l : Link) :
    runState uartStep ops l = runState linkStep (ops.flatMap UartOp.bytewise) l ∧
    (run uartStep ops l).1.flatMap LinkAnswer.stores
      = (run linkStep (ops.flatMap UartOp.bytewise) l).1.flatMap LinkAnswer.stores ∧
    (run uartStep ops l).1.filterMap LinkAnswer.line
      = (run linkStep (ops.flatMap UartOp.bytewise) l).1.filterMap LinkAnswer.line := by
  induction ops generalizing l with
  | nil => exact ⟨rfl, rfl, rfl⟩
  | cons op ops ih =>
      obtain ⟨hstate, hstores, hline⟩ := uartStep_eq op l
      obtain ⟨ihstate, ihstores, ihline⟩ := ih (uartStep op l).2
      rw [List.flatMap_cons, runState_append, run_append, runState_cons, run_cons,
        List.flatMap_append, List.filterMap_append, List.flatMap_cons, List.filterMap_cons,
        ← hstate, ← hstores, ← hline, ihstate, ihstores, ihline]
      refine ⟨rfl, rfl, ?_⟩
      cases (uartStep op l).1.line <;> rfl

/-! ## The lines of a stream -/

/-- The segments of a stream that end at a terminator. -/
def terminated (stream : Bytes) : List Bytes := (stream.splitOnP isEol).dropLast

theorem terminated_eol {seg rest : Bytes} {c : UInt8} (hseg : ∀ x ∈ seg, isEol x = false)
    (hc : isEol c = true) : terminated (seg ++ c :: rest) = seg :: terminated rest := by
  rw [terminated, List.splitOnP_append_cons_of_forall_mem hseg c hc,
    List.dropLast_cons_of_ne_nil (List.splitOnP_ne_nil _ _), terminated]

theorem terminated_tail {seg : Bytes} (hseg : ∀ x ∈ seg, isEol x = false) :
    terminated seg = [] := by
  rw [terminated, List.splitOnP_eq_singleton hseg, List.dropLast_singleton]

def LinkOp.received : LinkOp → Bytes
  | .rx c _ => [c]
  | .pop _ => []

/-- The queue never forgets a rejection. -/
theorem rejected_mono (op : LinkOp) (q : LineQueue) :
    q.rejected ≤ (lineQueueStep op q).2.rejected := by
  cases op with
  | rx c now =>
      obtain ⟨-, -, -, hle, -⟩ := rx_frame c q
      exact hle
  | pop bufSize =>
      show q.rejected ≤ (q.pop bufSize).2.rejected
      unfold LineQueue.pop
      split
      · exact Nat.le_refl _
      · split <;> exact Nat.le_refl _

theorem rejected_mono_run (ops : List LinkOp) (q : LineQueue) :
    q.rejected ≤ (runState lineQueueStep ops q).rejected :=
  run_inv (P := fun q' : LineQueue => q.rejected ≤ q'.rejected)
    (fun op _ q' h => h.trans (rejected_mono op q')) (Nat.le_refl _)

/-- A pop changes neither the segment nor what was accepted. -/
theorem pop_account (bufSize : ℕ) (q : LineQueue) :
    (q.pop bufSize).2.seg = q.seg ∧ (q.pop bufSize).2.accepted = q.accepted ∧
      (q.pop bufSize).2.overlong = q.overlong := by
  cases hlines : q.lines with
  | nil =>
      rw [LineQueue.pop_nil bufSize hlines]
      exact ⟨rfl, rfl, rfl⟩
  | cons b rest =>
      rw [LineQueue.pop_cons bufSize hlines]
      split <;> exact ⟨rfl, rfl, rfl⟩

/-- The end of a segment accepts the line in it, if it is not rejected, and counts an overlong
one. -/
theorem endLine_account {q : LineQueue} (hroom : q.endLine.rejected = q.rejected) :
    q.endLine.seg = [] ∧ q.endLine.accepted = q.accepted ++ (telemetryLine q.seg).toList ∧
      q.endLine.overlong = q.overlong + if ingestLineMax - 1 < q.seg.length then 1 else 0 := by
  by_cases hlong : ingestLineMax - 1 < q.seg.length
  · have hnone : telemetryLine q.seg = none := by
      unfold telemetryLine
      rw [if_neg]
      rintro ⟨hle, -⟩
      omega
    rw [hnone, endLine_overlong hlong, if_pos hlong]
    simp
  · rw [if_neg hlong]
    cases hline : telemetryLine q.seg with
    | none =>
        rw [endLine_noise hlong hline]
        simp
    | some b =>
        by_cases hfull : lineRingSize < (q.lines.flatMap frame).length + (2 + b.length)
        · -- a rejection is excluded
          rw [endLine_full hlong hline hfull] at hroom
          exact absurd hroom (Nat.succ_ne_self _)
        · rw [endLine_line hlong hline hfull]
          simp

/-- **The lines of the stream are the lines accepted**, when none is rejected. -/
theorem accepted_eq (ops : List LinkOp) (q : LineQueue) (hseg : ∀ x ∈ q.seg, isEol x = false)
    (hroom : (runState lineQueueStep ops q).rejected = q.rejected) :
    (runState lineQueueStep ops q).accepted = q.accepted
      ++ (terminated (q.seg ++ ops.flatMap LinkOp.received)).filterMap telemetryLine ∧
    (runState lineQueueStep ops q).overlong = q.overlong
      + (terminated (q.seg ++ ops.flatMap LinkOp.received)).countP
        fun seg => decide (ingestLineMax - 1 < seg.length) := by
  induction ops generalizing q with
  | nil =>
      rw [List.flatMap_nil, List.append_nil, terminated_tail hseg]
      simp
  | cons op ops ih =>
      have hmono := rejected_mono op q
      have hmono' := rejected_mono_run ops (lineQueueStep op q).2
      rw [runState_cons] at hroom ⊢
      cases op with
      | pop bufSize =>
          obtain ⟨hs, ha, ho⟩ : (lineQueueStep (.pop bufSize) q).2.seg = q.seg ∧
              (lineQueueStep (.pop bufSize) q).2.accepted = q.accepted ∧
              (lineQueueStep (.pop bufSize) q).2.overlong = q.overlong := pop_account bufSize q
          have hih := ih (q := (lineQueueStep (.pop bufSize) q).2) (by rw [hs]; exact hseg)
            (by omega)
          rw [hs, ha, ho] at hih
          exact hih
      | rx c now =>
          have hstep : (lineQueueStep (.rx c now) q).2 = q.rx c := rfl
          rw [hstep] at hroom hmono hmono' ⊢
          rw [List.flatMap_cons]
          show _ = _ ++ (terminated (q.seg ++ c :: ops.flatMap LinkOp.received)).filterMap _ ∧
            _ = _ + (terminated (q.seg ++ c :: ops.flatMap LinkOp.received)).countP _
          cases hc : isEol c with
          | false =>
              -- the byte joins the segment
              have hrx : q.rx c = { q with seg := q.seg ++ [c] } := by
                rw [LineQueue.rx, if_neg (by simp [hc])]
              rw [hrx] at hroom ⊢
              have hih := ih (q := { q with seg := q.seg ++ [c] }) (by
                intro x hx
                rcases List.mem_append.mp hx with hx | hx
                · exact hseg x hx
                · rw [List.mem_singleton.mp hx]
                  exact hc) hroom
              have happ : q.seg ++ c :: ops.flatMap LinkOp.received
                  = q.seg ++ [c] ++ ops.flatMap LinkOp.received := by simp
              rw [happ]
              exact hih
          | true =>
              -- the segment ends here
              have hrx : q.rx c = q.endLine := by rw [LineQueue.rx, if_pos hc]
              rw [hrx] at hroom hmono hmono' ⊢
              obtain ⟨hend, hacc, hover⟩ := endLine_account (by omega : q.endLine.rejected = _)
              have hih := ih (q := q.endLine) (by rw [hend]; simp) (by omega)
              rw [hend, hacc, hover, List.nil_append] at hih
              rw [terminated_eol hseg hc, List.filterMap_cons, List.countP_cons, hih.1, hih.2]
              constructor
              · cases telemetryLine q.seg with
                | none => simp
                | some b => simp
              · simp only [decide_eq_true_eq]
                omega

/-! ## The link -/

/-- With buffers of `INGEST_LINE_MAX` bytes every popped line is returned. -/
structure AllReturned (q : LineQueue) : Prop where
  sizes : ∀ b ∈ q.lines, b.length ≤ 1007
  discarded : q.discarded = 0
  taken : q.taken = q.returned

theorem AllReturned.step {q : LineQueue} (h : AllReturned q) {op : LinkOp}
    (hpop : ∀ bufSize, op = .pop bufSize → ingestLineMax ≤ bufSize) :
    AllReturned (lineQueueStep op q).2 := by
  cases op with
  | rx c now =>
      obtain ⟨htaken, hret, hdis, -, hlines⟩ := rx_frame c q
      refine ⟨?_, hdis.trans h.discarded, htaken.trans (h.taken.trans hret.symm)⟩
      intro b hb
      change b ∈ (q.rx c).lines at hb
      rcases hlines with hsame | ⟨line, hline, hmore⟩
      · rw [hsame] at hb
        exact h.sizes b hb
      · -- the line queued now
        rw [hmore] at hb
        rcases List.mem_append.mp hb with hb | hb
        · exact h.sizes b hb
        · rw [List.mem_singleton.mp hb]
          exact (telemetryLine_length hline).2
  | pop bufSize =>
      have hbig : 1024 ≤ bufSize := hpop bufSize rfl
      rw [lineQueueStep]
      cases hlines : q.lines with
      | nil =>
          rw [LineQueue.pop_nil bufSize hlines]
          exact h
      | cons b rest =>
          have hb := h.sizes b (by rw [hlines]; exact List.mem_cons_self)
          rw [LineQueue.pop_cons bufSize hlines, if_pos (by omega)]
          refine ⟨?_, h.discarded, ?_⟩
          · intro x hx
            exact h.sizes x (by rw [hlines]; exact List.mem_cons_of_mem _ hx)
          · show q.taken ++ [b] = q.returned ++ [b]
            rw [h.taken]

/-- A byte is only stored inside the line buffer. -/
theorem stores_lt (op : LinkOp) (q : LineQueue) :
    ∀ i ∈ (lineQueueStep op q).1.stores, i < ingestLineMax := by
  have hmax : ingestLineMax = 1024 := rfl
  cases op with
  | pop bufSize =>
      rw [lineQueueStep]
      unfold LineQueue.pop
      split
      · simp [LinkAnswer.stores]
      · split <;> simp [LinkAnswer.stores]
  | rx c now =>
      show ∀ i ∈ q.stores c, i < ingestLineMax
      unfold LineQueue.stores
      intro i hi
      split at hi
      · split at hi
        · exact absurd hi List.not_mem_nil
        · rename_i hshort
          rw [List.mem_singleton.mp hi]
          omega
      · split at hi
        · rw [List.mem_singleton.mp hi]
          omega
        · exact absurd hi List.not_mem_nil

/-- The line queue has room for every telemetry line of the run. -/
def NeverFills (ops : List UartOp) : Prop :=
  (runState lineQueueStep (ops.flatMap UartOp.bytewise) LineQueue.start).rejected = 0

theorem received_bytewise (op : UartOp) : op.bytewise.flatMap LinkOp.received = op.received := by
  cases op with
  | pop bufSize => rfl
  | isr i =>
      rw [UartOp.bytewise, UartOp.received]
      generalize (if i.updated then i.chunks.flatten else []) = cs
      rw [List.flatMap_map]
      exact List.flatMap_singleton' cs

theorem received_flatMap_bytewise (ops : List UartOp) :
    (ops.flatMap UartOp.bytewise).flatMap LinkOp.received = ops.flatMap UartOp.received := by
  rw [List.flatMap_assoc]
  exact List.flatMap_congr fun op _ => received_bytewise op

/-- The pops stay as they are. -/
theorem pop_mem_bytewise {ops : List UartOp} {bufSize : ℕ}
    (h : LinkOp.pop bufSize ∈ ops.flatMap UartOp.bytewise) : UartOp.pop bufSize ∈ ops := by
  obtain ⟨op, hop, hmem⟩ := List.mem_flatMap.mp h
  cases op with
  | isr i =>
      rw [UartOp.bytewise, List.mem_map] at hmem
      obtain ⟨c, -, hc⟩ := hmem
      exact absurd hc (by simp)
  | pop n =>
      obtain rfl : bufSize = n := by simpa [UartOp.bytewise] using hmem
      exact hop

/-- Buffers of `INGEST_LINE_MAX` bytes for every pop of a run, byte by byte. -/
theorem pops_bytewise {ops : List UartOp}
    (hpop : ∀ bufSize, UartOp.pop bufSize ∈ ops → ingestLineMax ≤ bufSize) :
    ∀ op ∈ ops.flatMap UartOp.bytewise, ∀ bufSize, op = LinkOp.pop bufSize →
      ingestLineMax ≤ bufSize := by
  rintro op hop bufSize rfl
  exact hpop bufSize (pop_mem_bytewise hop)

/-- The lines returned in a run and those still queued are the telemetry lines of the stream. -/
theorem framed_queue {ops : List UartOp}
    (hpop : ∀ bufSize, UartOp.pop bufSize ∈ ops → ingestLineMax ≤ bufSize)
    (hroom : NeverFills ops) :
    let queue := (runState lineQueueStep (ops.flatMap UartOp.bytewise) LineQueue.start).lines
    (∀ b ∈ queue, b.length ≤ 1007) ∧
    (runState uartStep ops Link.start).rb.bytes = queue.flatMap frame ∧
    (run uartStep ops Link.start).1.filterMap LinkAnswer.line ++ queue
      = (terminated (ops.flatMap UartOp.received)).filterMap telemetryLine := by
  intro queue
  obtain ⟨hstate, -, hlines⟩ := uart_run_eq ops Link.start
  obtain ⟨hanswers, htracks⟩ := link_run_tracks tracks_start (ops.flatMap UartOp.bytewise)
  have haccepted := (accepted_eq (ops.flatMap UartOp.bytewise) LineQueue.start
    (by simp [LineQueue.start]) hroom).1
  have hall : AllReturned
      (runState lineQueueStep (ops.flatMap UartOp.bytewise) LineQueue.start) :=
    run_inv (fun op hop _ hq => hq.step (pops_bytewise hpop op hop))
      ⟨by simp [LineQueue.start], rfl, rfl⟩
  have hreturned := (lineQueue_pops (ops.flatMap UartOp.bytewise) LineQueue.start).1
  refine ⟨hall.sizes, ?_, ?_⟩
  · rw [hstate]
    exact htracks.ring
  · rw [received_flatMap_bytewise] at haccepted
    change _ = (terminated (ops.flatMap UartOp.received)).filterMap telemetryLine at haccepted
    rw [← haccepted, htracks.history, hall.taken, hreturned, ← hanswers]
    show (run uartStep ops Link.start).1.filterMap LinkAnswer.line ++ _ = [] ++ _ ++ _
    rw [hlines, List.nil_append]

/-- **Line framing.** Whatever the stream and however it is cut into chunks and interrupts, and
with any pops between them into buffers of at least `INGEST_LINE_MAX` bytes: as long as the queue
has room, the lines returned and still queued are, in order, the telemetry lines among the
terminated segments of the stream; `lines_ok` counts them, `lines_dropped` the terminated
segments that are too long, and every store into the line buffer is inside it. -/
theorem uart_framing (ops : List UartOp)
    (hpop : ∀ bufSize, UartOp.pop bufSize ∈ ops → ingestLineMax ≤ bufSize)
    (hroom : NeverFills ops) :
    let l := runState uartStep ops Link.start
    let answers := (run uartStep ops Link.start).1
    let segs := terminated (ops.flatMap UartOp.received)
    let lines := segs.filterMap telemetryLine
    (∃ queue : List Bytes, l.rb.bytes = queue.flatMap frame ∧
      answers.filterMap LinkAnswer.line ++ queue = lines) ∧
    l.stats.linesOk = UInt32.ofNat lines.length ∧
    l.stats.linesDropped
      = UInt32.ofNat (segs.countP fun seg => decide (ingestLineMax - 1 < seg.length)) ∧
    ∀ i ∈ answers.flatMap LinkAnswer.stores, i < ingestLineMax := by
  intro l answers segs lines
  obtain ⟨hstate, hstores, -⟩ := uart_run_eq ops Link.start
  obtain ⟨hanswers, htracks⟩ :=
    link_run_tracks tracks_start (ops.flatMap UartOp.bytewise)
  obtain ⟨haccepted, hoverlong⟩ :=
    accepted_eq (ops.flatMap UartOp.bytewise) LineQueue.start
      (by simp [LineQueue.start]) hroom
  obtain ⟨-, hring, hqueue⟩ := framed_queue hpop hroom
  have hall : AllReturned
      (runState lineQueueStep (ops.flatMap UartOp.bytewise) LineQueue.start) :=
    run_inv (fun op hop _ hq => hq.step (pops_bytewise hpop op hop))
      ⟨by simp [LineQueue.start], rfl, rfl⟩
  unfold NeverFills at hroom
  rw [received_flatMap_bytewise] at haccepted hoverlong
  change _ = lines at haccepted
  have hl : l = runState linkStep (ops.flatMap UartOp.bytewise) Link.start := hstate
  refine ⟨⟨_, hring, hqueue⟩, ?_, ?_, ?_⟩
  · rw [hl, htracks.ok, haccepted]
  · rw [hl, htracks.dropped, hroom, hall.discarded, hoverlong]
    show UInt32.ofNat (0 + _ + 0 + 0) = _
    rw [Nat.zero_add]
    rfl
  · show ∀ i ∈ (run uartStep ops Link.start).1.flatMap LinkAnswer.stores, i < ingestLineMax
    rw [hstores, hanswers]
    intro i hi
    obtain ⟨a, ha, hia⟩ := List.mem_flatMap.mp hi
    exact run_answers (P := fun a => ∀ i ∈ a.stores, i < ingestLineMax) stores_lt _ _ a ha i hia

/-- A telemetry line that is cut in two chunks and ends in CR LF. -/
theorem uart_framing_cut_line :
    let ops : List UartOp := [.isr ⟨true, [ingestPrefix ++ [123], [125, 13, 10]], 5⟩, .pop 1024]
    (∀ bufSize, UartOp.pop bufSize ∈ ops → ingestLineMax ≤ bufSize) ∧ NeverFills ops ∧
    (runState uartStep ops Link.start).stats.linesOk = 1 := by
  intro ops
  have hpop : ∀ bufSize, UartOp.pop bufSize ∈ ops → ingestLineMax ≤ bufSize := by
    intro bufSize hmem
    obtain rfl : bufSize = 1024 := by simpa [ops] using hmem
    exact Nat.le_refl _
  have hroom : NeverFills ops := by
    unfold NeverFills
    decide +kernel
  have hlines :
      ((terminated (ops.flatMap UartOp.received)).filterMap telemetryLine).length = 1 := by
    decide +kernel
  refine ⟨hpop, hroom, (uart_framing ops hpop hroom).2.1.trans ?_⟩
  rw [hlines]
  rfl

end IotcDemos
