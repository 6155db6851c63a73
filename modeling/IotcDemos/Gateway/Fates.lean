import IotcDemos.Gateway.Delivery
import IotcDemos.Lib.LossyQueue

set_option autoImplicit false

/-! # One fate for each record

The main loop is a queue that may lose what it holds: `Tracked` says that a run so far is a run of
such a queue, whose items are the records with their numbers. What was on the disk before the
program started has the number 0. So every record that is built is published once, or waits in the
spool, or was dropped once; and the records leave the spool in the order in which they were built.
-/

namespace IotcDemos

/-! ## What the trace says of the records -/

def RecordEvent.builtEntry : RecordEvent → Option Entry
  | .built e => some e
  | _ => none

def RecordEvent.publishedEntry : RecordEvent → Option Entry
  | .publish e _ => some e
  | _ => none

def RecordEvent.committedEntry : RecordEvent → Option Entry
  | .committed e => e
  | _ => none

def RecordEvent.droppedEntry : RecordEvent → Option Entry
  | .dropped e => e
  | _ => none

/-- The trace as the history of a queue that holds `q`. -/
def ledger (q : List (Option Entry)) (trace : List RecordEvent) : LossyQueue Entry where
  made := trace.filterMap RecordEvent.builtEntry
  queue := q
  sent := trace.filterMap RecordEvent.publishedEntry
  taken := trace.filterMap RecordEvent.committedEntry
  lost := trace.filterMap RecordEvent.droppedEntry

theorem ledger_dropped (q : List (Option Entry)) (x : Option Entry) (trace : List RecordEvent) :
    ledger q (.dropped x :: trace)
      = { ledger q trace with lost := x.toList ++ (ledger q trace).lost } := by
  cases x <;> rfl

section Fates

variable (crc32Ieee : Bytes → UInt32) (c : SpoolConfig)

/-- The place holds nothing this program has written. -/
def Stranger (d : Disk) (seq : UInt32) : Prop :=
  ∀ e, entryOf crc32Ieee c d seq = some e → e.1 = 0

/-- The run so far is one of a queue that began with `m` unknown places. -/
structure Tracked (start p m : ℕ) (q : List (Option Entry)) (g : Gateway) : Prop where
  carried : Carried crc32Ieee c start p q g
  clock : ∀ e ∈ g.trace.filterMap RecordEvent.builtEntry, e.1 ≤ g.node.disk.clock
  strangers : ∀ k, q[k]? = some none → Stranger crc32Ieee c g.node.disk (g.node.ram.seqAt k)
  history : Relation.ReflTransGen (LossyQueue.Step c.nslots Prod.fst) (LossyQueue.start m)
    (ledger q g.trace)

variable {crc32Ieee c}

/-! ## Strangers -/

/-- A record is pushed at another sequence number. -/
theorem Stranger.pushed {d : Disk} {seq tail : UInt32} (h : Stranger crc32Ieee c d seq)
    (hne : tail ≠ seq) {json : Bytes} (hj : json.length ≤ spoolPayloadMax) :
    Stranger crc32Ieee c (pushed crc32Ieee c tail json d) seq := by
  intro e he
  have hheld := entryOf_eq_some.mp he
  have hslot : slotIdx c tail ≠ slotIdx c seq := fun hs =>
    hne (held_slotIdx_inj crc32Ieee c (recordAt_pushed crc32Ieee c d hj) hheld.1 hs)
  -- the two records lie in different slots, so this one is as it was
  refine h e (entryOf_eq_some.mpr ?_)
  rw [IotcDemos.pushed, slotOf_eq] at hheld
  have hrec := hheld.1
  have hstamp := hheld.2
  rw [recordAt_of_ne crc32Ieee c _ _ _ (by decide) (slotIdx_lt c _) hslot] at hrec
  rw [stampAt_of_ne c _ _ _ (by decide) (slotIdx_lt c _) (slotIdx_lt c _) hslot] at hstamp
  exact ⟨hrec, hstamp⟩

/-- Two places of a window have different sequence numbers. -/
theorem seqAt_ne (c : SpoolConfig) (s : Spool) {i k : ℕ} (hik : i < k) (hk : k ≤ c.nslots) :
    s.seqAt k ≠ s.seqAt i := by
  intro heq
  have hn := nslots_lt c
  have := add_ofNat_inj (by omega) (by omega) heq
  omega

/-- A record is written behind the places of a window. -/
theorem strangers_append {d : Disk} {s : Spool} {l : List (Option Entry)} {x : Entry}
    {json : Bytes} (h : ∀ k, l[k]? = some none → Stranger crc32Ieee c d (s.seqAt k))
    (htail : s.tailSeq = s.seqAt l.length) (hcap : l.length < c.nslots)
    (hj : json.length ≤ spoolPayloadMax) :
    ∀ k, (l ++ [some x])[k]? = some none →
      Stranger crc32Ieee c (pushed crc32Ieee c s.tailSeq json d) (s.appended.seqAt k) := by
  intro k hk
  rcases Nat.lt_or_ge k l.length with hlt | hge
  · rw [List.getElem?_append_left hlt] at hk
    refine Stranger.pushed (h k hk) ?_ hj
    rw [htail]
    exact seqAt_ne c s hlt hcap.le
  · rw [List.getElem?_append_right hge, List.getElem?_singleton] at hk
    split at hk <;> simp at hk

section Step

variable {start p m : ℕ} {q : List (Option Entry)} {g : Gateway}

theorem Tracked.congr {g' : Gateway} (h : Tracked crc32Ieee c start p m q g)
    (hnode : g'.node = g.node) (htrace : g'.trace = g.trace) (hok : g'.spoolOk = g.spoolOk) :
    Tracked crc32Ieee c start p m q g' where
  carried := h.carried.congr hnode htrace hok
  clock := by
    rw [hnode, htrace]
    exact h.clock
  strangers := by
    rw [hnode]
    exact h.strangers
  history := by
    rw [htrace]
    exact h.history

/-- The next number is larger than those before. -/
theorem Tracked.new (h : Tracked crc32Ieee c start p m q g) (json : Bytes) :
    LossyQueue.New Prod.fst (g.node.disk.tick.clock, json) (ledger q g.trace) :=
  ⟨Nat.succ_pos _, fun e he => Nat.lt_succ_of_le (h.clock e he)⟩

theorem Tracked.clock_build (h : Tracked crc32Ieee c start p m q g) (json : Bytes) :
    ∀ e ∈ (g.node.disk.tick.clock, json) :: g.trace.filterMap RecordEvent.builtEntry,
      e.1 ≤ g.node.disk.tick.clock := by
  intro e he
  rcases List.mem_cons.mp he with rfl | he
  · exact Nat.le_refl _
  · exact Nat.le_succ_of_le (h.clock e he)

/-- A record is built and published. -/
theorem Tracked.offer_live (h : Tracked crc32Ieee c start p m q g) (t : Tick) (json : Bytes) :
    Tracked crc32Ieee c start p m q (g.offer crc32Ieee c t true json) where
  carried := h.carried.offer_live t json
  clock := h.clock_build json
  strangers := h.strangers
  history := h.history.tail (.direct (h.new json))

/-- A record too long for a slot is dropped. -/
theorem Tracked.offer_long (h : Tracked crc32Ieee c start p m q g) (t : Tick) {json : Bytes}
    (hj : spoolPayloadMax < json.length) :
    Tracked crc32Ieee c start p m q (g.offer crc32Ieee c t false json) := by
  have hpush : spoolPush Disk.reliable crc32Ieee c json ⟨g.node.disk.tick, g.node.ram⟩
      = (-EMSGSIZE, ⟨g.node.disk.tick, { g.node.ram with
        stats := { g.node.ram.stats with drops := g.node.ram.stats.drops + 1 } }⟩) :=
    spoolPush_long h.carried.window.ready hj
  have hoffer : g.offer crc32Ieee c t false json = { g with
      node := ⟨g.node.disk.tick, { g.node.ram with
        stats := { g.node.ram.stats with drops := g.node.ram.stats.drops + 1 } }⟩
      trace := .dropped (some (g.node.disk.tick.clock, json))
        :: .built (g.node.disk.tick.clock, json) :: g.trace } := by
    simp only [Gateway.offer, Gateway.build, Gateway.push, pushDrops, h.carried.spoolOk, hpush,
      if_pos hj, if_true, Bool.false_eq_true, if_false, List.singleton_append]
  have hcarried := h.carried.offer_long t hj
  rw [hoffer] at hcarried ⊢
  exact ⟨hcarried, h.clock_build json, h.strangers, h.history.tail (.refuse (h.new json))⟩

/-- What the front of the window turns out to hold. -/
theorem Tracked.holds {x : Option Entry} (h : Tracked crc32Ieee c start p m (x :: q) g) :
    LossyQueue.Holds Prod.fst x (entryOf crc32Ieee c g.node.disk g.node.ram.headSeq) := by
  cases x with
  | some e => exact entryOf_eq_some.mpr h.carried.window.front
  -- nothing is known of the place, but it holds no record of this program
  | none =>
      have := h.strangers 0 rfl
      rw [seqAt_zero] at this
      exact this

/-- A record is built and spooled; a full ring loses its oldest one. -/
theorem Tracked.offer_spooled (h : Tracked crc32Ieee c start p m q g) (t : Tick) {json : Bytes}
    (hj : json.length ≤ spoolPayloadMax) (hroom : c.nslots ∣ 2 ^ 32 ∨ start + p < 2 ^ 32) :
    Tracked crc32Ieee c start (p + 1) m
      (Fifo.push c.nslots (some (g.node.disk.tick.clock, json)) q)
      (g.offer crc32Ieee c t false json) := by
  have hpush := spoolPush_eq crc32Ieee c (n := ⟨g.node.disk.tick, g.node.ram⟩)
    h.carried.window.ready hj
  have hoffer : g.offer crc32Ieee c t false json = { g with
      node := ⟨pushed crc32Ieee c g.node.ram.tailSeq json g.node.disk.tick,
        (g.node.ram.makeRoom c).appended⟩
      trace := (if g.node.ram.recCount.toNat = c.nslots then
          [.dropped (entryOf crc32Ieee c g.node.disk.tick g.node.ram.headSeq)] else [])
        ++ .built (g.node.disk.tick.clock, json) :: g.trace } := by
    simp only [Gateway.offer, Gateway.build, Gateway.push, pushDrops, h.carried.spoolOk, hpush,
      if_neg (Nat.not_lt.mpr hj), gt_iff_lt, if_true, Bool.false_eq_true, if_false]
  have hcarried := h.carried.offer_spooled t hj hroom
  have hcount := h.carried.window.count
  have htail := h.carried.window.tail
  have hcap := h.carried.window.cap
  rw [hoffer] at hcarried ⊢
  -- a full ring gives up its oldest record first
  by_cases hfull : q.length = c.nslots
  · rw [if_pos (hcount.trans hfull)] at hcarried ⊢
    cases q with
    | nil =>
        have hpos := c.pos
        rw [List.length_nil] at hfull
        omega
    | cons x q =>
        have hroom' : g.node.ram.makeRoom c = g.node.ram.sacrifice := by
          rw [Spool.makeRoom, if_pos (hcount.trans hfull)]
        have hnext : ∀ k, g.node.ram.sacrifice.seqAt k = g.node.ram.seqAt (k + 1) := seqAt_next rfl
        rw [Fifo.push, if_pos hfull, List.tail_cons, hroom'] at hcarried ⊢
        rw [List.length_cons] at htail hcap
        refine ⟨hcarried, h.clock_build json,
          strangers_append (s := g.node.ram.sacrifice) ?_ ?_ hcap hj, ?_⟩
        · intro k hk
          rw [hnext]
          exact h.strangers (k + 1) hk
        · rw [hnext]
          exact htail
        · rw [List.singleton_append, ledger_dropped]
          exact h.history.tail (.pushOut (h.new json) hfull rfl h.holds)
  · have hroom' : g.node.ram.makeRoom c = g.node.ram := by
      rw [Spool.makeRoom, if_neg (by rwa [hcount])]
    have hlt : q.length < c.nslots := by omega
    rw [if_neg (by rwa [hcount]), List.nil_append] at hcarried ⊢
    rw [Fifo.push, if_neg hfull, hroom'] at hcarried ⊢
    exact ⟨hcarried, h.clock_build json, strangers_append h.strangers htail hlt hj,
      h.history.tail (.push (h.new json) hlt)⟩

/-- The window of another queue. -/
theorem Carried.requeue (h : Carried crc32Ieee c start p q g) {l : List (Option Entry)}
    (hwindow : Window crc32Ieee c g.node l)
    (hrecent : ∀ k e, l[k]? = some (some e) → l.length ≤ k + p)
    (hfate : ∀ e, .built e ∈ g.trace → (∃ accepted, .publish e accepted ∈ g.trace) ∨ some e ∈ l ∨
      .dropped (some e) ∈ g.trace) : Carried crc32Ieee c start p l g :=
  ⟨h.spoolOk, hwindow, h.place, hrecent, h.few, hfate, h.drops, h.justified⟩

/-- A peek passes over places without a record, and stops in front of one. -/
theorem Tracked.peek (h : Tracked crc32Ieee c start p m q g) :
    ∃ q', Tracked crc32Ieee c start p m q' (g.peek crc32Ieee c).2.2 ∧
      ∀ b, (g.peek crc32Ieee c).2.1 = some b → ∃ x q'', q' = x :: q'' ∧
        recordAt crc32Ieee c (g.peek crc32Ieee c).2.2.node.disk
          (g.peek crc32Ieee c).2.2.node.ram.headSeq = some b := by
  obtain ⟨q₁, hcarried, hfound⟩ := h.carried.peek
  obtain ⟨j, hp⟩ := spoolPeek_spec crc32Ieee c (spoolPayloadMax + 1) h.carried.window.ready
  have hj : j ≤ q.length := by
    rw [← h.carried.window.count]
    exact hp.le crc32Ieee c
  have hrejected : ∀ i, i < j → recordAt crc32Ieee c g.node.disk (g.node.ram.seqAt i) = none :=
    fun i hi => hp.skips_rejected (Nat.lt_succ_self _) hi
  -- a place that was passed over had no record
  have hnone : ∀ i, i < j → q[i]? = some none := by
    intro i hi
    rw [List.getElem?_eq_getElem (by omega)]
    rcases hx : q[i] with _ | e
    · rfl
    · have hheld := h.carried.window.held i e (List.getElem?_eq_some_iff.mpr ⟨by omega, hx⟩)
      have hrec := hheld.1
      -- a record that was there would not have been rejected
      rw [hrejected i hi] at hrec
      cases hrec
  have hnode : (g.peek crc32Ieee c).2.2.node = ⟨g.node.disk, Spool.skip^[j] g.node.ram⟩ := hp.node
  have htrace : (g.peek crc32Ieee c).2.2.trace = List.replicate j (.dropped none) ++ g.trace := by
    have hleft : g.node.ram.recCount.toNat - (Spool.skip^[j] g.node.ram).recCount.toNat = j := by
      have hcount := h.carried.window.count
      rw [skips_recCount (k := q.length - j) (by omega)]
      omega
    show peekDrops crc32Ieee c g.node (g.peek crc32Ieee c).2.2.node ++ g.trace = _
    rw [hnode, peekDrops, hleft]
    congr 1
    rw [List.eq_replicate_iff]
    refine ⟨by simp, fun x hx => ?_⟩
    obtain ⟨k, hk, rfl⟩ := List.mem_map.mp (List.mem_reverse.mp hx)
    rw [entryOf, hrejected k (List.mem_range.mp hk), Option.map_none]
  refine ⟨q.drop j, ⟨hcarried.requeue ?_ ?_ ?_, ?_, ?_, ?_⟩, ?_⟩
  · rw [hnode]
    exact h.carried.window.skips crc32Ieee c hj
  · intro k e hk
    rw [List.getElem?_drop] at hk
    have := h.carried.recent (j + k) e hk
    rw [List.length_drop]
    omega
  · intro e he
    rw [htrace] at he ⊢
    have hold : .built e ∈ g.trace := by simpa using he
    rcases h.carried.fate e hold with ⟨accepted, hpub⟩ | hq | hd
    · exact Or.inl ⟨accepted, List.mem_append_right _ hpub⟩
    · obtain ⟨k, hk⟩ := List.getElem?_of_mem hq
      -- its place was not one of those that were passed over
      have hstay : j ≤ k := by
        by_contra hlt
        rw [hnone k (by omega)] at hk
        cases hk
      refine Or.inr (Or.inl (List.mem_of_getElem? (i := k - j) ?_))
      rw [List.getElem?_drop, Nat.add_sub_cancel' hstay]
      exact hk
    · exact Or.inr (Or.inr (List.mem_append_right _ hd))
  · rw [htrace, hnode]
    intro e he
    refine h.clock e ?_
    simpa [List.filterMap_replicate, RecordEvent.builtEntry] using he
  · intro k hk
    rw [hnode]
    show Stranger crc32Ieee c g.node.disk ((Spool.skip^[j] g.node.ram).seqAt k)
    rw [List.getElem?_drop] at hk
    have hseq : (Spool.skip^[j] g.node.ram).seqAt k = g.node.ram.seqAt (j + k) := by
      rw [Spool.seqAt, skips_headSeq, Spool.seqAt, Spool.seqAt, UInt32.ofNat_add, UInt32.add_assoc]
    rw [hseq]
    exact h.strangers (j + k) hk
  · have hledger : ledger (q.drop j) (g.peek crc32Ieee c).2.2.trace
        = { ledger q g.trace with queue := q.drop j } := by
      rw [htrace]
      simp [ledger, List.filterMap_replicate, RecordEvent.builtEntry, RecordEvent.publishedEntry,
        RecordEvent.committedEntry, RecordEvent.droppedEntry]
    rw [hledger]
    exact h.history.trans (LossyQueue.skips hj hnone)
  · intro b hb
    obtain ⟨x, q'', hq₁, hrec⟩ := hfound b hb
    have hlen : (q.drop j).length = q₁.length := by
      have h₁ := hcarried.window.count
      have h₂ := (h.carried.window.skips crc32Ieee c hj).count
      rw [hnode] at h₁
      rw [← h₁, ← h₂]
    obtain ⟨y, rest, hrest⟩ : ∃ y rest, q.drop j = y :: rest := by
      refine List.exists_cons_of_length_pos ?_
      rw [hlen, hq₁]
      exact Nat.succ_pos _
    exact ⟨y, rest, hrest, hrec⟩

/-- The record found by a peek is published and committed. -/
theorem Tracked.forward {x : Option Entry} (h : Tracked crc32Ieee c start p m (x :: q) g)
    {b : Bytes} (hb : recordAt crc32Ieee c g.node.disk g.node.ram.headSeq = some b) (t : Tick) :
    Tracked crc32Ieee c start p m q
      ((g.publish t (stampAt c g.node.disk (slotIdx c g.node.ram.headSeq), b)).commit
        crc32Ieee c) := by
  have hcarried := h.carried.forward hb t
  have hholds := h.holds
  have hentry : entryOf crc32Ieee c g.node.disk g.node.ram.headSeq
      = some (stampAt c g.node.disk (slotIdx c g.node.ram.headSeq), b) :=
    entryOf_eq_some.mpr ⟨hb, rfl⟩
  have hcommit := spoolCommit_eq c h.carried.window.ready (h.carried.window.count_pos crc32Ieee c)
  have hcap := h.carried.window.cap
  rw [hentry] at hholds
  unfold Gateway.commit Gateway.publish at hcarried ⊢
  simp only [hcommit, hentry] at hcarried ⊢
  refine ⟨hcarried, h.clock, fun k hk => ?_, h.history.tail (.take rfl hholds)⟩
  have hlt : k < q.length := (List.getElem?_eq_some_iff.mp hk).1
  -- committing changes only the slot of the head
  have hnext : g.node.ram.committed.seqAt k = g.node.ram.seqAt (k + 1) := seqAt_next rfl k
  show Stranger crc32Ieee c _ (g.node.ram.committed.seqAt k)
  rw [hnext]
  intro e he
  rw [List.length_cons] at hcap
  have hne : g.node.ram.headSeq ≠ g.node.ram.seqAt (k + 1) := by
    rw [← seqAt_zero]
    exact (seqAt_ne c _ (by omega) (by omega)).symm
  rw [entryOf_blanked_held hne (entryOf_eq_some.mp hentry)] at he
  exact h.strangers (k + 1) hk e he

end Step

/-! ## What the rounds preserve -/

variable (crc32Ieee c) in
/-- `P` does not depend on the other variables of the loop, and is preserved when a record is
offered. -/
structure OfferInv (connected : Bool) (P : Gateway → Prop) : Prop where
  congr : ∀ {g g' : Gateway}, P g → g'.node = g.node → g'.trace = g.trace →
    g'.spoolOk = g.spoolOk → P g'
  offer : ∀ {g : Gateway} (t : Tick) (json : Bytes), P g →
    P (g.offer crc32Ieee c t connected json)

variable (crc32Ieee c) in
/-- `P` is also preserved by what the drain does. -/
structure LoopInv (P : Gateway → Prop) : Prop where
  offers : ∀ connected, OfferInv crc32Ieee c connected P
  peek : ∀ {g : Gateway}, P g → P (g.peek crc32Ieee c).2.2
  forward : ∀ {g g' : Gateway} (t : Tick) {n : Int} {b : Bytes}, P g →
    g.peek crc32Ieee c = (n, some b, g') →
    P ((g'.publish t (stampAt c g'.node.disk (slotIdx c g'.node.ram.headSeq), b)).commit
      crc32Ieee c)

section LoopInv

variable {P : Gateway → Prop} {connected : Bool} {g : Gateway}

theorem OfferInv.ingestLine (hP : OfferInv crc32Ieee c connected P) (t : Tick) (link : ℕ)
    (h : P g) (line : Bytes) : P (ingestLine crc32Ieee c t connected link g line) := by
  unfold IotcDemos.ingestLine
  cases t.buildChildRecord g.node.disk.clock link line with
  | none => exact h
  | some json =>
      have hoffer := hP.offer t json h
      cases connected with
      | true => exact hP.congr hoffer rfl rfl rfl
      | false => exact hoffer

theorem OfferInv.ingestChildren (hP : OfferInv crc32Ieee c connected P) (t : Tick) (h : P g) :
    P (ingestChildren crc32Ieee c t connected g) := by
  refine List.foldlRecOn _ _ h fun g hg link _ => ?_
  exact List.foldlRecOn _ _ hg fun g hg line _ => hP.ingestLine t link hg line

theorem OfferInv.publishOrSpoolGateway (hP : OfferInv crc32Ieee c connected P) (t : Tick)
    (h : P g) : P (publishOrSpoolGateway crc32Ieee c t connected g) := by
  unfold IotcDemos.publishOrSpoolGateway
  cases t.buildGatewayRecord connected (spoolGetStats g.node) with
  | none => exact h
  | some json => exact hP.offer t json h

theorem OfferInv.publishWhenDue (hP : OfferInv crc32Ieee c connected P) (t : Tick) (h : P g) :
    P (publishWhenDue crc32Ieee c t connected g) := by
  unfold IotcDemos.publishWhenDue
  split
  · exact hP.congr (hP.publishOrSpoolGateway t h) rfl rfl rfl
  · exact h

theorem OfferInv.reconnect (hP : OfferInv crc32Ieee c connected P) (t : Tick) (h : P g) :
    P (reconnect t g).2 := by
  unfold IotcDemos.reconnect
  dsimp only
  split
  · exact hP.congr h rfl rfl rfl
  · exact hP.congr h rfl rfl rfl

theorem LoopInv.drainLoop (hP : LoopInv crc32Ieee c P) (t : Tick) (i : ℕ) (h : P g) :
    P (drainLoop crc32Ieee c t i g) := by
  induction i generalizing g with
  | zero => exact h
  | succ i ih =>
      have hstop := hP.peek h
      unfold IotcDemos.drainLoop
      -- a peek that finds nothing, or an empty record, ends the loop
      rcases hpeek : g.peek crc32Ieee c with ⟨n, _ | b, g'⟩
      · rw [hpeek] at hstop
        exact hstop
      · rw [hpeek] at hstop
        by_cases hn : n ≤ 0
        · simpa only [hn, if_true] using hstop
        · simpa only [hn, if_false] using ih (hP.forward t h hpeek)

theorem LoopInv.round (hP : LoopInv crc32Ieee c P) (t : Tick) (h : P g) :
    P (round crc32Ieee c t g) := by
  have hoffers := hP.offers (IotcDemos.reconnect t g).1
  have hlive := hoffers.publishWhenDue t (hoffers.ingestChildren t (hoffers.reconnect t h))
  unfold IotcDemos.round
  dsimp only
  split
  · exact hP.drainLoop t drainPerTick hlive
  · exact hlive

/-- **A run of the main loop.** -/
theorem LoopInv.run (hP : LoopInv crc32Ieee c P) (ticks : List Tick) (h : P g) :
    P (runState (mainStep crc32Ieee c) ticks g) :=
  run_inv (P := P) (fun t _ _ hg => hP.round t hg) h

end LoopInv

/-! ## The run -/

/-- The records of a window that were built, and its unknown places. -/
theorem entriesFrom_built {d : Disk} {q : List (Option Entry)} {seq : UInt32}
    (hheld : ∀ k e, q[k]? = some (some e) → Held crc32Ieee c d (seq + UInt32.ofNat k) e)
    (hstrangers : ∀ k, q[k]? = some none → Stranger crc32Ieee c d (seq + UInt32.ofNat k))
    (hknown : ∀ e, some e ∈ q → 0 < e.1) :
    (entriesFrom crc32Ieee c d q.length seq).filter (0 < ·.1) = q.reduceOption := by
  induction q generalizing seq with
  | nil => rfl
  | cons x q ih =>
      have hrest : (entriesFrom crc32Ieee c d q.length (seq + 1)).filter (0 < ·.1)
          = q.reduceOption := by
        refine ih ?_ ?_ ?_
        · intro k e hk
          rw [← add_ofNat_succ]
          exact hheld (k + 1) e hk
        · intro k hk
          rw [← add_ofNat_succ]
          exact hstrangers (k + 1) hk
        · exact fun e he => hknown e (List.mem_cons_of_mem x he)
      rw [List.length_cons, entriesFrom, List.filter_append, hrest]
      cases x with
      | some e =>
          have hentry := entryOf_eq_some.mpr (hheld 0 e rfl)
          have hpos := hknown e List.mem_cons_self
          rw [add_ofNat_zero] at hentry
          rw [hentry, List.reduceOption_cons_of_some]
          simp [hpos]
      | none =>
          have hstranger := hstrangers 0 rfl
          rw [add_ofNat_zero] at hstranger
          rw [List.reduceOption_cons_of_none]
          cases hentry : entryOf crc32Ieee c d seq with
          -- the place is empty, or holds a record with the number 0
          | none => rfl
          | some e => simp [hstranger e hentry]

/-- The spool's records that were built are those of the queue. -/
theorem Tracked.queued {start p m : ℕ} {q : List (Option Entry)} {g : Gateway}
    (h : Tracked crc32Ieee c start p m q g) :
    (queued crc32Ieee c g.node).filter (0 < ·.1) = q.reduceOption := by
  rw [IotcDemos.queued, h.carried.window.count]
  exact entriesFrom_built h.carried.window.held h.strangers (LossyQueue.sound_run h.history).known

end Fates

end IotcDemos
