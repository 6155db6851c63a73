import IotcDemos.Gateway.Main

set_option autoImplicit false

/-! # What the main loop loses

`publish_raw` does not look at what the client returns, so a record whose publish fails is gone,
and a spooled one is committed all the same. That is the only way: `Carried` says that in every
run each record built was handed to a publish, or is in the spool's window, or was counted in
`drops`. Where every publish is accepted, nothing is lost (`every_record_accounted`).
-/

namespace IotcDemos

/-- Every committed record was handed to a publish before. -/
def Justified (trace : List RecordEvent) : Prop :=
  ∀ later e earlier, trace = later ++ .committed (some e) :: earlier →
    ∃ accepted, .publish e accepted ∈ earlier

theorem Justified.cons {trace : List RecordEvent} (h : Justified trace) {x : RecordEvent}
    (hx : ∀ e, x = .committed (some e) → ∃ accepted, .publish e accepted ∈ trace) :
    Justified (x :: trace) := by
  intro later e earlier heq
  cases later with
  | nil =>
      obtain ⟨rfl, rfl⟩ := List.cons.inj heq
      exact hx e rfl
  | cons y later =>
      obtain ⟨rfl, hrest⟩ := List.cons.inj heq
      exact h later e earlier hrest

/-- Drops commit nothing. -/
theorem Justified.drops {trace evs : List RecordEvent} (h : Justified trace)
    (hevs : ∀ x ∈ evs, x.isDropped = true) : Justified (evs ++ trace) := by
  induction evs with
  | nil => exact h
  | cons x evs ih =>
      refine (ih fun y hy => hevs y (List.mem_cons_of_mem x hy)).cons ?_
      rintro e rfl
      have hdrop := hevs _ List.mem_cons_self
      cases hdrop

section Delivery

variable (crc32Ieee : Bytes → UInt32) (c : SpoolConfig)

/-- The sequence numbers have room for the records built: `NSLOTS` divides `2 ^ 32`, or they do
not wrap. Where they wrap and `NSLOTS` does not divide, two numbers of a window can share a slot.
Only a record that is pushed takes a number; those built are an upper bound of them. -/
def Room (start : ℕ) (trace : List RecordEvent) : Prop :=
  c.nslots ∣ 2 ^ 32 ∨ start + trace.countP RecordEvent.isBuilt ≤ 2 ^ 32

/-- Every record built is accounted for, or its publish failed. The window holds `q`; `p` records
were pushed since the program started with the tail at `start`. -/
structure Carried (start p : ℕ) (q : List (Option Entry)) (g : Gateway) : Prop where
  spoolOk : g.spoolOk = true
  window : Window crc32Ieee c g.node q
  place : g.node.ram.tailSeq.toNat = (start + p) % 2 ^ 32
  recent : ∀ k e, q[k]? = some (some e) → q.length ≤ k + p
  few : p ≤ g.trace.countP RecordEvent.isBuilt
  fate : ∀ e, .built e ∈ g.trace → (∃ accepted, .publish e accepted ∈ g.trace) ∨ some e ∈ q ∨
    .dropped (some e) ∈ g.trace
  drops : g.node.ram.stats.drops = UInt32.ofNat (g.trace.countP RecordEvent.isDropped)
  justified : Justified g.trace

variable {crc32Ieee c}

theorem Room.of_append {start : ℕ} (evs : List RecordEvent) {trace : List RecordEvent}
    (h : Room c start (evs ++ trace)) : Room c start trace := by
  refine h.imp_right fun hle => ?_
  rw [List.countP_append] at hle
  omega

theorem Window.tick {n : Node Disk} {q : List (Option Entry)} (h : Window crc32Ieee c n q) :
    Window crc32Ieee c { n with disk := n.disk.tick } q :=
  ⟨h.ready, h.count, h.tail, h.cap, h.stats, h.held⟩

/-- The entry at the front of the window is the record in its slot. -/
theorem Window.front {n : Node Disk} {e : Entry} {q : List (Option Entry)}
    (h : Window crc32Ieee c n (some e :: q)) : Held crc32Ieee c n.disk n.ram.headSeq e := by
  rw [← seqAt_zero]
  exact h.held 0 e rfl

section Step

variable {start p : ℕ} {q : List (Option Entry)} {g : Gateway}

/-- What the loop does to its other variables does not matter. -/
theorem Carried.congr {g' : Gateway} (h : Carried crc32Ieee c start p q g)
    (hnode : g'.node = g.node) (htrace : g'.trace = g.trace) (hok : g'.spoolOk = g.spoolOk) :
    Carried crc32Ieee c start p q g' := by
  obtain ⟨node, spoolOk, fwdTotal, wasConnected, lastPub, lastReconnect, calls, trace⟩ := g'
  dsimp only at hnode htrace hok
  subst hnode htrace hok
  exact ⟨h.spoolOk, h.window, h.place, h.recent, h.few, h.fate, h.drops, h.justified⟩

/-- The tail's slot is free of the records that stay. -/
theorem Carried.tailFree (h : Carried crc32Ieee c start p q g)
    (hroom : c.nslots ∣ 2 ^ 32 ∨ start + p < 2 ^ 32) :
    ∀ k e, q[k]? = some (some e) → q.length - c.nslots < k + 1 → q.length < k + c.nslots →
      slotIdx c (g.node.ram.seqAt k) ≠ slotIdx c g.node.ram.tailSeq := by
  intro k e hk _ hlt
  have hlen : k < q.length := (List.getElem?_eq_some_iff.mp hk).1
  have htail := h.window.tail
  rcases hroom with hdvd | hlow
  · rw [htail]
    exact slotIdx_ne_of_dvd c hdvd hlen hlt
  · -- the records pushed lie between the start and the tail, without a wrap
    have hrecent := h.recent k e hk
    have hplace := h.place
    have hcap := h.window.cap
    have hn := nslots_lt c
    rw [Nat.mod_eq_of_lt hlow] at hplace
    have hk' : (g.node.ram.seqAt k).toNat + (q.length - k) = g.node.ram.tailSeq.toNat := by
      rw [htail, Spool.seqAt, Spool.seqAt, add_ofNat_toNat, add_ofNat_toNat] at *
      omega
    exact slotIdx_ne_of_near c (by omega) (by omega)

/-- A record is built and published. -/
theorem Carried.offer_live (h : Carried crc32Ieee c start p q g) (t : Tick) (json : Bytes) :
    Carried crc32Ieee c start p q (g.offer crc32Ieee c t true json) := by
  constructor
  · exact h.spoolOk
  · exact h.window.tick
  · exact h.place
  · exact h.recent
  · have := h.few
    show p ≤ List.countP _ (_ :: _ :: g.trace)
    simp only [List.countP_cons, RecordEvent.isBuilt]
    omega
  · intro e he
    change RecordEvent.built e ∈ RecordEvent.publish _ _ :: RecordEvent.built _ :: g.trace at he
    show (∃ accepted, RecordEvent.publish e accepted ∈
      RecordEvent.publish _ _ :: RecordEvent.built _ :: g.trace) ∨ _ ∨
        RecordEvent.dropped (some e) ∈ RecordEvent.publish _ _ :: RecordEvent.built _ :: g.trace
    simp only [List.mem_cons, reduceCtorEq, false_or, RecordEvent.built.injEq] at he ⊢
    rcases he with rfl | he
    · exact Or.inl ⟨_, Or.inl rfl⟩
    · exact (h.fate e he).imp_left fun ⟨accepted, hp⟩ => ⟨accepted, Or.inr hp⟩
  · show g.node.ram.stats.drops = UInt32.ofNat (List.countP _ (_ :: _ :: g.trace))
    simp only [List.countP_cons, RecordEvent.isDropped]
    exact h.drops
  · exact (h.justified.cons (by simp)).cons (by simp)

/-- A record too long for a slot is built and counted in `drops`. -/
theorem Carried.offer_long (h : Carried crc32Ieee c start p q g) (t : Tick) {json : Bytes}
    (hj : spoolPayloadMax < json.length) :
    Carried crc32Ieee c start p q (g.offer crc32Ieee c t false json) := by
  have hoffer : g.offer crc32Ieee c t false json = { g with
      node := ⟨g.node.disk.tick, { g.node.ram with
        stats := { g.node.ram.stats with drops := g.node.ram.stats.drops + 1 } }⟩
      trace := .dropped (some (g.node.disk.tick.clock, json))
        :: .built (g.node.disk.tick.clock, json) :: g.trace } := by
    have hpush : spoolPush Disk.reliable crc32Ieee c json ⟨g.node.disk.tick, g.node.ram⟩
        = (-EMSGSIZE, ⟨g.node.disk.tick, { g.node.ram with
          stats := { g.node.ram.stats with drops := g.node.ram.stats.drops + 1 } }⟩) :=
      spoolPush_long h.window.ready hj
    simp only [Gateway.offer, Gateway.build, Gateway.push, pushDrops, h.spoolOk, hpush, if_pos hj,
      if_true, Bool.false_eq_true, if_false, List.singleton_append]
  have hfew := h.few
  rw [hoffer]
  constructor
  · exact h.spoolOk
  · exact ⟨h.window.ready, h.window.count, h.window.tail, h.window.cap, h.window.stats,
      h.window.held⟩
  · exact h.place
  · exact h.recent
  · simp only [List.countP_cons, RecordEvent.isBuilt]
    omega
  · intro e he
    simp only [List.mem_cons, reduceCtorEq, false_or, RecordEvent.built.injEq,
      RecordEvent.dropped.injEq, Option.some.injEq] at he ⊢
    rcases he with rfl | he
    · exact Or.inr (Or.inr (Or.inl rfl))
    · exact (h.fate e he).imp_right (Or.imp_right Or.inr)
  · simp only [List.countP_cons, RecordEvent.isDropped, if_true, Bool.false_eq_true, if_false,
      Nat.add_zero]
    rw [ofNat_succ32, h.drops]
  · exact (h.justified.cons (by simp)).cons (by simp)

/-- The records of a window stay recent when one is pushed. -/
theorem recent_push {x : Option Entry}
    (h : ∀ k e, q[k]? = some (some e) → q.length ≤ k + p) :
    ∀ k e, (Fifo.push c.nslots x q)[k]? = some (some e) →
      (Fifo.push c.nslots x q).length ≤ k + (p + 1) := by
  intro k e hk
  rcases Fifo.getElem?_push hk with hlast | hold
  · omega
  · rw [Fifo.length_push c.pos]
    by_cases hfull : q.length = c.nslots
    · rw [if_pos hfull] at hold ⊢
      have := h (k + 1) e hold
      omega
    · rw [if_neg hfull] at hold ⊢
      have := h k e hold
      omega

/-- A record is built and spooled; the oldest of a full ring is counted in `drops`. -/
theorem Carried.offer_spooled (h : Carried crc32Ieee c start p q g) (t : Tick) {json : Bytes}
    (hj : json.length ≤ spoolPayloadMax) (hroom : c.nslots ∣ 2 ^ 32 ∨ start + p < 2 ^ 32) :
    Carried crc32Ieee c start (p + 1)
      (Fifo.push c.nslots (some (g.node.disk.tick.clock, json)) q)
      (g.offer crc32Ieee c t false json) := by
  have hwindow := h.window.tick.push crc32Ieee c hj (h.tailFree hroom)
  have hpush := spoolPush_eq crc32Ieee c (n := ⟨g.node.disk.tick, g.node.ram⟩) h.window.ready hj
  have hcount : g.node.ram.recCount.toNat = q.length := h.window.count
  have hoffer : g.offer crc32Ieee c t false json = { g with
      node := ⟨pushed crc32Ieee c g.node.ram.tailSeq json g.node.disk.tick,
        (g.node.ram.makeRoom c).appended⟩
      trace := (if g.node.ram.recCount.toNat = c.nslots then
          [.dropped (entryOf crc32Ieee c g.node.disk.tick g.node.ram.headSeq)] else [])
        ++ .built (g.node.disk.tick.clock, json) :: g.trace } := by
    simp only [Gateway.offer, Gateway.build, Gateway.push, pushDrops, h.spoolOk, hpush,
      if_neg (Nat.not_lt.mpr hj), gt_iff_lt, if_true, Bool.false_eq_true, if_false]
  rw [hpush] at hwindow
  have hfew := h.few
  rw [hoffer]
  constructor
  · exact h.spoolOk
  · exact hwindow
  · show (g.node.ram.makeRoom c).appended.tailSeq.toNat = _
    have hplace := h.place
    have htail : (g.node.ram.makeRoom c).appended.tailSeq = g.node.ram.tailSeq + 1 := by
      show (g.node.ram.makeRoom c).tailSeq + 1 = _
      rw [makeRoom_tailSeq]
    rw [htail, UInt32.toNat_add, UInt32.toNat_one, hplace]
    omega
  · exact recent_push h.recent
  · simp only [List.countP_append, List.countP_cons, RecordEvent.isBuilt, if_true]
    omega
  · intro e he
    dsimp only at he ⊢
    have hbuilt : e = (g.node.disk.tick.clock, json) ∨ .built e ∈ g.trace := by
      split at he <;> simpa using he
    rcases hbuilt with rfl | hold
    · exact Or.inr (Or.inl (List.mem_append_right _ (List.mem_singleton.mpr rfl)))
    · rcases h.fate e hold with ⟨accepted, hp⟩ | hq | hd
      · exact Or.inl ⟨accepted, List.mem_append_right _ (List.mem_cons_of_mem _ hp)⟩
      · -- a queued record stays, unless it is the oldest of a full ring
        by_cases hfull : q.length = c.nslots
        · cases q with
          | nil => cases hq
          | cons x q =>
              rcases List.mem_cons.mp hq with rfl | hq
              · right; right
                rw [if_pos (by rw [hcount, hfull]), entryOf_eq_some.mpr h.window.tick.front]
                exact List.mem_append_left _ (List.mem_singleton.mpr rfl)
              · right; left
                rw [Fifo.push, if_pos hfull]
                exact List.mem_append_left _ hq
        · right; left
          rw [Fifo.push, if_neg hfull]
          exact List.mem_append_left _ hq
      · exact Or.inr (Or.inr (List.mem_append_right _ (List.mem_cons_of_mem _ hd)))
  · show (g.node.ram.makeRoom c).stats.drops = _
    rw [List.countP_append, List.countP_cons]
    by_cases hfull : g.node.ram.recCount.toNat = c.nslots
    · rw [Spool.makeRoom, if_pos hfull, if_pos hfull]
      show g.node.ram.stats.drops + 1 = _
      rw [h.drops, ← ofNat_succ32]
      congr 1
      simp [RecordEvent.isDropped]
      omega
    · rw [Spool.makeRoom, if_neg hfull, if_neg hfull, h.drops]
      simp [RecordEvent.isDropped]
  · refine (h.justified.cons (by simp)).drops ?_
    intro x hx
    split at hx
    · rw [List.mem_singleton.mp hx]
      rfl
    · cases hx

/-- A peek passes over slots without a record, and stops in front of one. -/
theorem Carried.peek (h : Carried crc32Ieee c start p q g) :
    ∃ q', Carried crc32Ieee c start p q' (g.peek crc32Ieee c).2.2 ∧
      ∀ b, (g.peek crc32Ieee c).2.1 = some b → ∃ x q'', q' = x :: q'' ∧
        recordAt crc32Ieee c (g.peek crc32Ieee c).2.2.node.disk
          (g.peek crc32Ieee c).2.2.node.ram.headSeq = some b := by
  obtain ⟨j, hp⟩ := spoolPeek_spec crc32Ieee c (spoolPayloadMax + 1) h.window.ready
  have hcount := h.window.count
  obtain ⟨m, hm⟩ := Nat.exists_eq_add_of_le (hp.le crc32Ieee c)
  have hpeek : g.peek crc32Ieee c
      = ((spoolPeek Disk.reliable crc32Ieee c (spoolPayloadMax + 1) g.node).1,
        (spoolPeek Disk.reliable crc32Ieee c (spoolPayloadMax + 1) g.node).2.1,
        { g with
          node := ⟨g.node.disk, Spool.skip^[j] g.node.ram⟩
          trace := ((List.range j).map fun k => .dropped
            (entryOf crc32Ieee c g.node.disk (g.node.ram.seqAt k))).reverse ++ g.trace }) := by
    have hleft : g.node.ram.recCount.toNat - m = j := by omega
    unfold Gateway.peek peekDrops
    simp only [hp.node, skips_recCount hm, hleft]
  have hdropped : ∀ x ∈ ((List.range j).map fun k => RecordEvent.dropped
      (entryOf crc32Ieee c g.node.disk (g.node.ram.seqAt k))).reverse, x.isDropped = true := by
    intro x hx
    obtain ⟨k, -, rfl⟩ := List.mem_map.mp (List.mem_reverse.mp hx)
    rfl
  rw [hpeek]
  refine ⟨q.drop j, ?_, ?_⟩
  · constructor
    · exact h.spoolOk
    · exact h.window.skips crc32Ieee c (by omega)
    · show (Spool.skip^[j] g.node.ram).tailSeq.toNat = _
      rw [skips_tailSeq]
      exact h.place
    · intro k e hk
      rw [List.getElem?_drop] at hk
      have := h.recent (j + k) e hk
      rw [List.length_drop]
      omega
    · have hfew := h.few
      dsimp only
      rw [List.countP_append]
      omega
    · intro e he
      dsimp only at he ⊢
      have hold : .built e ∈ g.trace := by
        rcases List.mem_append.mp he with he | he
        · cases hdropped _ he
        · exact he
      rcases h.fate e hold with ⟨accepted, hpub⟩ | hq | hd
      · exact Or.inl ⟨accepted, List.mem_append_right _ hpub⟩
      · -- what the window holds is a record, and not passed over
        obtain ⟨k, hk⟩ := List.getElem?_of_mem hq
        have hstay : j ≤ k := by
          by_contra hlt
          have hrec := (h.window.held k e hk).1
          rw [hp.skips_rejected (Nat.lt_succ_self _) (Nat.lt_of_not_le hlt)] at hrec
          cases hrec
        refine Or.inr (Or.inl (List.mem_of_getElem? (i := k - j) ?_))
        rw [List.getElem?_drop, Nat.add_sub_cancel' hstay]
        exact hk
      · exact Or.inr (Or.inr (List.mem_append_right _ hd))
    · show (Spool.skip^[j] g.node.ram).stats.drops = _
      have hall : (((List.range j).map fun k => RecordEvent.dropped
          (entryOf crc32Ieee c g.node.disk (g.node.ram.seqAt k))).reverse).countP
            RecordEvent.isDropped = j := by
        rw [List.countP_eq_length.mpr hdropped, List.length_reverse, List.length_map,
          List.length_range]
      rw [skips_drops, h.drops, List.countP_append, hall, UInt32.add_comm, ← UInt32.ofNat_add]
    · exact h.justified.drops hdropped
  · intro b hb
    dsimp only at hb ⊢
    rcases hp.found with ⟨-, hnone, -⟩ | ⟨b', -, hsome, hlt, -, hrec⟩
    · rw [hnone] at hb
      cases hb
    · rw [hsome] at hb
      obtain rfl := Option.some.inj hb
      have hlt' : j < q.length := by omega
      refine ⟨q[j], q.drop (j + 1), List.drop_eq_getElem_cons hlt', ?_⟩
      rw [skips_headSeq]
      exact hrec

/-- The record found by a peek is published and committed. -/
theorem Carried.forward {x : Option Entry} (h : Carried crc32Ieee c start p (x :: q) g) {b : Bytes}
    (hb : recordAt crc32Ieee c g.node.disk g.node.ram.headSeq = some b) (t : Tick) :
    Carried crc32Ieee c start p q
      ((g.publish t (stampAt c g.node.disk (slotIdx c g.node.ram.headSeq), b)).commit
        crc32Ieee c) := by
  have hentry : entryOf crc32Ieee c g.node.disk g.node.ram.headSeq
      = some (stampAt c g.node.disk (slotIdx c g.node.ram.headSeq), b) :=
    entryOf_eq_some.mpr ⟨hb, rfl⟩
  have hpos : 0 < g.node.ram.recCount := h.window.count_pos crc32Ieee c
  have hcommit := spoolCommit_eq c h.window.ready hpos
  have hwindow := h.window.commit crc32Ieee c hb
  generalize (stampAt c g.node.disk (slotIdx c g.node.ram.headSeq), b) = e0 at hentry ⊢
  have hfront : ∀ e, some e = x → e = e0 := by
    rintro e rfl
    have := entryOf_eq_some.mpr h.window.front
    rw [hentry] at this
    exact (Option.some.inj this).symm
  unfold Gateway.commit Gateway.publish
  simp only [hcommit, hentry]
  constructor
  · exact h.spoolOk
  · exact hwindow
  · exact h.place
  · intro k e hk
    have := h.recent (k + 1) e hk
    rw [List.length_cons] at this
    omega
  · exact h.few
  · intro e he
    simp only [List.mem_cons, reduceCtorEq, false_or, RecordEvent.publish.injEq] at he ⊢
    rcases h.fate e he with ⟨accepted, hpub⟩ | hq | hd
    · exact Or.inl ⟨accepted, Or.inr hpub⟩
    · rcases List.mem_cons.mp hq with hx | hq
      · exact Or.inl ⟨_, Or.inl ⟨hfront e hx, rfl⟩⟩
      · exact Or.inr (Or.inl hq)
    · exact Or.inr (Or.inr hd)
  · exact h.drops
  · refine (h.justified.cons (by simp)).cons ?_
    intro e he
    obtain rfl : e0 = e := by simpa using he
    exact ⟨_, List.mem_cons_self⟩

end Step

/-! ## The run -/

variable (crc32Ieee c) in
/-- As long as the sequence numbers have room, the records are carried. -/
def Safe (start : ℕ) (g : Gateway) : Prop :=
  Room c start g.trace → ∃ p q, Carried crc32Ieee c start p q g

section Run

variable {start : ℕ} {g : Gateway}

theorem Safe.congr {g' : Gateway} (h : Safe crc32Ieee c start g) (hnode : g'.node = g.node)
    (htrace : g'.trace = g.trace) (hok : g'.spoolOk = g.spoolOk) : Safe crc32Ieee c start g' := by
  intro hroom
  rw [htrace] at hroom
  obtain ⟨p, q, hc⟩ := h hroom
  exact ⟨p, q, hc.congr hnode htrace hok⟩

/-- The trace of an offer begins with the record built. -/
theorem offer_trace (crc32Ieee : Bytes → UInt32) (c : SpoolConfig) (g : Gateway) (t : Tick)
    (connected : Bool) (json : Bytes) :
    ∃ evs, (g.offer crc32Ieee c t connected json).trace
      = evs ++ .built (g.node.disk.tick.clock, json) :: g.trace := by
  unfold Gateway.offer
  cases connected with
  | true => exact ⟨[_], rfl⟩
  | false =>
      simp only [Bool.false_eq_true, if_false]
      split
      · exact ⟨pushDrops crc32Ieee c _ _, rfl⟩
      · exact ⟨[], rfl⟩

theorem Safe.offer (h : Safe crc32Ieee c start g) (t : Tick) (connected : Bool) (json : Bytes) :
    Safe crc32Ieee c start (g.offer crc32Ieee c t connected json) := by
  intro hroom
  obtain ⟨evs, htrace⟩ := offer_trace crc32Ieee c g t connected json
  rw [htrace] at hroom
  have hbuilt := hroom.of_append evs
  obtain ⟨p, q, hc⟩ := h (hbuilt.of_append [_])
  cases connected with
  | true => exact ⟨p, q, hc.offer_live t json⟩
  | false =>
      -- a record that fits a slot is pushed, another one is counted
      by_cases hj : json.length ≤ spoolPayloadMax
      · have hnext : c.nslots ∣ 2 ^ 32 ∨ start + p < 2 ^ 32 := by
          refine hbuilt.imp_right fun hle => ?_
          have hfew := hc.few
          simp only [List.countP_cons, RecordEvent.isBuilt, if_true] at hle
          omega
        exact ⟨p + 1, _, hc.offer_spooled t hj hnext⟩
      · exact ⟨p, q, hc.offer_long t (Nat.lt_of_not_le hj)⟩

theorem Safe.ingestLine (h : Safe crc32Ieee c start g) (t : Tick) (connected : Bool) (link : ℕ)
    (line : Bytes) : Safe crc32Ieee c start (ingestLine crc32Ieee c t connected link g line) := by
  unfold IotcDemos.ingestLine
  cases t.buildChildRecord g.node.disk.clock link line with
  | none => exact h
  | some json =>
      have hoffer := h.offer t connected json
      cases connected with
      | true => exact hoffer.congr rfl rfl rfl
      | false => exact hoffer

theorem Safe.ingestChildren (h : Safe crc32Ieee c start g) (t : Tick) (connected : Bool) :
    Safe crc32Ieee c start (ingestChildren crc32Ieee c t connected g) := by
  refine List.foldlRecOn _ _ h fun g hg link _ => ?_
  exact List.foldlRecOn _ _ hg fun g hg line _ => hg.ingestLine t connected link line

theorem Safe.publishOrSpoolGateway (h : Safe crc32Ieee c start g) (t : Tick) (connected : Bool) :
    Safe crc32Ieee c start (publishOrSpoolGateway crc32Ieee c t connected g) := by
  unfold IotcDemos.publishOrSpoolGateway
  cases t.buildGatewayRecord connected (spoolGetStats g.node) with
  | none => exact h
  | some json => exact h.offer t connected json

/-- The trace of a peek begins with what it dropped. -/
theorem Safe.peek (h : Safe crc32Ieee c start g) :
    Safe crc32Ieee c start (g.peek crc32Ieee c).2.2 := by
  intro hroom
  obtain ⟨p, q, hc⟩ := h (hroom.of_append _)
  obtain ⟨q', hc', -⟩ := hc.peek
  exact ⟨p, q', hc'⟩

theorem Safe.forward (h : Safe crc32Ieee c start g) (t : Tick) {n : Int} {b : Bytes}
    {g' : Gateway} (hpeek : g.peek crc32Ieee c = (n, some b, g')) :
    Safe crc32Ieee c start ((g'.publish t
      (stampAt c g'.node.disk (slotIdx c g'.node.ram.headSeq), b)).commit crc32Ieee c) := by
  intro hroom
  have hafter : Room c start g'.trace := hroom.of_append [_, _]
  have htrace : g'.trace = peekDrops crc32Ieee c g.node g'.node ++ g.trace := by
    have hg' : (g.peek crc32Ieee c).2.2 = g' := by rw [hpeek]
    rw [← hg']
    rfl
  rw [htrace] at hafter
  obtain ⟨p, q, hc⟩ := h (hafter.of_append _)
  obtain ⟨q', hc', hfound⟩ := hc.peek
  rw [hpeek] at hc' hfound
  obtain ⟨x, q'', rfl, hrec⟩ := hfound b rfl
  exact ⟨p, q'', hc'.forward hrec t⟩

theorem Safe.drainLoop (h : Safe crc32Ieee c start g) (t : Tick) (i : ℕ) :
    Safe crc32Ieee c start (drainLoop crc32Ieee c t i g) := by
  induction i generalizing g with
  | zero => exact h
  | succ i ih =>
      have hstop := h.peek
      unfold IotcDemos.drainLoop
      rcases hpeek : g.peek crc32Ieee c with ⟨n, _ | b, g'⟩
      · rw [hpeek] at hstop
        exact hstop
      · rw [hpeek] at hstop
        -- an empty record would end the drain too
        by_cases hn : n ≤ 0
        · simpa only [hn, if_true] using hstop
        · simpa only [hn, if_false] using ih (h.forward t hpeek)

theorem Safe.publishWhenDue (h : Safe crc32Ieee c start g) (t : Tick) (connected : Bool) :
    Safe crc32Ieee c start (publishWhenDue crc32Ieee c t connected g) := by
  unfold IotcDemos.publishWhenDue
  split
  · exact (h.publishOrSpoolGateway t connected).congr rfl rfl rfl
  · exact h

theorem Safe.reconnect (h : Safe crc32Ieee c start g) (t : Tick) :
    Safe crc32Ieee c start (reconnect t g).2 := by
  unfold IotcDemos.reconnect
  dsimp only
  split
  · exact h.congr rfl rfl rfl
  · exact h.congr rfl rfl rfl

/-- **One round.** -/
theorem Safe.round (h : Safe crc32Ieee c start g) (t : Tick) :
    Safe crc32Ieee c start (round crc32Ieee c t g) := by
  have hlive := ((h.reconnect t).ingestChildren t (IotcDemos.reconnect t g).1).publishWhenDue t
    (IotcDemos.reconnect t g).1
  unfold IotcDemos.round
  dsimp only
  split
  · exact hlive.drainLoop t drainPerTick
  · exact hlive

/-! ## The start -/

/-- The window `spool_init` recovers from an arbitrary disk: nothing is known of its records. -/
theorem window_recovered (crc32Ieee : Bytes → UInt32) (c : SpoolConfig) (d : Disk) :
    ∃ m, Window crc32Ieee c ⟨d, Spool.off.recover c (scanAll c d)⟩ (List.replicate m none) := by
  have hnone : ∀ (m : ℕ) (n : Node Disk) (k : ℕ) (e : Entry),
      (List.replicate m (none : Option Entry))[k]? = some (some e) →
        Held crc32Ieee c n.disk (n.ram.seqAt k) e := by
    intro m n k e hk
    rw [List.getElem?_replicate] at hk
    split at hk <;> simp at hk
  rcases counts_or_none c d with hany | hempty
  · obtain ⟨hvalid, hbounds, -, imin, himin, hcmin, hmin⟩ := scanAll_spec c hany
    have hminmax := UInt32.le_iff_toNat_le.mp (hbounds imin himin hcmin).2
    have hclamp := clampedHead_toNat c (scanAll c d)
    have hpos := c.pos
    have hn := nslots_lt c
    rw [hmin] at hminmax
    rw [recover_of_valid c Spool.off hvalid]
    refine ⟨((scanAll c d).maxSeq + 1 - clampedHead c (scanAll c d)).toNat, rfl, ?_, ?_, ?_, rfl,
      hnone _ _⟩
    · rw [List.length_replicate]
    · rw [List.length_replicate, Spool.seqAt, UInt32.ofNat_toNat]
      show (scanAll c d).maxSeq + 1 = clampedHead c (scanAll c d)
        + ((scanAll c d).maxSeq + 1 - clampedHead c (scanAll c d))
      grind
    · have hmax := (scanAll c d).maxSeq.toNat_lt
      rw [List.length_replicate, UInt32.toNat_sub, UInt32.toNat_add, UInt32.toNat_one]
      omega
  · rw [recover_empty c _ hempty]
    exact ⟨0, rfl, rfl, rfl, Nat.zero_le _, rfl, hnone _ _⟩

theorem safe_start (image : ℕ → Sector) :
    Safe crc32Ieee c (mainStart c image).node.ram.tailSeq.toNat (mainStart c image) := by
  intro _
  obtain ⟨m, hm⟩ := window_recovered crc32Ieee c (Disk.holding image)
  have hstart : mainStart c image = ⟨⟨Disk.holding image,
      Spool.off.recover c (scanAll c (Disk.holding image))⟩, true, 0, false, 0, 0, 0, []⟩ := by
    rw [mainStart, spoolInit_eq]
    rfl
  have hdrops : (Spool.off.recover c (scanAll c (Disk.holding image))).stats.drops = 0 := rfl
  rw [hstart]
  refine ⟨0, List.replicate m none, rfl, hm, ?_, ?_, Nat.zero_le _, by simp, hdrops, ?_⟩
  · exact (Nat.mod_eq_of_lt (UInt32.toNat_lt _)).symm
  · intro k e hk
    rw [List.getElem?_replicate] at hk
    split at hk <;> simp at hk
  · intro later e earlier heq
    simp at heq

end Run

/-- **No record is lost where every publish is accepted.** On whatever the disk holds at first,
after any rounds in which no publish failed, and while the sequence numbers have room: every
record built was accepted by a publish, or is queued, or was counted in `drops`, whose value is
the number of records counted; and a record was committed only after its own publish. -/
theorem every_record_accounted (crc32Ieee : Bytes → UInt32) (c : SpoolConfig)
    (image : ℕ → Sector) (ticks : List Tick) :
    let g := runState (mainStep crc32Ieee c) ticks (mainStart c image)
    Room c (mainStart c image).node.ram.tailSeq.toNat g.trace →
    (∀ e accepted, .publish e accepted ∈ g.trace → accepted = true) →
    (∀ e, .built e ∈ g.trace → g.Accounted crc32Ieee c e) ∧
    g.node.ram.stats.drops = UInt32.ofNat (g.trace.countP RecordEvent.isDropped) ∧
    ∀ later e earlier, g.trace = later ++ .committed (some e) :: earlier →
      .publish e true ∈ earlier := by
  intro g hroom hsent
  have hsafe : Safe crc32Ieee c (mainStart c image).node.ram.tailSeq.toNat g :=
    run_inv (P := Safe crc32Ieee c (mainStart c image).node.ram.tailSeq.toNat)
      (fun t _ g' h => h.round t) (safe_start image)
  obtain ⟨p, q, h⟩ := hsafe hroom
  refine ⟨?_, h.drops, ?_⟩
  · intro e he
    rcases h.fate e he with ⟨accepted, hpub⟩ | hq | hd
    · have haccepted := hsent e accepted hpub
      subst haccepted
      exact Or.inl hpub
    · obtain ⟨k, hk⟩ := List.getElem?_of_mem hq
      have hlt : k < q.length := (List.getElem?_eq_some_iff.mp hk).1
      rw [← h.window.count] at hlt
      exact Or.inr (Or.inl (mem_entriesFrom.mpr ⟨k, hlt, h.window.held k e hk⟩))
    · exact Or.inr (Or.inr hd)
  · intro later e earlier htrace
    obtain ⟨accepted, hpub⟩ := h.justified later e earlier htrace
    have hmem : .publish e accepted ∈ g.trace := by
      rw [htrace]
      exact List.mem_append_right _ (List.mem_cons_of_mem _ hpub)
    have haccepted := hsent e accepted hmem
    subst haccepted
    exact hpub

/-- A round at `now` in which link 0 delivers one line, the record is the line itself, the gateway
has none of its own, and every publish returns `ret`. -/
def lineTick (now : Int) (isConnected : Bool) (ret : Int) : Tick where
  now := now
  isConnected := isConnected
  connect := -1
  publishIntervalSec := 10
  lines := fun link => if link = 0 then [[65]] else []
  buildChildRecord := fun _ _ line => some line
  buildGatewayRecord := fun _ _ => none
  sdk := fun _ => ⟨some (some "rpt"), fun _ _ => ret⟩

/-- A disk of zeros. -/
def zeroImage : ℕ → Sector := fun _ => Sector.ofBytes []

theorem every_record_accounted_outage :
    let g := runState (mainStep Crc32.ieee oneSlot) [lineTick 1 false 0, lineTick 2 true 0]
      (mainStart oneSlot zeroImage)
    Room oneSlot (mainStart oneSlot zeroImage).node.ram.tailSeq.toNat g.trace ∧
    (∀ e accepted, .publish e accepted ∈ g.trace → accepted = true) ∧
    ∀ e, .built e ∈ g.trace → g.Accounted Crc32.ieee oneSlot e := by
  intro g
  have htrace : g.trace = [.committed (some (1, [65])), .publish (1, [65]) true,
      .publish (2, [65]) true, .built (2, [65]), .built (1, [65])] := by
    decide +kernel
  have hroom : Room oneSlot (mainStart oneSlot zeroImage).node.ram.tailSeq.toNat g.trace :=
    Or.inl (Nat.one_dvd _)
  have hsent : ∀ e accepted, .publish e accepted ∈ g.trace → accepted = true := by
    intro e accepted hmem
    rw [htrace] at hmem
    simp at hmem
    tauto
  exact ⟨hroom, hsent, (every_record_accounted Crc32.ieee oneSlot zeroImage
    [lineTick 1 false 0, lineTick 2 true 0] hroom hsent).1⟩

/-- The connection was up when it was sampled, and the publish of a line failed. -/
def failedLive : Gateway :=
  runState (mainStep Crc32.ieee oneSlot) [lineTick 1 true (-1)] (mainStart oneSlot zeroImage)

/-- The same, with a record in the spool. -/
def failedDrain : Gateway :=
  runState (mainStep Crc32.ieee oneSlot) [lineTick 1 false 0, lineTick 2 true (-1)]
    (mainStart oneSlot zeroImage)

/-- A publish that fails loses the record, live or spooled; the spooled one is committed. -/
theorem failed_publish_loses :
    (.built (1, [65]) ∈ failedLive.trace ∧
      ¬ failedLive.Accounted Crc32.ieee oneSlot (1, [65])) ∧
    .built (1, [65]) ∈ failedDrain.trace ∧ .committed (some (1, [65])) ∈ failedDrain.trace ∧
      .publish (1, [65]) true ∉ failedDrain.trace ∧
      ¬ failedDrain.Accounted Crc32.ieee oneSlot (1, [65]) := by
  decide +kernel

end Delivery

end IotcDemos
