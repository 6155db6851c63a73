import IotcDemos.Gateway.Fates
import IotcDemos.Gateway.Interleaving

set_option autoImplicit false

/-! # Catching up after an outage

A round with a connection spools nothing and takes up to four records from the spool. So the
backlog of an outage is gone after a quarter as many rounds, unless it contains an empty record:
there the drain stops, now and in every later round.
-/

namespace IotcDemos

section CatchUp

variable (crc32Ieee : Bytes → UInt32) (c : SpoolConfig)

/-- The spool is in use and holds the records `q`; the records `l` were committed, the last one
first. -/
structure Backlog (q l : List Entry) (g : Gateway) : Prop where
  spoolOk : g.spoolOk = true
  ready : g.node.ram.ready = true
  queued : queued crc32Ieee c g.node = q
  committed : g.trace.filterMap RecordEvent.committedEntry = l

/-- The records in front of the first empty one. -/
def clear (q : List Entry) : ℕ := q.findIdx fun e => e.2.isEmpty

variable {crc32Ieee c} {q l : List Entry} {g : Gateway}

theorem clear_drop {k : ℕ} (hk : k ≤ clear q) : clear (q.drop k) = clear q - k := by
  induction k generalizing q with
  | zero => rfl
  | succ k ih =>
      cases q with
      | nil => simp [clear]
      | cons e q =>
          unfold clear at hk ih ⊢
          rw [List.findIdx_cons] at hk ⊢
          cases he : e.2.isEmpty with
          -- nothing can be dropped in front of an empty record
          | true => simp [he] at hk
          | false =>
              rw [he, cond_false] at hk
              rw [List.drop_succ_cons, cond_false, ih (by omega)]
              omega

/-- A record is published at once; the spool is not touched. -/
theorem offerInv_backlog : OfferInv crc32Ieee c true (Backlog crc32Ieee c q l) where
  congr := by
    intro g g' h hnode htrace hok
    exact ⟨hok.trans h.spoolOk, hnode ▸ h.ready, hnode ▸ h.queued, htrace ▸ h.committed⟩
  offer := by
    intro g t json h
    -- the tick of the disk changes no slot
    have hqueued : queued crc32Ieee c ⟨g.node.disk.tick, g.node.ram⟩ = q := by
      rw [← h.queued]
      exact entriesFrom_congr fun _ _ => rfl
    exact ⟨h.spoolOk, h.ready, hqueued, h.committed⟩

/-- A peek takes no record from the spool; it stops in front of the first one. -/
theorem Backlog.peek (h : Backlog crc32Ieee c q l g) :
    Backlog crc32Ieee c q l (g.peek crc32Ieee c).2.2 ∧
      ((g.peek crc32Ieee c).2.1 = none ∧ q = [] ∨ ∃ e rest, q = e :: rest ∧
        (g.peek crc32Ieee c).1 = e.2.length ∧ (g.peek crc32Ieee c).2.1 = some e.2 ∧
        Held crc32Ieee c (g.peek crc32Ieee c).2.2.node.disk
          (g.peek crc32Ieee c).2.2.node.ram.headSeq e ∧
        0 < (g.peek crc32Ieee c).2.2.node.ram.recCount) := by
  obtain ⟨j, hp⟩ := spoolPeek_spec crc32Ieee c (spoolPayloadMax + 1) h.ready
  have hnode : (g.peek crc32Ieee c).2.2.node = ⟨g.node.disk, Spool.skip^[j] g.node.ram⟩ := hp.node
  obtain ⟨m, hm⟩ := Nat.exists_eq_add_of_le (hp.le crc32Ieee c)
  have hcount : (Spool.skip^[j] g.node.ram).recCount.toNat = m := skips_recCount hm
  have hskipped : entriesFrom crc32Ieee c g.node.disk m (g.node.ram.seqAt j) = q := by
    rw [← h.queued, IotcDemos.queued, hm]
    exact (entriesFrom_skip fun k hk => hp.skips_rejected (Nat.lt_succ_self _) hk).symm
  refine ⟨⟨h.spoolOk, ?_, ?_, ?_⟩, ?_⟩
  · rw [hnode]
    exact (skips_ready _ _).trans h.ready
  · rw [hnode, IotcDemos.queued, hcount, skips_headSeq]
    exact hskipped
  · have hdrops : (peekDrops crc32Ieee c g.node (g.peek crc32Ieee c).2.2.node).filterMap
        RecordEvent.committedEntry = [] := by
      simp [peekDrops, RecordEvent.committedEntry]
    have htrace : (g.peek crc32Ieee c).2.2.trace
        = peekDrops crc32Ieee c g.node (g.peek crc32Ieee c).2.2.node ++ g.trace := rfl
    rw [htrace, List.filterMap_append, hdrops, h.committed, List.nil_append]
  · rcases hp.found with ⟨-, hnone, hj⟩ | ⟨b, hret, hsome, hj, -, hrec⟩
    · -- every place was passed over, so the spool holds no record
      refine Or.inl ⟨hnone, ?_⟩
      obtain rfl : m = 0 := by omega
      rw [← hskipped]
      rfl
    · obtain ⟨m, rfl⟩ : ∃ m', m = m' + 1 := ⟨m - 1, by omega⟩
      have hentry : entryOf crc32Ieee c g.node.disk (g.node.ram.seqAt j)
          = some (stampAt c g.node.disk (slotIdx c (g.node.ram.seqAt j)), b) :=
        entryOf_eq_some.mpr ⟨hrec, rfl⟩
      rw [entriesFrom, hentry, Option.toList_some, List.singleton_append] at hskipped
      -- the record at place `j` is the first of the spool
      refine Or.inr ⟨_, _, hskipped.symm, hret, hsome, ?_, ?_⟩
      · rw [hnode, skips_headSeq]
        exact entryOf_eq_some.mp hentry
      · rw [hnode]
        apply UInt32.lt_iff_toNat_lt.mpr
        rw [hcount]
        exact Nat.succ_pos m

/-- The first record is published and committed. -/
theorem Backlog.forward {e : Entry} (h : Backlog crc32Ieee c (e :: q) l g)
    (hheld : Held crc32Ieee c g.node.disk g.node.ram.headSeq e) (hpos : 0 < g.node.ram.recCount)
    (t : Tick) : Backlog crc32Ieee c q (e :: l) ((g.publish t e).commit crc32Ieee c) := by
  have hcommit := spoolCommit_eq c h.ready hpos
  have hentry := entryOf_eq_some.mpr hheld
  have hqueued := h.queued
  obtain ⟨m, hm⟩ : ∃ m, g.node.ram.recCount.toNat = m + 1 := by
    have := UInt32.lt_iff_toNat_lt.mp hpos
    exact ⟨g.node.ram.recCount.toNat - 1, by rw [UInt32.toNat_zero] at this; omega⟩
  have hlt := g.node.ram.recCount.toNat_lt
  unfold Gateway.commit Gateway.publish
  simp only [hcommit, hentry]
  refine ⟨h.spoolOk, h.ready, ?_, ?_⟩
  · rw [IotcDemos.queued, hm, entriesFrom_commit (by omega) hheld] at hqueued
    have hcount : g.node.ram.committed.recCount.toNat = m := toNat_pred hm
    rw [IotcDemos.queued, hcount]
    exact (List.cons.inj hqueued).2
  · rw [List.filterMap_cons, List.filterMap_cons]
    simp [RecordEvent.committedEntry, h.committed]

/-- **The drain.** -/
theorem Backlog.drainLoop (h : Backlog crc32Ieee c q l g) (t : Tick) (i : ℕ) :
    let k := min i (clear q)
    Backlog crc32Ieee c (q.drop k) ((q.take k).reverse ++ l) (drainLoop crc32Ieee c t i g) := by
  induction i generalizing q l g with
  | zero => simpa [IotcDemos.drainLoop] using h
  | succ i ih =>
      obtain ⟨hpeeked, hfound⟩ := h.peek
      unfold IotcDemos.drainLoop
      rcases hpeek : g.peek crc32Ieee c with ⟨n, out, g'⟩
      rw [hpeek] at hpeeked hfound
      rcases hfound with ⟨rfl, rfl⟩ | ⟨e, rest, rfl, rfl, rfl, hheld, hpos⟩
      · -- the spool holds no record
        simpa using hpeeked
      · by_cases hempty : (e.2.length : Int) ≤ 0
        · -- an empty record ends the drain
          have hnil : e.2 = [] := List.length_eq_zero_iff.mp (by omega)
          simpa [hempty, clear, List.findIdx_cons, hnil] using hpeeked
        · have hne : e.2.isEmpty = false := by
            rw [List.isEmpty_eq_false_iff]
            rintro hnil
            simp [hnil] at hempty
          -- the record is committed, and the drain goes on behind it
          have hrest := ih (hpeeked.forward hheld hpos t)
          have hentry : (stampAt c g'.node.disk (slotIdx c g'.node.ram.headSeq), e.2) = e := by
            rw [hheld.2]
          have hclear : clear (e :: rest) = clear rest + 1 := by
            rw [clear, List.findIdx_cons, hne]
            rfl
          simp only [if_neg hempty, hentry]
          rw [hclear, Nat.add_min_add_right, List.drop_succ_cons, List.take_succ_cons,
            List.reverse_cons, List.append_assoc]
          exact hrest

/-- **A round with a connection.** -/
theorem Backlog.round (h : Backlog crc32Ieee c q l g) {t : Tick} (ht : t.isConnected = true) :
    let k := min drainPerTick (clear q)
    Backlog crc32Ieee c (q.drop k) ((q.take k).reverse ++ l) (round crc32Ieee c t g) := by
  have hconnected : (reconnect t g).1 = true := by simp [reconnect, ht]
  have hlive := offerInv_backlog.publishWhenDue t
    (offerInv_backlog.ingestChildren t (offerInv_backlog.reconnect t h))
  unfold IotcDemos.round
  dsimp only
  rw [hconnected, hlive.spoolOk]
  exact hlive.drainLoop t drainPerTick

/-- **Rounds with a connection.** -/
theorem Backlog.rounds (h : Backlog crc32Ieee c q l g) {ticks : List Tick}
    (hticks : ∀ t ∈ ticks, t.isConnected = true) :
    let k := min (drainPerTick * ticks.length) (clear q)
    Backlog crc32Ieee c (q.drop k) ((q.take k).reverse ++ l)
      (runState (mainStep crc32Ieee c) ticks g) := by
  induction ticks generalizing q l g with
  | nil => simpa using h
  | cons t ticks ih =>
      have hrest := ih (h.round (hticks t List.mem_cons_self))
        fun t' ht' => hticks t' (List.mem_cons_of_mem t ht')
      intro k
      -- the first round takes its records, and the others what they can of the rest
      have hk : k = min drainPerTick (clear q)
          + min (drainPerTick * ticks.length) (clear q - min drainPerTick (clear q)) := by
        show min (drainPerTick * (ticks.length + 1)) (clear q) = _
        rw [Nat.mul_succ]
        omega
      dsimp only at hrest
      rw [clear_drop (Nat.min_le_right _ _), List.drop_drop, ← hk, ← List.append_assoc,
        ← List.reverse_append, ← List.take_add, ← hk] at hrest
      exact hrest

end CatchUp

end IotcDemos
