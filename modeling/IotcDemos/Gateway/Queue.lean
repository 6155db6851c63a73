import IotcDemos.Gateway.Recovery
import IotcDemos.Lib.Crc32
import IotcDemos.Lib.Run

set_option autoImplicit false

/-! # The spool is a bounded queue

`queueStep` is the queue the spool is meant to be: a list of at most `NSLOTS` strings. On a disk
whose accesses succeed, every run of the spool gives the answers of the queue, and at every
moment the records in the spool's window are the strings of the queue (`spool_refines_queue`).
The sequence counters may wrap any number of times when `NSLOTS` divides `2 ^ 32`.
-/

namespace IotcDemos

section Queue

variable (crc32Ieee : Bytes → UInt32) (c : SpoolConfig)

/-- One call on a disk that works; the call gets the next operation number. -/
def diskStep (op : SpoolOp) (n : Node Disk) : Answer × Node Disk :=
  spoolStep Disk.reliable crc32Ieee c op { n with disk := n.disk.tick }

/-- The queue the spool is meant to be, oldest string first. A buffer that might be too small
for some record gives up the records at the front that do not fit it. -/
def queueStep (cap : ℕ) : SpoolOp → List Bytes → Answer × List Bytes
  | .push json, q =>
      if spoolPayloadMax < json.length then ((-EMSGSIZE, none), q)
      else ((0, none), Fifo.push cap json q)
  | .peek bufSize, q =>
      let q' := if spoolPayloadMax < bufSize then q
        else q.dropWhile fun b => decide (bufSize ≤ b.length)
      match q' with
      | [] => ((0, none), [])
      | b :: _ => ((b.length, some b), q')
  | .commit, q => ((0, none), q.tail)
  | .wipe, _ => ((0, none), [])

/-- The records in the window, oldest first: what `spool_peek` would return, one by one. -/
def spooled (n : Node Disk) : List Bytes :=
  (List.range n.ram.recCount.toNat).filterMap fun k => recordAt crc32Ieee c n.disk (n.ram.seqAt k)

/-! ## The window of a queue -/

/-- The spool holds exactly the strings `q`. -/
def Holds (n : Node Disk) (q : List Bytes) : Prop :=
  ∃ es : List Entry, Window crc32Ieee c n (es.map some) ∧ es.map Prod.snd = q

variable {crc32Ieee c}

theorem Window.getElem_map_some {n : Node Disk} {es : List Entry}
    (h : Window crc32Ieee c n (es.map some)) {k : ℕ} {e : Entry} (hk : es[k]? = some e) :
    Held crc32Ieee c n.disk (n.ram.seqAt k) e :=
  h.held k e (by rw [List.getElem?_map, hk]; rfl)

theorem Holds.length_le {n : Node Disk} {q : List Bytes} (h : Holds crc32Ieee c n q) :
    q.length = n.ram.recCount.toNat ∧ q.length ≤ c.nslots := by
  obtain ⟨es, hw, rfl⟩ := h
  have hcount := hw.count
  have hcap := hw.cap
  rw [List.length_map] at hcount hcap
  rw [List.length_map]
  exact ⟨hcount.symm, hcap⟩

theorem Holds.ready {n : Node Disk} {q : List Bytes} (h : Holds crc32Ieee c n q) :
    n.ram.ready = true := by
  obtain ⟨es, hw, -⟩ := h
  exact hw.ready

/-- The records of the window are the strings it holds. -/
theorem Holds.spooled {n : Node Disk} {q : List Bytes} (h : Holds crc32Ieee c n q) :
    spooled crc32Ieee c n = q := by
  obtain ⟨es, hw, rfl⟩ := h
  have hcount := hw.count
  rw [List.length_map] at hcount
  have key : ∀ m, m ≤ es.length →
      (List.range m).filterMap (fun k => recordAt crc32Ieee c n.disk (n.ram.seqAt k))
        = (es.take m).map Prod.snd := by
    intro m
    induction m with
    | zero => intro _; rfl
    | succ m ih =>
        intro hm
        have hlt : m < es.length := by omega
        have hheld := hw.getElem_map_some (List.getElem?_eq_getElem hlt)
        rw [List.range_succ, List.filterMap_append, ih (by omega), List.take_add_one,
          List.map_append, List.getElem?_eq_getElem hlt]
        simp [hheld.1]
  rw [IotcDemos.spooled, hcount, key _ (Nat.le_refl _), List.take_length]

theorem Holds.payload_le {n : Node Disk} {q : List Bytes} (h : Holds crc32Ieee c n q) :
    ∀ b ∈ q, b.length ≤ spoolPayloadMax := by
  obtain ⟨es, hw, rfl⟩ := h
  intro b hb
  obtain ⟨e, he, rfl⟩ := List.mem_map.mp hb
  obtain ⟨k, hk, rfl⟩ := List.getElem_of_mem he
  exact (recordAt_length crc32Ieee c (hw.getElem_map_some (List.getElem?_eq_getElem hk)).1).2

/-! ## One call -/

/-- A record that is too long is counted in `drops`, and nothing else happens. -/
theorem diskStep_push_long {json : Bytes} {n : Node Disk} (hr : n.ram.ready = true)
    (hj : spoolPayloadMax < json.length) :
    diskStep crc32Ieee c (.push json) n = ((-EMSGSIZE, none), ⟨n.disk.tick,
      { n.ram with stats := { n.ram.stats with drops := n.ram.stats.drops + 1 } }⟩) := by
  rw [diskStep, spoolStep, spoolPush_long (n := ⟨n.disk.tick, n.ram⟩) hr hj]

theorem Holds.tick {n : Node Disk} {q : List Bytes} (h : Holds crc32Ieee c n q) :
    Holds crc32Ieee c { n with disk := n.disk.tick } q := by
  obtain ⟨es, hw, rfl⟩ := h
  exact ⟨es, ⟨hw.ready, hw.count, hw.tail, hw.cap, hw.stats, hw.held⟩, rfl⟩

/-- The slot at the tail is not that of a record that stays in the window. -/
def TailFree (c : SpoolConfig) (s : Spool) : Prop :=
  ∀ k, k < s.recCount.toNat → s.recCount.toNat < k + c.nslots →
    slotIdx c (s.seqAt k) ≠ slotIdx c s.tailSeq

theorem Holds.tailFree_of_dvd {n : Node Disk} {q : List Bytes} (h : Holds crc32Ieee c n q)
    (hdvd : c.nslots ∣ 2 ^ 32) : TailFree c n.ram := by
  obtain ⟨es, hw, -⟩ := h
  intro k hk hlt
  rw [hw.tail, ← hw.count]
  exact slotIdx_ne_of_dvd c hdvd hk hlt

theorem Holds.push {n : Node Disk} {q : List Bytes} {json : Bytes} (h : Holds crc32Ieee c n q)
    (hfree : TailFree c n.ram) (hj : json.length ≤ spoolPayloadMax) :
    (spoolPush Disk.reliable crc32Ieee c json n).1 = 0 ∧
    Holds crc32Ieee c (spoolPush Disk.reliable crc32Ieee c json n).2
      (Fifo.push c.nslots json q) := by
  obtain ⟨es, hw, rfl⟩ := h
  refine ⟨by rw [spoolPush_eq crc32Ieee c hw.ready hj],
    Fifo.push c.nslots (n.disk.clock, json) es, ?_, by rw [Fifo.push_map]⟩
  rw [Fifo.push_map]
  refine hw.push crc32Ieee c hj ?_
  intro k e hk _ hlt
  have hcount := hw.count
  have hklt := (List.getElem?_eq_some_iff.mp hk).1
  exact hfree k (by omega) (by omega)

theorem Holds.peek {n : Node Disk} {q : List Bytes} (h : Holds crc32Ieee c n q) (bufSize : ℕ) :
    (spoolStep Disk.reliable crc32Ieee c (.peek bufSize) n).1
      = (queueStep c.nslots (.peek bufSize) q).1 ∧
    Holds crc32Ieee c (spoolStep Disk.reliable crc32Ieee c (.peek bufSize) n).2
      (queueStep c.nslots (.peek bufSize) q).2 := by
  have hmax := h.payload_le
  obtain ⟨hlen, -⟩ := h.length_le
  obtain ⟨es, hw, rfl⟩ := h
  rw [List.length_map] at hlen
  obtain ⟨j, hp⟩ := spoolPeek_spec crc32Ieee c bufSize hw.ready
  rw [← hlen] at hp
  have hjle : j ≤ es.length := hp.le crc32Ieee c
  rcases hr : spoolPeek Disk.reliable crc32Ieee c bufSize n with ⟨ret, buf, n'⟩
  rw [hr] at hp
  have hstep : spoolStep Disk.reliable crc32Ieee c (.peek bufSize) n = ((ret, buf), n') := by
    rw [spoolStep, hr]
  have hnode : n' = ⟨n.disk, Spool.skip^[j] n.ram⟩ := hp.node
  -- what is found at the front, in terms of the entries
  have hfound : (ret = 0 ∧ buf = none ∧ j = es.length) ∨
      ∃ e, es[j]? = some e ∧ ret = e.2.length ∧ buf = some e.2 ∧ e.2.length < bufSize := by
    refine hp.found.imp id ?_
    rintro ⟨b, h1, h2, h3, h4, h5⟩
    have hheld := (hw.getElem_map_some (List.getElem?_eq_getElem h3)).1
    rw [h5] at hheld
    obtain rfl : b = es[j].2 := Option.some.inj hheld
    exact ⟨es[j], List.getElem?_eq_getElem h3, h1, h2, h4⟩
  -- the front the queue is left with
  have hdrop : (es.map Prod.snd).drop j
      = (es.map Prod.snd).dropWhile fun b => decide (bufSize ≤ b.length) := by
    refine Fifo.drop_eq_dropWhile ?_ ?_
    · intro i b hi hb
      rw [List.getElem?_map] at hb
      obtain ⟨e, he, rfl⟩ := Option.map_eq_some_iff.mp hb
      simpa using hp.passed i e.2 hi (hw.getElem_map_some he).1
    · intro b hb
      rw [List.getElem?_map] at hb
      obtain ⟨e, he, rfl⟩ := Option.map_eq_some_iff.mp hb
      rcases hfound with ⟨-, -, hj⟩ | ⟨e', he', -, -, hlt⟩
      · have := (List.getElem?_eq_some_iff.mp he).1
        omega
      · rw [he] at he'
        rw [Option.some.inj he']
        simpa using hlt
  have hfront : (if spoolPayloadMax < bufSize then es.map Prod.snd
      else (es.map Prod.snd).dropWhile fun b => decide (bufSize ≤ b.length))
      = (es.drop j).map Prod.snd := by
    rw [List.map_drop, hdrop]
    split
    · rename_i hbig
      refine Fifo.drop_eq_dropWhile (j := 0) (by omega) ?_
      intro b hb
      have := hmax b (List.mem_of_getElem? hb)
      simp only [decide_eq_false_iff_not]
      omega
    · rfl
  have hwin : Window crc32Ieee c n' ((es.drop j).map some) := by
    have := hw.skips crc32Ieee c (j := j) (by rw [List.length_map]; exact hjle)
    rwa [← List.map_drop, ← hnode] at this
  rw [queueStep, hfront, hstep]
  rcases hfound with ⟨rfl, rfl, hj⟩ | ⟨e, he, rfl, rfl, -⟩
  · have hnil : es.drop j = [] := by rw [List.drop_eq_nil_iff, hj]
    rw [hnil]
    exact ⟨rfl, [], by rwa [hnil] at hwin, rfl⟩
  · obtain ⟨hlt, rfl⟩ := List.getElem?_eq_some_iff.mp he
    have hcons : es.drop j = es[j] :: es.drop (j + 1) := List.drop_eq_getElem_cons hlt
    rw [hcons]
    exact ⟨rfl, es.drop j, hwin, congrArg (List.map Prod.snd) hcons⟩

theorem Holds.commit {n : Node Disk} {q : List Bytes} (h : Holds crc32Ieee c n q) :
    (spoolCommit Disk.reliable c n).1 = 0 ∧
    Holds crc32Ieee c (spoolCommit Disk.reliable c n).2 q.tail := by
  obtain ⟨es, hw, rfl⟩ := h
  cases es with
  | nil =>
      rw [spoolCommit_empty hw.ready (hw.count_zero crc32Ieee c)]
      exact ⟨rfl, [], hw, rfl⟩
  | cons e es =>
      rw [spoolCommit_eq c hw.ready (hw.count_pos crc32Ieee c)]
      have hheld := hw.held 0 e rfl
      rw [seqAt_zero] at hheld
      exact ⟨rfl, es, hw.commit crc32Ieee c hheld.1, rfl⟩

theorem holds_nil {d : Disk} {s : Spool} (hready : s.ready = true) (hcount : s.recCount = 0)
    (htail : s.tailSeq = s.headSeq) (hstats : s.stats.count = 0) :
    Holds crc32Ieee c ⟨d, s⟩ [] := by
  refine ⟨[], ⟨hready, ?_, ?_, Nat.zero_le _, ?_, by simp⟩, rfl⟩
  · show s.recCount.toNat = 0
    rw [hcount]
    rfl
  · rw [List.map_nil, List.length_nil, seqAt_zero]
    exact htail
  · show s.stats.count = s.recCount
    rw [hstats, hcount]

theorem Holds.wipe {n : Node Disk} {q : List Bytes} (h : Holds crc32Ieee c n q) :
    (spoolWipe Disk.reliable c n).1 = 0 ∧ Holds crc32Ieee c (spoolWipe Disk.reliable c n).2 [] := by
  rw [spoolWipe_eq c h.ready]
  exact ⟨rfl, holds_nil h.ready rfl rfl rfl⟩

/-- **One call refines one operation of the queue.** -/
theorem Holds.step {n : Node Disk} {q : List Bytes} (h : Holds crc32Ieee c n q)
    (hfree : TailFree c n.ram) (op : SpoolOp) :
    (diskStep crc32Ieee c op n).1 = (queueStep c.nslots op q).1 ∧
    Holds crc32Ieee c (diskStep crc32Ieee c op n).2 (queueStep c.nslots op q).2 := by
  have ht := h.tick
  have hram : ({ n with disk := n.disk.tick } : Node Disk).ram = n.ram := rfl
  rw [diskStep]
  generalize ({ n with disk := n.disk.tick } : Node Disk) = m at ht hram
  rw [← hram] at hfree
  cases op with
  | push json =>
      rw [queueStep, spoolStep]
      by_cases hj : spoolPayloadMax < json.length
      · rw [if_pos hj]
        obtain ⟨es, hw, hq⟩ := ht
        rw [spoolPush_long hw.ready hj]
        exact ⟨rfl, es, ⟨hw.ready, hw.count, hw.tail, hw.cap, hw.stats, hw.held⟩, hq⟩
      · rw [if_neg hj]
        obtain ⟨hret, hnext⟩ := ht.push hfree (Nat.le_of_not_lt hj)
        exact ⟨congrArg (fun r => (r, none)) hret, hnext⟩
  | peek bufSize => exact ht.peek bufSize
  | commit =>
      obtain ⟨hret, hnext⟩ := ht.commit
      exact ⟨congrArg (fun r => (r, none)) hret, hnext⟩
  | wipe =>
      obtain ⟨hret, hnext⟩ := ht.wipe
      exact ⟨congrArg (fun r => (r, none)) hret, hnext⟩

/-! ## The sectors written -/

/-- The sectors of the ring. -/
def InRing (c : SpoolConfig) (a : ℕ) : Prop :=
  c.baseSector ≤ a ∧ a < c.baseSector + c.nslots * spoolSlotSectors

theorem writeSel_outside {a i count : ℕ} (ha : ¬ InRing c a) (hi : i < c.nslots)
    (hcount : count ≤ 3) (sel : ℕ → Bool) (buf : Bytes) (d : Disk) :
    (d.writeSel sel buf (slotSector c i) count).cell a = d.cell a := by
  apply Disk.writeSel_cell_other
  rw [slotSector_eq c hi]
  have h3 : spoolSlotSectors = 3 := rfl
  rw [InRing, h3] at ha
  omega

theorem blankedAll_outside {a k i : ℕ} {d : Disk} (ha : ¬ InRing c a) (hk : i + k ≤ c.nslots) :
    (blankedAll c k i d).cell a = d.cell a := by
  induction k generalizing i d with
  | zero => rfl
  | succ k ih =>
      rw [blankedAll, ih (by omega), blanked]
      exact writeSel_outside ha (by omega) (by omega) _ _ d

/-- A call touches no sector outside the ring: not even its stamp changes. -/
theorem diskStep_outside {a : ℕ} (ha : ¬ InRing c a) (op : SpoolOp) (n : Node Disk) :
    (diskStep crc32Ieee c op n).2.disk.cell a = n.disk.cell a := by
  rw [diskStep]
  rw [← n.disk.tick_cell]
  generalize hm : ({ n with disk := n.disk.tick } : Node Disk) = m
  have hd : n.disk.tick = m.disk := by rw [← hm]
  rw [hd]
  cases hr : m.ram.ready with
  | false => cases op <;> simp [spoolStep, spoolPush, spoolPeek, spoolCommit, spoolWipe, hr]
  | true =>
      cases op with
      | push json =>
          show (spoolPush Disk.reliable crc32Ieee c json m).2.disk.cell a = _
          by_cases hj : spoolPayloadMax < json.length
          · rw [spoolPush_long hr hj]
          · rw [spoolPush_eq crc32Ieee c hr (Nat.le_of_not_lt hj)]
            show (pushed crc32Ieee c m.ram.tailSeq json m.disk).cell a = m.disk.cell a
            rw [pushed, slotOf_eq]
            exact writeSel_outside ha (slotIdx_lt c _) (by decide) _ _ _
      | peek bufSize =>
          show (spoolPeek Disk.reliable crc32Ieee c bufSize m).2.2.disk.cell a = _
          rw [spoolPeek_disk]
      | commit =>
          show (spoolCommit Disk.reliable c m).2.disk.cell a = _
          by_cases hc : 0 < m.ram.recCount
          · rw [spoolCommit_eq c hr hc]
            show (blanked c (slotIdx c m.ram.headSeq) m.disk).cell a = m.disk.cell a
            rw [blanked]
            exact writeSel_outside ha (slotIdx_lt c _) (by decide) _ _ _
          · rw [spoolCommit, if_neg (by simp [hr]), if_neg hc]
      | wipe =>
          show (spoolWipe Disk.reliable c m).2.disk.cell a = _
          rw [spoolWipe_eq c hr]
          exact blankedAll_outside ha (by omega)

theorem holds_spoolInit {n : Node Disk}
    (hnone : ∀ i, i < c.nslots → (hdrAt c n.disk i).counts = false) :
    Holds crc32Ieee c (spoolInit Disk.reliable c n).2 [] := by
  rw [spoolInit_eq, recover_empty c n.ram hnone]
  exact holds_nil rfl rfl rfl rfl

/-- The queue never holds more than `cap` strings. -/
theorem queueStep_length_le {cap : ℕ} (hcap : 0 < cap) (op : SpoolOp) {q : List Bytes}
    (hq : q.length ≤ cap) : (queueStep cap op q).2.length ≤ cap := by
  cases op with
  | push json =>
      rw [queueStep]
      split
      · exact hq
      · exact Fifo.push_length_le json hcap hq
  | peek bufSize =>
      have hle : (if spoolPayloadMax < bufSize then q
          else q.dropWhile fun b => decide (bufSize ≤ b.length)).length ≤ cap := by
        split
        · exact hq
        · exact le_trans (List.dropWhile_suffix _).length_le hq
      simp only [queueStep]
      generalize (if spoolPayloadMax < bufSize then q
        else q.dropWhile fun b => decide (bufSize ≤ b.length)) = q' at hle
      cases q' with
      | nil => exact Nat.zero_le _
      | cons b q' => exact hle
  | commit =>
      rw [queueStep, List.length_tail]
      omega
  | wipe => exact Nat.zero_le _

/-- **The spool refines a bounded queue.** After `spool_init` on a region with no valid record,
every run of calls gives the answers of the queue of at most `NSLOTS` strings, the records of
the window are those strings, and no sector outside the ring is written. -/
theorem spool_refines_queue (crc32Ieee : Bytes → UInt32) (c : SpoolConfig)
    (hdvd : c.nslots ∣ 2 ^ 32) (n : Node Disk)
    (hnone : ∀ i, i < c.nslots → (hdrAt c n.disk i).counts = false) (ops : List SpoolOp) :
    let start := (spoolInit Disk.reliable c n).2
    let final := runState (diskStep crc32Ieee c) ops start
    let queue := runState (queueStep c.nslots) ops []
    (spoolInit Disk.reliable c n).1 = 0 ∧
    (run (diskStep crc32Ieee c) ops start).1 = (run (queueStep c.nslots) ops []).1 ∧
    spooled crc32Ieee c final = queue ∧
    final.ram.recCount.toNat = queue.length ∧ queue.length ≤ c.nslots ∧
    ∀ a, ¬ InRing c a → final.disk.cell a = n.disk.cell a := by
  intro start final queue
  have hstart : Holds crc32Ieee c start [] := holds_spoolInit hnone
  obtain ⟨hout, hend⟩ :
      (run (diskStep crc32Ieee c) ops start).1 = (run (queueStep c.nslots) ops []).1 ∧
      Holds crc32Ieee c final queue :=
    run_refines (fun op _ s q hq => hq.step (hq.tailFree_of_dvd hdvd) op) hstart
  have hdisk : start.disk = n.disk := by
    show (spoolInit Disk.reliable c n).2.disk = n.disk
    rw [spoolInit_eq]
  refine ⟨by rw [spoolInit_eq], hout, hend.spooled, hend.length_le.1.symm, ?_, ?_⟩
  · exact run_inv (P := fun q : List Bytes => q.length ≤ c.nslots)
      (fun op _ _ hq => queueStep_length_le c.pos op hq) (Nat.zero_le _)
  · intro a ha
    rw [← hdisk]
    exact run_inv (P := fun m : Node Disk => m.disk.cell a = start.disk.cell a)
      (fun op _ m hm => (diskStep_outside ha op m).trans hm) rfl

theorem spool_refines_queue_default :
    (2048 : ℕ) ∣ 2 ^ 32 ∧ (∀ i, i < 2048 → (hdrAt defaultSpool Disk.blank i).counts = false) ∧
    (run (diskStep Crc32.ieee defaultSpool) [.push [65], .peek 1520, .commit]
      (spoolInit Disk.reliable defaultSpool ⟨Disk.blank, Spool.off⟩).2).1
      = [(0, none), (1, some [65]), (0, none)] :=
  ⟨by decide, fun i _ => counts_blank defaultSpool i,
    (spool_refines_queue Crc32.ieee defaultSpool (by decide) ⟨Disk.blank, Spool.off⟩
      (fun i _ => counts_blank defaultSpool i) _).2.1.trans rfl⟩

end Queue

end IotcDemos
