import IotcDemos.Gateway.Slots
import IotcDemos.Lib.Fifo

set_option autoImplicit false

/-! # The window of queued records

On a disk whose accesses succeed, each spool operation is a function of the disk and the RAM:
`spoolPush_eq`, `spoolCommit_eq`, `spoolWipe_eq`. `Window n q` says that the RAM window of `n`
covers the entries `q`, oldest first. An entry `some (p, b)` is the string `b`, in its slot on
the disk, written by operation `p`; an entry `none` is a sequence number of the window about
whose slot nothing is known. The lemmas say how `Window` changes when the oldest entry leaves,
when a record is appended, and what `spool_peek` finds.
-/

namespace IotcDemos

/-! ## Sequence numbers -/

theorem add_ofNat_toNat (h : UInt32) (k : ℕ) :
    (h + UInt32.ofNat k).toNat = (h.toNat + k) % 2 ^ 32 := by
  rw [UInt32.toNat_add, UInt32.toNat_ofNat']
  omega

theorem add_ofNat_toNat_of_lt {h : UInt32} {k : ℕ} (hlt : h.toNat + k < 2 ^ 32) :
    (h + UInt32.ofNat k).toNat = h.toNat + k := by
  rw [add_ofNat_toNat, Nat.mod_eq_of_lt hlt]

/-- The place of a sequence number behind the head. -/
theorem add_ofNat_sub {h seq : UInt32} (hle : h.toNat ≤ seq.toNat) :
    h + UInt32.ofNat (seq.toNat - h.toNat) = seq := by
  have hlt := seq.toNat_lt
  apply UInt32.toNat_inj.mp
  rw [add_ofNat_toNat]
  omega

theorem add_ofNat_inj {h : UInt32} {i j : ℕ} (hi : i < 2 ^ 32) (hj : j < 2 ^ 32)
    (he : h + UInt32.ofNat i = h + UInt32.ofNat j) : i = j := by
  have := congrArg UInt32.toNat he
  rw [add_ofNat_toNat, add_ofNat_toNat] at this
  omega

/-- Two numbers of one residue are at least the modulus apart. -/
theorem mod_ne_of_near {a b n : ℕ} (hlt : a < b) (hnear : b < a + n) : a % n ≠ b % n := by
  intro he
  have hd : n ∣ b - a := (Nat.modEq_iff_dvd' (Nat.le_of_lt hlt)).mp he
  have hle : n ≤ b - a := Nat.le_of_dvd (Nat.sub_pos_of_lt hlt) hd
  omega

section Window

variable (crc32Ieee : Bytes → UInt32) (c : SpoolConfig)

theorem nslots_lt : c.nslots < 2 ^ 32 := by
  have := c.fits
  have h3 : spoolSlotSectors = 3 := rfl
  rw [h3] at this
  omega

/-- Sequence numbers less than `NSLOTS` apart have different slots, if the counters did not wrap
between them. -/
theorem slotIdx_ne_of_near {a b : UInt32} (hlt : a.toNat < b.toNat)
    (hnear : b.toNat < a.toNat + c.nslots) : slotIdx c a ≠ slotIdx c b :=
  mod_ne_of_near hlt hnear

/-- The same by places of the window. -/
theorem slotIdx_ne_of_lt {h : UInt32} {i j : ℕ} (hij : i < j) (hlt : j < i + c.nslots)
    (hwrap : h.toNat + j < 2 ^ 32) :
    slotIdx c (h + UInt32.ofNat i) ≠ slotIdx c (h + UInt32.ofNat j) := by
  have hi : (h + UInt32.ofNat i).toNat = h.toNat + i := add_ofNat_toNat_of_lt (by omega)
  have hj : (h + UInt32.ofNat j).toNat = h.toNat + j := add_ofNat_toNat_of_lt hwrap
  exact slotIdx_ne_of_near c (by omega) (by omega)

/-- Wherever the 32-bit counters are, when `NSLOTS` divides `2 ^ 32`. -/
theorem slotIdx_ne_of_dvd (hdvd : c.nslots ∣ 2 ^ 32) {h : UInt32} {i j : ℕ} (hij : i < j)
    (hlt : j < i + c.nslots) :
    slotIdx c (h + UInt32.ofNat i) ≠ slotIdx c (h + UInt32.ofNat j) := by
  rw [slotIdx, slotIdx, add_ofNat_toNat, add_ofNat_toNat, Nat.mod_mod_of_dvd _ hdvd,
    Nat.mod_mod_of_dvd _ hdvd]
  exact mod_ne_of_near (by omega) (by omega)

/-! ## The operations on a disk that works -/

theorem spoolPush_eq {json : Bytes} {n : Node Disk} (hr : n.ram.ready = true)
    (hj : json.length ≤ spoolPayloadMax) :
    spoolPush Disk.reliable crc32Ieee c json n
      = (0, ⟨pushed crc32Ieee c n.ram.tailSeq json n.disk, (n.ram.makeRoom c).appended⟩) :=
  spoolPush_written hr hj rfl

theorem spoolCommit_eq {n : Node Disk} (hr : n.ram.ready = true) (hc : 0 < n.ram.recCount) :
    spoolCommit Disk.reliable c n
      = (0, ⟨blanked c (slotIdx c n.ram.headSeq) n.disk, n.ram.committed⟩) :=
  spoolCommit_some hr hc rfl

/-- The disk after the headers of the slots `i, …, i + k - 1` have been cleared. -/
def blankedAll : (k i : ℕ) → Disk → Disk
  | 0, _, d => d
  | k + 1, i, d => blankedAll k (i + 1) (blanked c i d)

theorem wipeSlots_eq (k i : ℕ) (d : Disk) :
    wipeSlots Disk.reliable c k i d = (0, blankedAll c k i d) := by
  induction k generalizing i d with
  | zero => rfl
  | succ k ih =>
      show (if (0 : Int) = 0 then wipeSlots Disk.reliable c k (i + 1) (blanked c i d)
        else (0, blanked c i d)) = _
      rw [if_pos rfl, ih]
      rfl

theorem spoolWipe_eq {n : Node Disk} (hr : n.ram.ready = true) :
    spoolWipe Disk.reliable c n = (0, ⟨blankedAll c c.nslots 0 n.disk, n.ram.cleared⟩) := by
  rw [spoolWipe, if_neg (by simp [hr]), wipeSlots_eq]

/-- Clearing keeps a cleared header cleared. -/
theorem counts_blanked_of {i j : ℕ} {d : Disk} (hi : i < c.nslots) (hj : j < c.nslots)
    (h : (hdrAt c d j).counts = false) : (hdrAt c (blanked c i d) j).counts = false := by
  by_cases hij : i = j
  · subst hij
    exact counts_blanked c i d
  · rw [blanked, hdrAt_of_ne c _ _ _ (by omega) hi hj hij]
    exact h

/-- After a wipe no header counts. -/
theorem counts_blankedAll {k i : ℕ} {d : Disk} (hk : i + k ≤ c.nslots) {j : ℕ}
    (hj : j < c.nslots) (h : (i ≤ j ∧ j < i + k) ∨ (hdrAt c d j).counts = false) :
    (hdrAt c (blankedAll c k i d) j).counts = false := by
  induction k generalizing i d with
  | zero =>
      rcases h with h | h
      · omega
      · exact h
  | succ k ih =>
      rw [blankedAll]
      apply ih (by omega)
      by_cases hij : i = j
      · subst hij
        exact Or.inr (counts_blanked c i d)
      · rcases h with h | h
        · exact Or.inl (by omega)
        · exact Or.inr (counts_blanked_of c (by omega) hj h)

/-! ## The window -/

/-- The sequence number `k` places after the oldest of the window. -/
def Spool.seqAt (s : Spool) (k : ℕ) : UInt32 := s.headSeq + UInt32.ofNat k

theorem seqAt_zero (s : Spool) : s.seqAt 0 = s.headSeq := by
  show s.headSeq + 0 = s.headSeq
  rw [UInt32.add_zero]

/-- An entry of the window: the operation that wrote the record, and the record. -/
abbrev Entry := ℕ × Bytes

/-- The entry lies in its slot on the disk. -/
def Held (d : Disk) (seq : UInt32) (e : Entry) : Prop :=
  recordAt crc32Ieee c d seq = some e.2 ∧ stampAt c d (slotIdx c seq) = e.1

/-- The RAM window of `n` covers the entries `q`, oldest first. -/
structure Window (n : Node Disk) (q : List (Option Entry)) : Prop where
  ready : n.ram.ready = true
  count : n.ram.recCount.toNat = q.length
  tail : n.ram.tailSeq = n.ram.seqAt q.length
  cap : q.length ≤ c.nslots
  stats : n.ram.stats.count = n.ram.recCount
  held : ∀ k e, q[k]? = some (some e) → Held crc32Ieee c n.disk (n.ram.seqAt k) e

theorem Window.count_pos {n : Node Disk} {x : Option Entry} {q : List (Option Entry)}
    (h : Window crc32Ieee c n (x :: q)) : 0 < n.ram.recCount := by
  have := h.count
  rw [List.length_cons] at this
  apply UInt32.lt_iff_toNat_lt.mpr
  show 0 < n.ram.recCount.toNat
  omega

theorem Window.count_zero {n : Node Disk} (h : Window crc32Ieee c n []) : n.ram.recCount = 0 :=
  UInt32.toNat_inj.mp h.count

/-- The places of the window after the oldest entry has left. -/
theorem seqAt_next {s s' : Spool} (hs : s'.headSeq = s.headSeq + 1) (k : ℕ) :
    s'.seqAt k = s.seqAt (k + 1) := by
  calc s'.headSeq + UInt32.ofNat k = s.headSeq + 1 + UInt32.ofNat k := by rw [hs]
    _ = s.headSeq + (UInt32.ofNat k + 1) := by ac_rfl
    _ = s.headSeq + UInt32.ofNat (k + 1) := by rw [ofNat_succ32]

/-- The oldest entry leaves: the window of the rest, on a disk where the rest is intact. -/
theorem Window.leave {n : Node Disk} {x : Option Entry} {q : List (Option Entry)}
    (h : Window crc32Ieee c n (x :: q)) {d : Disk} {s : Spool} (hready : s.ready = true)
    (hhead : s.headSeq = n.ram.headSeq + 1) (htail : s.tailSeq = n.ram.tailSeq)
    (hcount : s.recCount = n.ram.recCount - 1) (hstats : s.stats.count = s.recCount)
    (hdisk : ∀ k e, q[k]? = some (some e) → Held crc32Ieee c n.disk (n.ram.seqAt (k + 1)) e →
      Held crc32Ieee c d (n.ram.seqAt (k + 1)) e) :
    Window crc32Ieee c ⟨d, s⟩ q where
  ready := hready
  count := by
    show s.recCount.toNat = q.length
    rw [hcount]
    exact toNat_pred h.count
  tail := by
    show s.tailSeq = s.seqAt q.length
    rw [htail, h.tail, seqAt_next hhead]
    rfl
  cap := by
    have := h.cap
    rw [List.length_cons] at this
    omega
  stats := hstats
  held := by
    intro k e hk
    show Held crc32Ieee c d (s.seqAt k) e
    rw [seqAt_next hhead]
    exact hdisk k e hk (h.held (k + 1) e hk)

theorem Window.skip {n : Node Disk} {x : Option Entry} {q : List (Option Entry)}
    (h : Window crc32Ieee c n (x :: q)) :
    Window crc32Ieee c ⟨n.disk, n.ram.skip⟩ q :=
  h.leave crc32Ieee c h.ready rfl rfl rfl rfl fun _ _ _ hk => hk

/-- Two sequence numbers with the same slot, both held, are the same. -/
theorem held_slotIdx_inj {d : Disk} {seq seq' : UInt32} {b b' : Bytes}
    (h : recordAt crc32Ieee c d seq = some b) (h' : recordAt crc32Ieee c d seq' = some b')
    (hs : slotIdx c seq = slotIdx c seq') : seq = seq' := by
  have h1 := (counts_of_acceptable crc32Ieee c ((recordAt_eq_some crc32Ieee c).mp h).1).2
  have h2 := (counts_of_acceptable crc32Ieee c ((recordAt_eq_some crc32Ieee c).mp h').1).2
  rw [← h1, ← h2, hs]

/-- Clearing another header keeps what is held. -/
theorem Held.blanked {d : Disk} {seq : UInt32} {e : Entry} {i : ℕ}
    (h : Held crc32Ieee c d seq e) (hi : i < c.nslots) (hne : i ≠ slotIdx c seq) :
    Held crc32Ieee c (blanked c i d) seq e := by
  refine ⟨?_, ?_⟩
  · rw [IotcDemos.blanked, recordAt_of_ne crc32Ieee c _ _ _ (by omega) hi hne]
    exact h.1
  · rw [IotcDemos.blanked, stampAt_of_ne c _ _ _ (by omega) hi (slotIdx_lt c _) hne]
    exact h.2

/-- A record that was found at the front is committed: the rest of the window stays. -/
theorem Window.commit {n : Node Disk} {x : Option Entry} {q : List (Option Entry)} {b : Bytes}
    (h : Window crc32Ieee c n (x :: q))
    (hb : recordAt crc32Ieee c n.disk n.ram.headSeq = some b) :
    Window crc32Ieee c ⟨blanked c (slotIdx c n.ram.headSeq) n.disk, n.ram.committed⟩ q := by
  refine h.leave crc32Ieee c h.ready rfl rfl rfl rfl ?_
  intro k e hk hheld
  have hne : slotIdx c n.ram.headSeq ≠ slotIdx c (n.ram.seqAt (k + 1)) := by
    intro hs
    have heq := held_slotIdx_inj crc32Ieee c hb hheld.1 hs
    rw [← seqAt_zero] at heq
    -- two places of one window have the same number only if they are the same place
    have hklt : k < q.length := (List.getElem?_eq_some_iff.mp hk).1
    have hcap := h.cap
    rw [List.length_cons] at hcap
    have hn := nslots_lt c
    have := add_ofNat_inj (by omega) (by omega) heq
    omega
  exact hheld.blanked crc32Ieee c (slotIdx_lt c _) hne

/-- Writing a record behind the window keeps what is held in other slots. -/
theorem Held.pushed {d : Disk} {seq tail : UInt32} {e : Entry} {json : Bytes}
    (h : Held crc32Ieee c d seq e) (hne : slotIdx c tail ≠ slotIdx c seq) :
    Held crc32Ieee c (pushed crc32Ieee c tail json d) seq e := by
  refine ⟨?_, ?_⟩
  · rw [IotcDemos.pushed, slotOf_eq, recordAt_of_ne crc32Ieee c _ _ _ (by decide)
      (slotIdx_lt c _) hne]
    exact h.1
  · rw [IotcDemos.pushed, slotOf_eq, stampAt_of_ne c _ _ _ (by decide) (slotIdx_lt c _)
      (slotIdx_lt c _) hne]
    exact h.2

/-- A record is appended to a window that is not full. -/
theorem Window.append {d : Disk} {s : Spool} {q : List (Option Entry)} {json : Bytes}
    (hready : s.ready = true) (hcount : s.recCount.toNat = q.length)
    (htail : s.tailSeq = s.seqAt q.length) (hroom : q.length < c.nslots)
    (hheld : ∀ k e, q[k]? = some (some e) → Held crc32Ieee c d (s.seqAt k) e)
    (hfree : ∀ k e, q[k]? = some (some e) → slotIdx c s.tailSeq ≠ slotIdx c (s.seqAt k))
    (hj : json.length ≤ spoolPayloadMax) :
    Window crc32Ieee c ⟨pushed crc32Ieee c s.tailSeq json d, s.appended⟩
      (q ++ [some (d.clock, json)]) where
  ready := hready
  count := by
    show (s.recCount + 1).toNat = _
    have hn := nslots_lt c
    rw [toNat_succ (by omega), hcount, List.length_append, List.length_singleton]
  tail := by
    have hlen : (q ++ [some (d.clock, json)]).length = q.length + 1 := by
      rw [List.length_append, List.length_singleton]
    calc s.tailSeq + 1 = s.headSeq + UInt32.ofNat q.length + 1 := by rw [htail, Spool.seqAt]
      _ = s.headSeq + UInt32.ofNat (q.length + 1) := by rw [ofNat_succ32, UInt32.add_assoc]
      _ = s.headSeq + UInt32.ofNat (q ++ [some (d.clock, json)]).length := by rw [hlen]
  cap := by
    rw [List.length_append, List.length_singleton]
    omega
  stats := rfl
  held := by
    intro k e hk
    show Held crc32Ieee c _ (s.seqAt k) e
    -- the entries that were there keep their places; the last place is the new record
    rcases Nat.lt_or_ge k q.length with hlt | hge
    · rw [List.getElem?_append_left hlt] at hk
      exact (hheld k e hk).pushed crc32Ieee c (hfree k e hk)
    · have hlen := (List.getElem?_eq_some_iff.mp hk).1
      rw [List.length_append, List.length_singleton] at hlen
      obtain rfl : k = q.length := by omega
      rw [List.getElem?_append_right (Nat.le_refl _), Nat.sub_self] at hk
      obtain rfl : (d.clock, json) = e := by simpa using hk
      rw [← htail]
      exact ⟨recordAt_pushed crc32Ieee c d hj, stampAt_pushed crc32Ieee c _ _ d⟩

/-- **`spool_push` on the window**: the oldest entry of a full window leaves, and the record is
appended. The slot at the tail must not be that of an entry that stays. -/
theorem Window.push {n : Node Disk} {q : List (Option Entry)} {json : Bytes}
    (h : Window crc32Ieee c n q) (hj : json.length ≤ spoolPayloadMax)
    (hfree : ∀ k e, q[k]? = some (some e) → q.length - c.nslots < k + 1 →
      q.length < k + c.nslots → slotIdx c (n.ram.seqAt k) ≠ slotIdx c n.ram.tailSeq) :
    Window crc32Ieee c (spoolPush Disk.reliable crc32Ieee c json n).2
      (Fifo.push c.nslots (some (n.disk.clock, json)) q) := by
  rw [spoolPush_eq crc32Ieee c h.ready hj, Fifo.push]
  by_cases hfull : q.length = c.nslots
  · rw [if_pos hfull]
    have hroom : n.ram.makeRoom c = n.ram.sacrifice := by
      rw [Spool.makeRoom, if_pos (by rw [h.count, hfull])]
    rw [hroom]
    cases q with
    | nil =>
        have := c.pos
        rw [List.length_nil] at hfull
        omega
    | cons x q =>
        -- the front entry leaves, and the rest moves up by one place
        have hseq : ∀ k, n.ram.sacrifice.seqAt k = n.ram.seqAt (k + 1) := seqAt_next rfl
        rw [List.length_cons] at hfull
        refine Window.append crc32Ieee c (s := n.ram.sacrifice) h.ready (toNat_pred h.count) ?_
          (by rw [List.tail_cons]; omega) ?_ ?_ hj
        · show n.ram.tailSeq = _
          rw [h.tail, hseq]
          rfl
        · intro k e hk
          rw [hseq]
          exact h.held (k + 1) e hk
        · intro k e hk
          rw [hseq]
          have hklt : k < q.length := (List.getElem?_eq_some_iff.mp hk).1
          refine (hfree (k + 1) e hk ?_ ?_).symm
          · rw [List.length_cons]
            omega
          · rw [List.length_cons]
            omega
  · rw [if_neg hfull]
    have hroom : n.ram.makeRoom c = n.ram := by
      rw [Spool.makeRoom, if_neg (by rw [h.count]; exact hfull)]
    rw [hroom]
    -- there is room
    have hcap := h.cap
    refine Window.append crc32Ieee c h.ready h.count h.tail (by omega) h.held ?_ hj
    intro k e hk
    have hklt : k < q.length := (List.getElem?_eq_some_iff.mp hk).1
    exact (hfree k e hk (by omega) (by omega)).symm

/-! ## What `spool_peek` finds -/

@[simp] theorem skips_headSeq (s : Spool) (j : ℕ) : (Spool.skip^[j] s).headSeq = s.seqAt j := by
  induction j generalizing s with
  | zero => rw [Function.iterate_zero, id, seqAt_zero]
  | succ j ih => rw [Function.iterate_succ_apply, ih, seqAt_next rfl]

@[simp] theorem skips_tailSeq (s : Spool) (j : ℕ) : (Spool.skip^[j] s).tailSeq = s.tailSeq := by
  induction j generalizing s with
  | zero => rfl
  | succ j ih => rw [Function.iterate_succ_apply, ih, Spool.skip]

@[simp] theorem skips_ready (s : Spool) (j : ℕ) : (Spool.skip^[j] s).ready = s.ready := by
  induction j generalizing s with
  | zero => rfl
  | succ j ih => rw [Function.iterate_succ_apply, ih, Spool.skip]

theorem skips_recCount {s : Spool} {j k : ℕ} (h : s.recCount.toNat = j + k) :
    (Spool.skip^[j] s).recCount.toNat = k := by
  induction j generalizing s with
  | zero => simpa using h
  | succ j ih =>
      rw [Function.iterate_succ_apply]
      exact ih (toNat_pred (by omega))

theorem skips_drops (s : Spool) (j : ℕ) :
    (Spool.skip^[j] s).stats.drops = s.stats.drops + UInt32.ofNat j := by
  induction j generalizing s with
  | zero => exact (UInt32.add_zero _).symm
  | succ j ih =>
      calc (Spool.skip^[j + 1] s).stats.drops = s.skip.stats.drops + UInt32.ofNat j := by
            rw [Function.iterate_succ_apply, ih]
        _ = s.stats.drops + 1 + UInt32.ofNat j := rfl
        _ = s.stats.drops + UInt32.ofNat (j + 1) := by
            rw [ofNat_succ32]
            ac_rfl

/-- Skipping takes entries off the front of the window. -/
theorem Window.skips {n : Node Disk} {q : List (Option Entry)} {j : ℕ}
    (h : Window crc32Ieee c n q) (hj : j ≤ q.length) :
    Window crc32Ieee c ⟨n.disk, Spool.skip^[j] n.ram⟩ (q.drop j) := by
  induction j generalizing n q with
  | zero => exact h
  | succ j ih =>
      cases q with
      | nil =>
          rw [List.length_nil] at hj
          omega
      | cons x q =>
          rw [List.length_cons] at hj
          rw [Function.iterate_succ_apply, List.drop_succ_cons]
          exact ih (h.skip crc32Ieee c) (by omega)

/-- Reading the front slot: the record, if it fits the buffer. -/
theorem acceptable_front {d : Disk} {seq : UInt32} (bufSize : ℕ) :
    acceptable crc32Ieee (slotBuf c d (slotIdx c seq)) seq bufSize = true ↔
      ∃ b, recordAt crc32Ieee c d seq = some b ∧ b.length < bufSize := by
  constructor
  · intro h
    obtain ⟨h1, h2, h3, h4, h5⟩ := (acceptable_iff crc32Ieee _ _ _).mp h
    have hrec : recordAt crc32Ieee c d seq
        = some (slotPayload (slotBuf c d (slotIdx c seq)) (hdrAt c d (slotIdx c seq)).len.toNat) :=
      (recordAt_eq_some crc32Ieee c).mpr
        ⟨(acceptable_iff crc32Ieee _ _ _).mpr ⟨h1, h2, h3, by omega, h5⟩, rfl⟩
    refine ⟨_, hrec, ?_⟩
    rw [(recordAt_length crc32Ieee c hrec).1]
    exact h4
  · rintro ⟨b, hb, hlt⟩
    have hlen := (recordAt_length crc32Ieee c hb).1
    obtain ⟨hacc, -⟩ := (recordAt_eq_some crc32Ieee c).mp hb
    obtain ⟨h1, h2, h3, -, h5⟩ := (acceptable_iff crc32Ieee _ _ _).mp hacc
    refine (acceptable_iff crc32Ieee _ _ _).mpr ⟨h1, h2, h3, ?_, h5⟩
    show (hdrAt c d (slotIdx c seq)).len.toNat < bufSize
    omega

/-- The answer of `spool_peek` on a window of `m` sequence numbers: it skips `j` slots, none of
which holds a record that fits the buffer, and then returns the record at the front, or the
window is used up. -/
structure Peeked (bufSize m : ℕ) (n : Node Disk) (r : Int × Option Bytes × Node Disk)
    (j : ℕ) : Prop where
  node : r.2.2 = ⟨n.disk, Spool.skip^[j] n.ram⟩
  passed : ∀ i b, i < j → recordAt crc32Ieee c n.disk (n.ram.seqAt i) = some b →
    bufSize ≤ b.length
  found : (r.1 = 0 ∧ r.2.1 = none ∧ j = m) ∨
    ∃ b, r.1 = b.length ∧ r.2.1 = some b ∧ j < m ∧ b.length < bufSize ∧
      recordAt crc32Ieee c n.disk (n.ram.seqAt j) = some b

theorem peekLoop_spec (bufSize m : ℕ) (n : Node Disk) :
    ∃ j, Peeked crc32Ieee c bufSize m n
      (peekLoop Disk.reliable crc32Ieee c bufSize m n) j := by
  induction m generalizing n with
  | zero => exact ⟨0, rfl, by omega, Or.inl ⟨rfl, rfl, rfl⟩⟩
  | succ m ih =>
      have hread : peekLoop Disk.reliable crc32Ieee c bufSize (m + 1) n
          = if acceptable crc32Ieee (slotBuf c n.disk (slotIdx c n.ram.headSeq)) n.ram.headSeq
              bufSize then
            (((hdrAt c n.disk (slotIdx c n.ram.headSeq)).len.toNat : Int),
              some (slotPayload (slotBuf c n.disk (slotIdx c n.ram.headSeq))
                (hdrAt c n.disk (slotIdx c n.ram.headSeq)).len.toNat), n)
          else peekLoop Disk.reliable crc32Ieee c bufSize m ⟨n.disk, n.ram.skip⟩ := rfl
      rw [hread]
      by_cases hacc : acceptable crc32Ieee (slotBuf c n.disk (slotIdx c n.ram.headSeq))
          n.ram.headSeq bufSize = true
      · -- the front record is returned
        rw [if_pos hacc]
        obtain ⟨b, hb, hlt⟩ := (acceptable_front crc32Ieee c bufSize).mp hacc
        have hpay := ((recordAt_eq_some crc32Ieee c).mp hb).2
        have hlen := (recordAt_length crc32Ieee c hb).1
        rw [hpay, ← hlen]
        refine ⟨0, rfl, by omega, Or.inr ⟨b, rfl, rfl, by omega, hlt, ?_⟩⟩
        rwa [seqAt_zero]
      · -- the front slot is skipped
        rw [if_neg hacc]
        obtain ⟨j, hj⟩ := ih ⟨n.disk, n.ram.skip⟩
        have hnext : ∀ k, n.ram.skip.seqAt k = n.ram.seqAt (k + 1) := seqAt_next rfl
        refine ⟨j + 1, ?_, ?_, ?_⟩
        · rw [hj.node, Function.iterate_succ_apply]
        · intro i b hi hb
          cases i with
          | zero =>
              rw [seqAt_zero] at hb
              by_contra hlt
              exact hacc ((acceptable_front crc32Ieee c bufSize).mpr ⟨b, hb, by omega⟩)
          | succ i => exact hj.passed i b (by omega) (by rw [hnext]; exact hb)
        · rcases hj.found with ⟨h1, h2, h3⟩ | ⟨b, h1, h2, h3, h4, h5⟩
          · exact Or.inl ⟨h1, h2, by rw [h3]⟩
          · rw [hnext] at h5
            exact Or.inr ⟨b, h1, h2, by omega, h4, h5⟩

/-- `spool_peek` writes nothing. -/
theorem peekLoop_disk (bufSize k : ℕ) (n : Node Disk) :
    (peekLoop Disk.reliable crc32Ieee c bufSize k n).2.2.disk = n.disk := by
  induction k generalizing n with
  | zero => rfl
  | succ k ih =>
      rw [peekLoop]
      show (if acceptable crc32Ieee (slotBuf c n.disk (slotIdx c n.ram.headSeq)) n.ram.headSeq
        bufSize = true then _ else _ : Int × Option Bytes × Node Disk).2.2.disk = n.disk
      split
      · rfl
      · exact ih ⟨n.disk, n.ram.skip⟩

theorem spoolPeek_disk (bufSize : ℕ) (n : Node Disk) :
    (spoolPeek Disk.reliable crc32Ieee c bufSize n).2.2.disk = n.disk := by
  rw [spoolPeek]
  split
  · rfl
  · exact peekLoop_disk crc32Ieee c bufSize n.ram.recCount.toNat n

/-- **`spool_peek` on a disk that works.** -/
theorem spoolPeek_spec (bufSize : ℕ) {n : Node Disk} (hr : n.ram.ready = true) :
    ∃ j, Peeked crc32Ieee c bufSize n.ram.recCount.toNat n
      (spoolPeek Disk.reliable crc32Ieee c bufSize n) j := by
  rw [spoolPeek, if_neg (by simp [hr])]
  exact peekLoop_spec crc32Ieee c bufSize _ n

theorem Peeked.le {bufSize m : ℕ} {n : Node Disk} {r : Int × Option Bytes × Node Disk} {j : ℕ}
    (h : Peeked crc32Ieee c bufSize m n r j) : j ≤ m := by
  rcases h.found with ⟨-, -, h3⟩ | ⟨b, -, -, h3, -, -⟩
  · exact Nat.le_of_eq h3
  · exact Nat.le_of_lt h3

end Window

end IotcDemos
