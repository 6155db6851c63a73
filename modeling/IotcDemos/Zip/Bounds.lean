import IotcDemos.Zip.Termination

set_option autoImplicit false

/-! # When the ZIP walk stays inside the download

The check `data_off + comp_size > len` bounds the end of an entry in 32-bit arithmetic. Where the
sum does not carry, it bounds the payload and all that is read of it. Where it does, only the few
bytes of the payload test can still lie in the download, and a payload that passes the test is
reported with a length that does not fit.
-/

namespace IotcDemos

namespace ZipWalker

/-- The number of bytes from the payload's start on that its test looks at, if it finds nothing. -/
def span : ZipWalker → ℕ
  | iotm => 4
  | model => 8

end ZipWalker

section Reads

variable {w : ZipWalker} {buf : Mem} {len : UInt32}

theorem mem_memcmpAt {buf : Mem} {lit : Bytes} {p i : ℕ} :
    i ∈ (memcmpAt buf p lit).1 ↔ p ≤ i ∧ i < p + lit.length := by
  unfold memcmpAt
  rw [List.mem_range'_1]

/-- A comparison behind a length check reads inside the payload. -/
theorem guarded_reads {lit : Bytes} {p q i : ℕ} {n least : UInt32}
    (hfits : q + lit.length ≤ p + least.toNat)
    (h : i ∈ (if n ≥ least then memcmpAt buf q lit else ([], false)).1) :
    i < p + n.toNat ∧ i < q + lit.length := by
  split at h
  next hn =>
    have hn' := UInt32.le_iff_toNat_le.mp hn
    have hi := mem_memcmpAt.mp h
    constructor <;> omega
  next => cases h

/-- `entry_is_model` reads what its two comparisons read. -/
theorem entryIsModel_reads {p i : ℕ} {n : UInt32} (h : i ∈ (entryIsModel buf p n).1) :
    i ∈ (if n ≥ iotvHdrLen then memcmpAt buf p iotvMagic else ([], false)).1 ∨
      i ∈ (if n ≥ 8 then memcmpAt buf (p + 4) tflMagic else ([], false)).1 := by
  unfold entryIsModel at h
  dsimp only at h
  generalize (if n ≥ iotvHdrLen then memcmpAt buf p iotvMagic else ([], false)) = iotv at h ⊢
  cases hfound : iotv.2 with
  | true => exact Or.inl (by simpa [hfound] using h)
  | false =>
      rw [hfound] at h
      exact List.mem_append.mp h

/-- The payload test reads inside the payload, and no further than its span. -/
theorem test_reads {p i : ℕ} {n : UInt32} (h : i ∈ (w.test buf p n).1) :
    i < p + n.toNat ∧ i < p + w.span := by
  cases w with
  | iotm => exact guarded_reads (p := p) (by simp [modelMagic, modelHdrLen]) h
  | model =>
      have hiotv : i ∈ (if n ≥ iotvHdrLen then memcmpAt buf p iotvMagic else ([], false)).1 →
          i < p + n.toNat ∧ i < p + 8 := by
        intro hmem
        obtain ⟨hpayload, hspan⟩ := guarded_reads (p := p) (by simp [iotvMagic, iotvHdrLen]) hmem
        exact ⟨hpayload, by simp [iotvMagic] at hspan; omega⟩
      have htfl : i ∈ (if n ≥ 8 then memcmpAt buf (p + 4) tflMagic else ([], false)).1 →
          i < p + n.toNat ∧ i < p + 8 := by
        intro hmem
        obtain ⟨hpayload, hspan⟩ := guarded_reads (p := p) (by simp [tflMagic, Nat.add_assoc]) hmem
        exact ⟨hpayload, by simp [tflMagic] at hspan; omega⟩
      exact (entryIsModel_reads h).elim hiotv htfl

/-- A payload test that finds nothing in a long payload has read up to its span. -/
theorem test_reads_span {p : ℕ} {n : UInt32} (hn : 64 ≤ n.toNat)
    (h : (w.test buf p n).2 = false) : p + w.span - 1 ∈ (w.test buf p n).1 := by
  cases w with
  | iotm =>
      have hlong : n ≥ modelHdrLen := UInt32.le_iff_toNat_le.mpr hn
      show p + 4 - 1 ∈ (entryIsIotm buf p n).1
      rw [entryIsIotm, if_pos hlong, mem_memcmpAt]
      simp only [modelMagic, List.length_cons, List.length_nil]
      omega
  | model =>
      have h32 : n ≥ iotvHdrLen := by
        have : iotvHdrLen.toNat = 32 := rfl
        exact UInt32.le_iff_toNat_le.mpr (by omega)
      have h8 : n ≥ 8 := by
        have : (8 : UInt32).toNat = 8 := rfl
        exact UInt32.le_iff_toNat_le.mpr (by omega)
      unfold ZipWalker.test entryIsModel at h ⊢
      simp only [if_pos h32, if_pos h8] at h ⊢
      -- the second comparison is made because the first one fails
      cases hiotv : (memcmpAt buf p iotvMagic).2 with
      | true => simp [hiotv] at h
      | false =>
          simp only [Bool.false_eq_true, if_false]
          apply List.mem_append_right
          rw [mem_memcmpAt]
          simp only [ZipWalker.span, tflMagic, List.length_cons, List.length_nil]
          omega

/-- Below `2^31` the loop condition does not wrap: the whole header lies in the download. -/
theorem headerRoom {off : UInt32} (hlen : len.toNat < 2 ^ 31) (hoff : off ≤ len)
    (h : off + zipLocalHdrLen ≤ len) : off.toNat + 30 ≤ len.toNat := by
  have hle := UInt32.le_iff_toNat_le.mp hoff
  have hroom := UInt32.le_iff_toNat_le.mp h
  rw [UInt32.toNat_add] at hroom
  have h30 : zipLocalHdrLen.toNat = 30 := rfl
  omega

/-- A name and an extra field do not take the payload's start far behind the header. -/
theorem dataOff_lt (buf : Mem) {off : UInt32} (hroom : off.toNat + 30 ≤ len.toNat) :
    (entryAt buf off).dataOff.toNat < len.toNat + 2 ^ 17 := by
  have hname := (le16At buf (off.toNat + 26)).toNat_lt
  have hextra := (le16At buf (off.toNat + 28)).toNat_lt
  have h30 : zipLocalHdrLen.toNat = 30 := rfl
  unfold entryAt
  simp only [UInt32.toNat_add, UInt16.toNat_toUInt32]
  omega

theorem headerReads_lt {off : UInt32} {i : ℕ} (h : i ∈ headerReads off) :
    i < off.toNat + 30 := by
  simp only [headerReads, List.mem_append, List.mem_range'_1] at h
  omega

/-- The payload of the entry at `off` ends past `2^32`. -/
def carries (buf : Mem) (off : UInt32) : Prop :=
  2 ^ 32 ≤ (entryAt buf off).dataOff.toNat + (entryAt buf off).compSize.toNat

/-- A carrying entry does no harm: what its test looks at is there, and it is no model. -/
def harmless (w : ZipWalker) (buf : Mem) (len off : UInt32) : Prop :=
  (entryAt buf off).dataOff.toNat + w.span ≤ len.toNat ∧ (payloadTest w buf off).2 = false

theorem payload_fits {off : UInt32} (h : Entered buf len off) (hc : ¬ carries buf off) :
    (entryAt buf off).dataOff.toNat + (entryAt buf off).compSize.toNat ≤ len.toNat := by
  have hend := UInt32.le_iff_toNat_le.mp h.checked
  rw [UInt32.toNat_add] at hend
  unfold carries at hc
  omega

/-- What a round reads lies in the download, and what it reports does, if a carrying stored
entry does no harm. -/
theorem zipRound_inside {off : UInt32} (seen : Bool) (hlen : len.toNat < 2 ^ 31) (hoff : off ≤ len)
    (h : Entered buf len off → (entryAt buf off).stored = true → carries buf off →
      harmless w buf len off) :
    (∀ i ∈ (zipRound w buf len off seen).1, i < len.toNat) ∧
      ∀ p n, (zipRound w buf len off seen).2 = .done (.ok (p, n)) →
        p.toNat + n.toNat ≤ len.toNat := by
  by_cases hent : Entered buf len off
  · have hroom := headerRoom hlen hoff hent.isOpen.1
    rw [zipRound_entered seen hent]
    by_cases hstored : (entryAt buf off).stored = true
    · have htest : payloadTest w buf off =
          w.test buf (entryAt buf off).dataOff.toNat (entryAt buf off).compSize := by
        rw [payloadTest, if_pos hstored]
      constructor
      · intro i hi
        rcases List.mem_append.mp hi with hi | hi
        · have := headerReads_lt hi
          omega
        · rw [htest] at hi
          obtain ⟨hpayload, hspan⟩ := test_reads hi
          -- a payload that does not carry lies in the download as a whole
          by_cases hc : carries buf off
          · have := (h hent hstored hc).1
            omega
          · have := payload_fits hent hc
            omega
      · intro p n hdone
        by_cases hc : carries buf off
        · simp [(h hent hstored hc).2] at hdone
        · cases hmodel : (payloadTest w buf off).2 with
          | false => simp [hmodel] at hdone
          | true =>
              rw [hmodel] at hdone
              cases hdone
              exact payload_fits hent hc
    · have htest : payloadTest w buf off = ([], false) := by
        rw [payloadTest, if_neg hstored]
      rw [htest]
      constructor
      · intro i hi
        have := headerReads_lt (by simpa using hi)
        omega
      · intro p n hdone
        simp at hdone
  -- no entry is looked into
  · obtain ⟨msg, hdone, hreads⟩ := zipRound_stops (w := w) seen hent
    constructor
    · intro i hi
      rcases hreads with hnone | ⟨hopen, hsig | hheader⟩
      · rw [hnone] at hi
        cases hi
      · rw [hsig, List.mem_range'_1] at hi
        have := headerRoom hlen hoff hopen
        omega
      · rw [hheader] at hi
        have := headerRoom hlen hoff hopen
        have := headerReads_lt hi
        omega
    · intro p n hok
      rw [hdone] at hok
      cases hok

/-- Conversely, a round inside the download finds carrying stored entries harmless. -/
theorem harmless_of_inside {off : UInt32} (seen : Bool) (hlen : len.toNat < 2 ^ 31)
    (hoff : off ≤ len)
    (hreads : ∀ i ∈ (zipRound w buf len off seen).1, i < len.toNat)
    (hresult : ∀ p n, (zipRound w buf len off seen).2 = .done (.ok (p, n)) →
      p.toNat + n.toNat ≤ len.toNat)
    (hent : Entered buf len off) (hstored : (entryAt buf off).stored = true)
    (hc : carries buf off) : harmless w buf len off := by
  rw [zipRound_entered seen hent] at hreads hresult
  unfold carries at hc
  have hnomodel : (payloadTest w buf off).2 = false := by
    cases hmodel : (payloadTest w buf off).2 with
    | false => rfl
    | true =>
        have := hresult _ _ (by rw [hmodel]; rfl)
        omega
  refine ⟨?_, hnomodel⟩
  -- a carrying payload is long, so its test looks at the whole span
  have hspan : (entryAt buf off).dataOff.toNat + w.span - 1 ∈ (payloadTest w buf off).1 := by
    rw [payloadTest, if_pos hstored] at hnomodel ⊢
    have hdata := dataOff_lt buf (headerRoom hlen hoff hent.isOpen.1)
    exact test_reads_span (by omega) hnomodel
  have := hreads _ (List.mem_append_right _ hspan)
  have : 0 < w.span := by cases w <;> decide
  omega

/-! ## The rounds of a walk -/

/-- Everything a loop reads or returns comes from a round at one of its offsets. -/
theorem zipLoop_rounds (w : ZipWalker) (buf : Mem) (len : UInt32) (k : ℕ) (off : UInt32)
    (seen : Bool) :
    (∀ x ∈ (zipLoop w buf len k off seen).1, ∃ i o s, offAfter w buf len i off = some o ∧
        x ∈ (zipRound w buf len o s).1) ∧
      ∀ r, (zipLoop w buf len k off seen).2 = some r → ∃ i o s, offAfter w buf len i off = some o ∧
        (zipRound w buf len o s).2 = .done r := by
  induction k generalizing off seen with
  | zero => simp [zipLoop]
  | succ k ih =>
      unfold zipLoop
      cases hround : (zipRound w buf len off seen).2 with
      | done r =>
          have hpair : zipRound w buf len off seen =
              ((zipRound w buf len off seen).1, .done r) := by rw [← hround]
          rw [hpair]
          constructor
          · intro x hx
            exact ⟨0, off, seen, rfl, hx⟩
          · intro r' hr'
            obtain rfl : r = r' := Option.some.inj hr'
            exact ⟨0, off, seen, rfl, hround⟩
      | more off' seen' =>
          have hpair : zipRound w buf len off seen =
              ((zipRound w buf len off seen).1, .more off' seen') := by rw [← hround]
          -- the next offset does not depend on `compressed_seen`
          have hnext : nextOff w buf len off = some off' := by
            by_cases hent : Entered buf len off
            · rw [zipRound_entered seen hent] at hround
              cases hmodel : (payloadTest w buf off).2 with
              | true => simp [hmodel] at hround
              | false =>
                  simp only [hmodel, Bool.false_eq_true, if_false, ZipRound.more.injEq] at hround
                  exact nextOff_eq_some.mpr ⟨hent, hmodel, hround.1.symm⟩
            · obtain ⟨msg, hdone, -⟩ := zipRound_stops (w := w) seen hent
              rw [hdone] at hround
              cases hround
          have hlater : ∀ i o, offAfter w buf len i off' = some o →
              offAfter w buf len (i + 1) off = some o := by
            intro i o ho
            rw [offAfter, hnext]
            exact ho
          rw [hpair]
          obtain ⟨hreads, hresult⟩ := ih off' seen'
          constructor
          · intro x hx
            rcases List.mem_append.mp hx with hx | hx
            · exact ⟨0, off, seen, rfl, hx⟩
            · obtain ⟨i, o, s, ho, hmem⟩ := hreads x hx
              exact ⟨i + 1, o, s, hlater i o ho, hmem⟩
          · intro r hr
            obtain ⟨i, o, s, ho, hdone⟩ := hresult r hr
            exact ⟨i + 1, o, s, hlater i o ho, hdone⟩

/-- A loop of more than `i` rounds reads and returns what the round at its offset `i` does. -/
theorem zipLoop_visits {i : ℕ} {off o : UInt32} (seen : Bool)
    (ho : offAfter w buf len i off = some o) : ∃ s,
      (∀ x ∈ (zipRound w buf len o s).1, x ∈ (zipLoop w buf len (i + 1) off seen).1) ∧
        ∀ r, (zipRound w buf len o s).2 = .done r →
          (zipLoop w buf len (i + 1) off seen).2 = some r := by
  induction i generalizing off seen with
  | zero =>
      obtain rfl : off = o := Option.some.inj ho
      refine ⟨seen, ?_⟩
      unfold zipLoop
      rcases zipRound w buf len off seen with ⟨reads, r | ⟨off', seen'⟩⟩
      · refine ⟨fun x hx => hx, ?_⟩
        intro r' hr'
        cases hr'
        rfl
      · refine ⟨fun x hx => List.mem_append_left _ hx, ?_⟩
        intro r' hr'
        cases hr'
  | succ i ih =>
      obtain ⟨off', hnext, hrest⟩ := Option.bind_eq_some_iff.mp ho
      obtain ⟨hent, hmodel, rfl⟩ := nextOff_eq_some.mp hnext
      obtain ⟨s, hreads, hresult⟩ := ih (seen || (entryAt buf off).method != 0) hrest
      refine ⟨s, ?_, ?_⟩
      · intro x hx
        rw [zipLoop, zipRound_entered seen hent, hmodel]
        exact List.mem_append_right _ (hreads x hx)
      · intro r hr
        rw [zipLoop, zipRound_entered seen hent, hmodel]
        exact hresult r hr

/-- A body that is no archive is rejected by its first bytes. -/
theorem zipFind_no_archive (h : len < zipLocalHdrLen ∨ ¬ memcmpEq buf 0 pkSignature = true)
    (rounds : ℕ) : (zipFind w buf len rounds).2 = some (.error "not a zip archive") ∧
      ∀ i ∈ (zipFind w buf len rounds).1, i < len.toNat := by
  unfold zipFind
  by_cases hshort : len < zipLocalHdrLen
  · simp [hshort]
  · have hsig : ¬ memcmpEq buf 0 pkSignature = true := h.resolve_left hshort
    rw [if_neg hshort, if_pos hsig]
    refine ⟨rfl, fun i hi => ?_⟩
    have h30 : zipLocalHdrLen.toNat = 30 := rfl
    have hroom := UInt32.le_iff_toNat_le.mp (UInt32.not_lt.mp hshort)
    have := (List.mem_range'_1.mp hi).2
    omega

theorem zipFind_archive (h : ¬ (len < zipLocalHdrLen ∨ ¬ memcmpEq buf 0 pkSignature = true))
    (rounds : ℕ) : zipFind w buf len rounds =
      (List.range' 0 4 ++ (zipLoop w buf len rounds 0 false).1,
        (zipLoop w buf len rounds 0 false).2) := by
  obtain ⟨hshort, hsig⟩ := not_or.mp h
  rw [zipFind, if_neg hshort, if_neg hsig]

/-- A reported payload is the one of an entry that the walk looked into. -/
theorem zipAnswer_ok {p n : UInt32} (h : zipAnswer w buf len = some (.ok (p, n))) :
    ∃ i off, zipOff w buf len i = some off ∧ Entered buf len off ∧
      (payloadTest w buf off).2 = true ∧ p = (entryAt buf off).dataOff ∧
      n = (entryAt buf off).compSize := by
  unfold zipAnswer at h
  by_cases harchive : len < zipLocalHdrLen ∨ ¬ memcmpEq buf 0 pkSignature = true
  · rw [(zipFind_no_archive harchive _).1] at h
    cases h
  · rw [zipFind_archive harchive] at h
    obtain ⟨i, off, s, hoff, hdone⟩ := (zipLoop_rounds w buf len _ 0 false).2 _ h
    have hvisited : zipOff w buf len i = some off := by rwa [zipOff, if_neg harchive]
    by_cases hent : Entered buf len off
    · rw [zipRound_entered s hent] at hdone
      cases hmodel : (payloadTest w buf off).2 with
      | true =>
          simp only [hmodel, if_true, ZipRound.done.injEq, Except.ok.injEq, Prod.mk.injEq] at hdone
          exact ⟨i, off, hvisited, hent, hmodel, hdone.1.symm, hdone.2.symm⟩
      | false => simp [hmodel] at hdone
    · obtain ⟨msg, hstop, -⟩ := zipRound_stops (w := w) s hent
      rw [hstop] at hdone
      cases hdone

end Reads

/-- The walk stays inside the download, for any number of rounds: every read lies in it, and so
does the payload that is reported, from its start to its end. -/
def StaysInside (w : ZipWalker) (buf : Mem) (len : UInt32) : Prop :=
  ∀ rounds, (∀ i ∈ (zipFind w buf len rounds).1, i < len.toNat) ∧
    ∀ p n, (zipFind w buf len rounds).2 = some (.ok (p, n)) → p.toNat + n.toNat ≤ len.toNat

section Inside

variable {w : ZipWalker} {buf : Mem} {len : UInt32}

theorem staysInside_no_archive
    (h : len < zipLocalHdrLen ∨ ¬ memcmpEq buf 0 pkSignature = true) : StaysInside w buf len := by
  intro rounds
  obtain ⟨hresult, hreads⟩ := zipFind_no_archive (w := w) h rounds
  refine ⟨hreads, fun p n hok => ?_⟩
  rw [hresult] at hok
  cases hok

variable (hlen : len.toNat < 2 ^ 31)
  (harchive : ¬ (len < zipLocalHdrLen ∨ ¬ memcmpEq buf 0 pkSignature = true))
include hlen harchive

/-- One more round than to an offset of the walk looks into the entry there. -/
theorem StaysInside.harmless_at (h : StaysInside w buf len) {i : ℕ} {off : UInt32}
    (hoff : offAfter w buf len i 0 = some off) (hent : Entered buf len off)
    (hstored : (entryAt buf off).stored = true) (hc : carries buf off) :
    harmless w buf len off := by
  obtain ⟨s, hreads, hresult⟩ := zipLoop_visits false hoff
  have hround := h (i + 1)
  rw [zipFind_archive harchive] at hround
  refine harmless_of_inside s hlen (offAfter_le UInt32.zero_le hoff) ?_ ?_ hent hstored hc
  · intro x hx
    exact hround.1 x (List.mem_append_right _ (hreads x hx))
  · intro p n hdone
    exact hround.2 p n (hresult _ hdone)

theorem staysInside_of_harmless
    (h : ∀ i off, offAfter w buf len i 0 = some off → Entered buf len off →
      (entryAt buf off).stored = true → carries buf off → harmless w buf len off) :
    StaysInside w buf len := by
  intro rounds
  -- each round of the loop is at an offset of the walk, and inside the download there
  have hround : ∀ i o s, offAfter w buf len i 0 = some o →
      (∀ x ∈ (zipRound w buf len o s).1, x < len.toNat) ∧
        ∀ p n, (zipRound w buf len o s).2 = .done (.ok (p, n)) →
          p.toNat + n.toNat ≤ len.toNat := by
    intro i o s ho
    exact zipRound_inside s hlen (offAfter_le UInt32.zero_le ho) (h i o ho)
  obtain ⟨hreads, hresult⟩ := zipLoop_rounds w buf len rounds 0 false
  rw [zipFind_archive harchive]
  constructor
  · intro x hx
    rcases List.mem_append.mp hx with hx | hx
    · have hroom := UInt32.le_iff_toNat_le.mp (UInt32.not_lt.mp (not_or.mp harchive).1)
      have h30 : zipLocalHdrLen.toNat = 30 := rfl
      have := (List.mem_range'_1.mp hx).2
      omega
    · obtain ⟨i, o, s, ho, hmem⟩ := hreads x hx
      exact (hround i o s ho).1 x hmem
  · intro p n hok
    obtain ⟨i, o, s, ho, hdone⟩ := hresult _ hok
    exact (hround i o s ho).2 p n hdone

end Inside

/-- **The walk stays inside the download** exactly when every stored entry it looks into whose
payload ends past `2^32` has the bytes of the payload test in the download and fails the test.
A download fits its staging buffer, of 8192 and 512 * 1024 bytes in the two demos. -/
theorem zip_walk_stays_inside_iff (w : ZipWalker) (buf : Mem) (len : UInt32)
    (hlen : len.toNat < 2 ^ 31) :
    StaysInside w buf len ↔
      ∀ i off, zipOff w buf len i = some off → Entered buf len off →
        (entryAt buf off).stored = true → carries buf off → harmless w buf len off := by
  by_cases harchive : len < zipLocalHdrLen ∨ ¬ memcmpEq buf 0 pkSignature = true
  · constructor
    · intro _ i off hoff
      rw [zipOff, if_pos harchive] at hoff
      cases hoff
    · intro _
      exact staysInside_no_archive harchive
  · have hoffs : ∀ i, zipOff w buf len i = offAfter w buf len i 0 := fun i => by
      rw [zipOff, if_neg harchive]
    simp only [hoffs]
    constructor
    · intro hinside i off hoff hent hstored hc
      exact hinside.harmless_at hlen harchive hoff hent hstored hc
    · exact staysInside_of_harmless hlen harchive

/-- A stored entry with no name, an extra field of `extra` bytes and a size that ends it at the
start of the archive, followed by `rest`. -/
def carryingZip (extra : UInt16) (rest : Bytes) : Mem := fun i =>
  ([0x50, 0x4B, 3, 4, 20, 0, 0, 0, 0, 0, 0, 0, 0, 0, 0, 0, 0, 0] ++
    toLe32 (0 - zipLocalHdrLen - extra.toUInt32) ++ [0, 0, 0, 0, 0, 0] ++ toLe16 extra
    ++ rest).getD i 0

theorem zip_walk_stays_inside_carrying : (94 : UInt32).toNat < 2 ^ 31 ∧
    (StaysInside .iotm (carryingZip 0 modelMagic) 94 ↔
      ∀ i off, zipOff .iotm (carryingZip 0 modelMagic) 94 i = some off →
        Entered (carryingZip 0 modelMagic) 94 off →
          (entryAt (carryingZip 0 modelMagic) off).stored = true →
            carries (carryingZip 0 modelMagic) off →
              harmless .iotm (carryingZip 0 modelMagic) 94 off) :=
  ⟨by decide, zip_walk_stays_inside_iff .iotm (carryingZip 0 modelMagic) 94 (by decide)⟩

/-- Each walk reports a payload of almost 4 GiB in a download of 94 bytes, and reads behind a
download of 30 bytes. -/
theorem zip_walk_leaves_download :
    (zipFind .iotm (carryingZip 0 modelMagic) 94 1).2 = some (.ok (30, 4294967266)) ∧
      (zipFind .model (carryingZip 0 iotvMagic) 94 1).2 = some (.ok (30, 4294967266)) ∧
      1030 ∈ (zipFind .iotm (carryingZip 1000 []) 30 1).1 ∧
      1030 ∈ (zipFind .model (carryingZip 1000 []) 30 1).1 ∧
      ¬ StaysInside .iotm (carryingZip 0 modelMagic) 94 ∧
      ¬ StaysInside .model (carryingZip 0 iotvMagic) 94 := by
  have hiotm : (zipFind .iotm (carryingZip 0 modelMagic) 94 1).2 =
      some (.ok (30, 4294967266)) := by decide +kernel
  have hmodel : (zipFind .model (carryingZip 0 iotvMagic) 94 1).2 =
      some (.ok (30, 4294967266)) := by decide +kernel
  refine ⟨hiotm, hmodel, by decide +kernel, by decide +kernel, ?_, ?_⟩
  · intro h
    exact absurd ((h 1).2 _ _ hiotm) (by decide)
  · intro h
    exact absurd ((h 1).2 _ _ hmodel) (by decide)

end IotcDemos
