import IotcDemos.Lib.Bytes

set_option autoImplicit false

/-! # The ZIP walk (`zip_find_iotm_stored`, `zip_find_model_stored`)

Both demos that take models from the cloud walk the local-file entries of a downloaded archive
for a stored payload that is a model; the two functions differ in the test of the payload and in
their messages. `size_t` has 32 bits. A pointer into the buffer is an offset from its start, and
`buf i` is the byte there, whether or not `i` lies inside the download. A function that reads
memory also answers with the offsets it read.
-/

namespace IotcDemos

/-- The memory from the start of the download buffer on. -/
abbrev Mem := ℕ → UInt8

/-- `memcmp(buf + i, lit, sizeof lit) == 0`, which reads that many bytes. -/
def memcmpEq (buf : Mem) : ℕ → Bytes → Bool
  | _, [] => true
  | i, x :: xs => buf i == x && memcmpEq buf (i + 1) xs

def memcmpAt (buf : Mem) (i : ℕ) (lit : Bytes) : List ℕ × Bool :=
  (List.range' i lit.length, memcmpEq buf i lit)

/-- `"PK\x03\x04"`. -/
def pkSignature : Bytes := [0x50, 0x4B, 3, 4]

/-- `"IOTM"`, `"IOTV"` and `"TFL3"`. -/
def modelMagic : Bytes := [73, 79, 84, 77]
def iotvMagic : Bytes := [73, 79, 84, 86]
def tflMagic : Bytes := [84, 70, 76, 51]

def zipLocalHdrLen : UInt32 := 30
def modelHdrLen : UInt32 := 64
def iotvHdrLen : UInt32 := 32

/-- The two copies of the walk: `zip_find_iotm_stored` and `zip_find_model_stored`. -/
inductive ZipWalker where
  | iotm
  | model
  deriving DecidableEq

/-- The payload test of `zip_find_iotm_stored`. -/
def entryIsIotm (buf : Mem) (p : ℕ) (len : UInt32) : List ℕ × Bool :=
  if len ≥ modelHdrLen then memcmpAt buf p modelMagic else ([], false)

/-- `entry_is_model`, the payload test of `zip_find_model_stored`. -/
def entryIsModel (buf : Mem) (p : ℕ) (len : UInt32) : List ℕ × Bool :=
  let iotv := if len ≥ iotvHdrLen then memcmpAt buf p iotvMagic else ([], false)
  if iotv.2 then iotv
  else
    let tfl := if len ≥ 8 then memcmpAt buf (p + 4) tflMagic else ([], false)
    (iotv.1 ++ tfl.1, tfl.2)

namespace ZipWalker

def test : ZipWalker → Mem → ℕ → UInt32 → List ℕ × Bool
  | iotm => entryIsIotm
  | model => entryIsModel

/-- The answer when no entry is left. -/
def nothingFound : ZipWalker → Bool → String
  | iotm, true => "no stored IOTM entry (a zip entry is compressed; use 'store')"
  | iotm, false => "no IOTM entry found in zip"
  | model, true => "no stored model entry (zip is compressed; use 'store')"
  | model, false => "no model entry found in zip"

end ZipWalker

/-- What the loop body reads from a local-file header. -/
structure ZipEntry where
  flags : UInt16
  method : UInt16
  compSize : UInt32
  dataOff : UInt32

def entryAt (buf : Mem) (off : UInt32) : ZipEntry where
  flags := le16At buf (off.toNat + 6)
  method := le16At buf (off.toNat + 8)
  compSize := le32At buf (off.toNat + 18)
  dataOff := off + zipLocalHdrLen + (le16At buf (off.toNat + 26)).toUInt32
    + (le16At buf (off.toNat + 28)).toUInt32

def ZipEntry.streaming (e : ZipEntry) : Bool := e.flags &&& 0x08 != 0

def ZipEntry.stored (e : ZipEntry) : Bool := e.method == 0 && (e.flags &&& 0x01) == 0

/-- The offsets read from the header at `off`, the signature first. -/
def headerReads (off : UInt32) : List ℕ :=
  List.range' off.toNat 4 ++ List.range' (off.toNat + 6) 2 ++ List.range' (off.toNat + 8) 2
    ++ List.range' (off.toNat + 18) 4 ++ List.range' (off.toNat + 26) 2
    ++ List.range' (off.toNat + 28) 2

/-- The result of a walk: an error text, or the offset and the length of the payload. -/
abbrev ZipResult := Except String (UInt32 × UInt32)

/-- One round of the loop: it returns, or it goes on at `off` with `compressed_seen`. -/
inductive ZipRound where
  | done (r : ZipResult)
  | more (off : UInt32) (compressedSeen : Bool)

section Walk

variable (w : ZipWalker) (buf : Mem) (len : UInt32)

def zipRound (off : UInt32) (compressedSeen : Bool) : List ℕ × ZipRound :=
  -- the loop condition, with a sum of 32 bits
  if ¬ off + zipLocalHdrLen ≤ len then ([], .done (.error (w.nothingFound compressedSeen)))
  else if ¬ memcmpEq buf off.toNat pkSignature then
    (List.range' off.toNat 4, .done (.error (w.nothingFound compressedSeen)))
  else
    let e := entryAt buf off
    if e.streaming then (headerReads off, .done (.error "zip uses a streaming data descriptor"))
    -- the check of the end, again with a sum of 32 bits
    else if e.dataOff + e.compSize > len then
      (headerReads off, .done (.error "zip entry truncated"))
    else
      let payload := if e.stored then w.test buf e.dataOff.toNat e.compSize else ([], false)
      if payload.2 then (headerReads off ++ payload.1, .done (.ok (e.dataOff, e.compSize)))
      else
        (headerReads off ++ payload.1,
          .more (e.dataOff + e.compSize) (compressedSeen || e.method != 0))

/-- The loop; `none` when it has not ended after so many rounds. -/
def zipLoop : (rounds : ℕ) → UInt32 → Bool → List ℕ × Option ZipResult
  | 0, _, _ => ([], none)
  | k + 1, off, compressedSeen =>
      match zipRound w buf len off compressedSeen with
      | (reads, .done r) => (reads, some r)
      | (reads, .more off' seen') =>
          let (reads', r) := zipLoop k off' seen'
          (reads ++ reads', r)

/-- `zip_find_iotm_stored` or `zip_find_model_stored`, for at most so many rounds. -/
def zipFind (rounds : ℕ) : List ℕ × Option ZipResult :=
  if len < zipLocalHdrLen then ([], some (.error "not a zip archive"))
  else if ¬ memcmpEq buf 0 pkSignature then
    (List.range' 0 4, some (.error "not a zip archive"))
  else
    let (reads, r) := zipLoop w buf len rounds 0 false
    (List.range' 0 4 ++ reads, r)

/-! ## The offsets of a walk -/

/-- The offset the walk goes on at after the entry at `off`, if it goes on. -/
def nextOff (off : UInt32) : Option UInt32 :=
  match (zipRound w buf len off false).2 with
  | .done _ => none
  | .more off' _ => some off'

/-- The offset after `i` rounds from `off`. -/
def offAfter : ℕ → UInt32 → Option UInt32
  | 0, off => some off
  | i + 1, off => (nextOff w buf len off).bind (offAfter i)

/-- The offset at the start of round `i` of the walk. -/
def zipOff (i : ℕ) : Option UInt32 :=
  if len < zipLocalHdrLen ∨ ¬ memcmpEq buf 0 pkSignature then none else offAfter w buf len i 0

/-! ## What one round does -/

/-- The loop condition holds at `off`. -/
def entryOpen (off : UInt32) : Prop :=
  off + zipLocalHdrLen ≤ len ∧ memcmpEq buf off.toNat pkSignature = true

/-- The walk looks into the entry at `off`: no data descriptor, and its end passes the check. -/
structure Entered (off : UInt32) : Prop where
  isOpen : entryOpen buf len off
  plain : (entryAt buf off).streaming = false
  checked : (entryAt buf off).dataOff + (entryAt buf off).compSize ≤ len

/-- The payload test in a round, with its reads; entries that are not stored are not tested. -/
def payloadTest (off : UInt32) : List ℕ × Bool :=
  if (entryAt buf off).stored then
    w.test buf (entryAt buf off).dataOff.toNat (entryAt buf off).compSize
  else ([], false)

/-- The end of the entry at `off`, where the next one is expected. -/
def entryEnd (off : UInt32) : UInt32 := (entryAt buf off).dataOff + (entryAt buf off).compSize

variable {w buf len}

/-- A round that does not look into an entry reads headers only, and ends the walk. -/
theorem zipRound_stops {off : UInt32} (seen : Bool) (h : ¬ Entered buf len off) :
    ∃ msg, (zipRound w buf len off seen).2 = .done (.error msg) ∧
      ((zipRound w buf len off seen).1 = [] ∨
        off + zipLocalHdrLen ≤ len ∧
          ((zipRound w buf len off seen).1 = List.range' off.toNat 4 ∨
            (zipRound w buf len off seen).1 = headerReads off)) := by
  by_cases hroom : off + zipLocalHdrLen ≤ len
  · by_cases hsig : memcmpEq buf off.toNat pkSignature = true
    · by_cases hstream : (entryAt buf off).streaming = true
      · have hround : zipRound w buf len off seen = (headerReads off,
            .done (.error "zip uses a streaming data descriptor")) := by
          simp [zipRound, hroom, hsig, hstream]
        exact ⟨_, by rw [hround], Or.inr ⟨hroom, Or.inr (by rw [hround])⟩⟩
      · by_cases hend : (entryAt buf off).dataOff + (entryAt buf off).compSize > len
        · have hround : zipRound w buf len off seen = (headerReads off,
              .done (.error "zip entry truncated")) := by
            simp only [zipRound, hroom, hsig, hstream, hend, not_true_eq_false, if_false, if_true,
              Bool.false_eq_true]
          exact ⟨_, by rw [hround], Or.inr ⟨hroom, Or.inr (by rw [hround])⟩⟩
        · exact absurd ⟨⟨hroom, hsig⟩, by simpa using hstream, UInt32.not_lt.mp hend⟩ h
    · have hround : zipRound w buf len off seen = (List.range' off.toNat 4,
          .done (.error (w.nothingFound seen))) := by
        simp [zipRound, hroom, hsig]
      exact ⟨_, by rw [hround], Or.inr ⟨hroom, Or.inl (by rw [hround])⟩⟩
  · have hround : zipRound w buf len off seen = ([], .done (.error (w.nothingFound seen))) := by
      simp only [zipRound, hroom, not_false_eq_true, if_true]
    exact ⟨_, by rw [hround], Or.inl (by rw [hround])⟩

/-- A round that looks into an entry tests its payload, and returns it or goes on at its end. -/
theorem zipRound_entered {off : UInt32} (seen : Bool) (h : Entered buf len off) :
    zipRound w buf len off seen = (headerReads off ++ (payloadTest w buf off).1,
      if (payloadTest w buf off).2 then
        .done (.ok ((entryAt buf off).dataOff, (entryAt buf off).compSize))
      else .more (entryEnd buf off) (seen || (entryAt buf off).method != 0)) := by
  obtain ⟨⟨hroom, hsig⟩, hplain, hchecked⟩ := h
  unfold zipRound
  rw [if_neg (not_not.mpr hroom), if_neg (not_not.mpr hsig)]
  simp only [hplain, Bool.false_eq_true, if_false, if_neg (UInt32.not_lt.mpr hchecked)]
  show (if (payloadTest w buf off).2 then (_, _) else (_, _)) = _
  cases (payloadTest w buf off).2 <;> rfl

/-- The walk goes on exactly behind entries it looked into and whose payload is no model. -/
theorem nextOff_eq_some {off off' : UInt32} :
    nextOff w buf len off = some off' ↔
      Entered buf len off ∧ (payloadTest w buf off).2 = false ∧ off' = entryEnd buf off := by
  unfold nextOff
  by_cases h : Entered buf len off
  · rw [zipRound_entered false h]
    cases (payloadTest w buf off).2 <;> simp [h, eq_comm]
  · obtain ⟨msg, hdone, -⟩ := zipRound_stops (w := w) false h
    rw [hdone]
    simp [h]

theorem offAfter_succ (i : ℕ) (off : UInt32) :
    offAfter w buf len (i + 1) off = (offAfter w buf len i off).bind (nextOff w buf len) := by
  induction i generalizing off with
  | zero =>
      show (nextOff w buf len off).bind (fun o => some o) = nextOff w buf len off
      cases nextOff w buf len off <;> rfl
  | succ i ih =>
      show (nextOff w buf len off).bind (offAfter w buf len (i + 1)) = _
      rw [offAfter, Option.bind_assoc]
      congr 1
      funext off'
      exact ih off'

/-- Every offset of a walk that starts inside the buffer lies inside it. -/
theorem offAfter_le {i : ℕ} {off off' : UInt32} (hoff : off ≤ len)
    (h : offAfter w buf len i off = some off') : off' ≤ len := by
  cases i with
  | zero =>
      obtain rfl := Option.some.inj h
      exact hoff
  | succ i =>
      rw [offAfter_succ] at h
      obtain ⟨o, -, hnext⟩ := Option.bind_eq_some_iff.mp h
      obtain ⟨hent, -, rfl⟩ := nextOff_eq_some.mp hnext
      exact hent.checked

end Walk

end IotcDemos
