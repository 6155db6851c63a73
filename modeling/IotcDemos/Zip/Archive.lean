import IotcDemos.Zip.Termination

set_option autoImplicit false

/-! # The walk over a well-formed archive

An archive is a list of local-file entries with correct sizes, one behind the other, and a central
directory behind them. On such an archive the walk visits the entries in order, whatever their
payloads look like, and returns the first one that is a model for it (`zip_finds_first_model`).
-/

namespace IotcDemos

/-- A local-file entry whose sizes are correct, without a data descriptor. -/
structure LocalEntry where
  version : UInt16
  flags : UInt16
  method : UInt16
  modTime : UInt16
  modDate : UInt16
  crc : UInt32
  uncompSize : UInt32
  name : Bytes
  extra : Bytes
  data : Bytes
  plain : flags &&& 0x08 = 0
  nameFits : name.length < 2 ^ 16
  extraFits : extra.length < 2 ^ 16
  dataFits : data.length < 2 ^ 32

namespace LocalEntry

variable (e : LocalEntry)

/-- The 30 bytes of the local-file header. -/
def header : Bytes :=
  pkSignature ++ toLe16 e.version ++ toLe16 e.flags ++ toLe16 e.method ++ toLe16 e.modTime ++
    toLe16 e.modDate ++ toLe32 e.crc ++ toLe32 (UInt32.ofNat e.data.length) ++
    toLe32 e.uncompSize ++ toLe16 (UInt16.ofNat e.name.length) ++
    toLe16 (UInt16.ofNat e.extra.length)

def bytes : Bytes := e.header ++ (e.name ++ (e.extra ++ e.data))

/-- Neither compressed nor encrypted. -/
def stored : Bool := e.method == 0 && (e.flags &&& 0x01) == 0

def compressed : Bool := e.method != 0

/-- The entry is a stored model of the kind that the walker looks for. -/
def isModel : ZipWalker → Bool
  | .iotm => e.stored && (64 ≤ e.data.length && e.data.take 4 == modelMagic)
  | .model => e.stored && ((32 ≤ e.data.length && e.data.take 4 == iotvMagic) ||
      (8 ≤ e.data.length && (e.data.drop 4).take 4 == tflMagic))

/-- The payload lies behind the header, the name and the extra field. -/
def dataOff : ℕ := 30 + e.name.length + e.extra.length

end LocalEntry

/-- `"PK\x01\x02"`, which the central directory starts with. -/
def centralSignature : Bytes := [0x50, 0x4B, 1, 2]

/-- An archive below `2^31` bytes with at least one entry. -/
structure Archive where
  entries : List LocalEntry
  central : Bytes
  nonempty : entries ≠ []
  directory : centralSignature <+: central
  small : (entries.flatMap LocalEntry.bytes ++ central).length < 2 ^ 31

def Archive.bytes (a : Archive) : Bytes := a.entries.flatMap LocalEntry.bytes ++ a.central

/-- What the walk answers on an archive at the start of `buf`: the first model, in place, or the
reason why there is none. -/
structure FindsFirst (w : ZipWalker) (a : Archive) (buf : Mem) : Prop where
  found : ∀ pre e post, a.entries = pre ++ e :: post → (∀ x ∈ pre, x.isModel w = false) →
    e.isModel w = true → ∃ p n, zipAnswer w buf (UInt32.ofNat a.bytes.length) = some (.ok (p, n)) ∧
      p.toNat = (pre.flatMap LocalEntry.bytes).length + e.dataOff ∧ n.toNat = e.data.length ∧
      bytesAt buf p.toNat n.toNat = e.data
  missing : (∀ e ∈ a.entries, e.isModel w = false) →
    zipAnswer w buf (UInt32.ofNat a.bytes.length) =
      some (.error (w.nothingFound (a.entries.any LocalEntry.compressed)))

/-! ## One entry -/

theorem memcmpEq_iff {buf : Mem} {p : ℕ} {lit : Bytes} :
    memcmpEq buf p lit = true ↔ bytesAt buf p lit.length = lit := by
  induction lit generalizing p with
  | nil => simp [memcmpEq, bytesAt]
  | cons x lit ih =>
      have hcons : bytesAt buf p (lit.length + 1) = buf p :: bytesAt buf (p + 1) lit.length := by
        simp [bytesAt, List.range'_succ]
      rw [memcmpEq, Bool.and_eq_true, ih, List.length_cons, hcons, List.cons.injEq, beq_iff_eq]

namespace LocalEntry

variable {w : ZipWalker} {buf : Mem} {len off : UInt32} {e : LocalEntry}

theorem header_length (e : LocalEntry) : e.header.length = 30 := rfl

theorem bytes_length (e : LocalEntry) : e.bytes.length = e.dataOff + e.data.length := by
  simp only [bytes, List.length_append, header_length, dataOff]
  omega

theorem liesAt_header (h : LiesAt buf off.toNat e.bytes) : LiesAt buf off.toNat e.header :=
  (liesAt_append.mp h).1

/-- The payload lies at its offset. -/
theorem liesAt_data (h : LiesAt buf off.toNat e.bytes) :
    LiesAt buf (off.toNat + e.dataOff) e.data := by
  have hname := (liesAt_append.mp h).2
  have hextra := (liesAt_append.mp hname).2
  have hdata := (liesAt_append.mp hextra).2
  rw [header_length] at hdata
  have hoff : off.toNat + 30 + e.name.length + e.extra.length = off.toNat + e.dataOff := by
    unfold dataOff
    omega
  rwa [hoff] at hdata

/-- What the walk reads from the header. -/
theorem header_fields (h : LiesAt buf off.toNat e.bytes) :
    memcmpEq buf off.toNat pkSignature = true ∧ le16At buf (off.toNat + 6) = e.flags ∧
      le16At buf (off.toNat + 8) = e.method ∧
      le32At buf (off.toNat + 18) = UInt32.ofNat e.data.length ∧
      le16At buf (off.toNat + 26) = UInt16.ofNat e.name.length ∧
      le16At buf (off.toNat + 28) = UInt16.ofNat e.extra.length := by
  have hheader := liesAt_header h
  simp only [header, List.append_assoc, liesAt_append, toLe16_length, toLe32_length, pkSignature,
    List.length_cons, List.length_nil, Nat.reduceAdd, Nat.add_assoc] at hheader
  -- the fields in the order of the header
  obtain ⟨hsig, -, hflags, hmethod, -, -, -, hcomp, -, hname, hextra⟩ := hheader
  exact ⟨memcmpEq_iff.mpr hsig, hflags.le16, hmethod.le16, hcomp.le32, hname.le16, hextra.le16⟩

/-- A comparison behind a length check, in the payload. -/
theorem guarded_compare {buf : Mem} {p : ℕ} {data : Bytes} (i : ℕ) (lit : Bytes) (least : UInt32)
    (h : LiesAt buf p data) (hdata : data.length < 2 ^ 32) (hlit : i + lit.length ≤ least.toNat) :
    (if UInt32.ofNat data.length ≥ least then memcmpAt buf (p + i) lit else ([], false)).2 =
      (decide (least.toNat ≤ data.length) && (data.drop i).take lit.length == lit) := by
  have hsize : (UInt32.ofNat data.length).toNat = data.length := UInt32.toNat_ofNat_of_lt' hdata
  have hge : UInt32.ofNat data.length ≥ least ↔ least.toNat ≤ data.length := by
    rw [ge_iff_le, UInt32.le_iff_toNat_le, hsize]
  by_cases hlong : least.toNat ≤ data.length
  · have hslice := h.slice (i := i) (n := lit.length) (by omega)
    rw [if_pos (hge.mpr hlong), decide_eq_true hlong, Bool.true_and, ← hslice, Bool.eq_iff_iff,
      beq_iff_eq]
    exact memcmpEq_iff
  · rw [if_neg fun h => hlong (hge.mp h), decide_eq_false hlong, Bool.false_and]

theorem entryIsModel_snd (buf : Mem) (p : ℕ) (len : UInt32) : (entryIsModel buf p len).2 =
    ((if len ≥ iotvHdrLen then memcmpAt buf p iotvMagic else ([], false)).2 ||
      (if len ≥ 8 then memcmpAt buf (p + 4) tflMagic else ([], false)).2) := by
  unfold entryIsModel
  generalize (if len ≥ iotvHdrLen then memcmpAt buf p iotvMagic else ([], false)) = iotv
  obtain ⟨reads, found⟩ := iotv
  cases found <;> rfl

/-- The payload test recognises the models of the walker. -/
theorem test_data {p : ℕ} (h : LiesAt buf p e.data) :
    (e.stored && (w.test buf p (UInt32.ofNat e.data.length)).2) = e.isModel w := by
  -- each walker has its own magic numbers
  cases w with
  | iotm =>
      have hmagic := guarded_compare 0 modelMagic modelHdrLen h e.dataFits (by decide)
      exact congrArg (e.stored && ·) hmagic
  | model =>
      have hiotv := guarded_compare 0 iotvMagic iotvHdrLen h e.dataFits (by decide)
      have htfl := guarded_compare 4 tflMagic 8 h e.dataFits (by decide)
      refine congrArg (e.stored && ·) ?_
      show (entryIsModel buf p _).2 = _
      rw [Nat.add_zero] at hiotv
      rw [entryIsModel_snd, hiotv, htfl]
      rfl

section AtEntry

variable (h : LiesAt buf off.toNat e.bytes) (hroom : off.toNat + e.bytes.length ≤ len.toNat)
  (hlen : len.toNat < 2 ^ 31)
include h hroom hlen

theorem entryAt_dataOff : (entryAt buf off).dataOff.toNat = off.toNat + e.dataOff := by
  obtain ⟨-, -, -, -, hname, hextra⟩ := header_fields h
  have hn : (UInt16.ofNat e.name.length).toNat = e.name.length :=
    UInt16.toNat_ofNat_of_lt' e.nameFits
  have hx : (UInt16.ofNat e.extra.length).toNat = e.extra.length :=
    UInt16.toNat_ofNat_of_lt' e.extraFits
  have h30 : zipLocalHdrLen.toNat = 30 := rfl
  rw [bytes_length] at hroom
  simp only [entryAt, hname, hextra, UInt32.toNat_add, UInt16.toNat_toUInt32, hn, hx, h30, dataOff]
    at hroom ⊢
  omega

theorem entryEnd_bytes : (entryEnd buf off).toNat = off.toNat + e.bytes.length := by
  obtain ⟨-, -, -, hcomp, -, -⟩ := header_fields h
  have hdata : (entryAt buf off).dataOff.toNat = off.toNat + e.dataOff :=
    entryAt_dataOff h hroom hlen
  have hsize : (entryAt buf off).compSize.toNat = e.data.length := by
    show (le32At buf (off.toNat + 18)).toNat = _
    rw [hcomp]
    exact UInt32.toNat_ofNat_of_lt' e.dataFits
  rw [bytes_length] at hroom ⊢
  rw [entryEnd, UInt32.toNat_add, hdata, hsize]
  omega

/-- The walk looks into the entry. -/
theorem entered : Entered buf len off := by
  obtain ⟨hsig, hflags, -⟩ := header_fields h
  have hend : (entryEnd buf off).toNat = off.toNat + e.bytes.length := entryEnd_bytes h hroom hlen
  refine ⟨⟨?_, hsig⟩, ?_, ?_⟩
  · have h30 : zipLocalHdrLen.toNat = 30 := rfl
    rw [bytes_length, dataOff] at hroom
    rw [UInt32.le_iff_toNat_le, UInt32.toNat_add, h30]
    omega
  · show (le16At buf (off.toNat + 6) &&& 0x08 != 0) = false
    rw [hflags, e.plain]
    rfl
  · show entryEnd buf off ≤ len
    rw [UInt32.le_iff_toNat_le, hend]
    exact hroom

/-- A round at an entry returns its payload, or goes on behind it. -/
theorem zipRound_entry (seen : Bool) : (zipRound w buf len off seen).2 =
    if e.isModel w then .done (.ok ((entryAt buf off).dataOff, UInt32.ofNat e.data.length))
    else .more (entryEnd buf off) (seen || e.compressed) := by
  obtain ⟨-, hflags, hmethod, hcomp, -, -⟩ := header_fields h
  have hstored : (entryAt buf off).stored = e.stored := by
    show (le16At buf (off.toNat + 8) == 0 && (le16At buf (off.toNat + 6) &&& 0x01) == 0) = _
    rw [hflags, hmethod]
    rfl
  have htest : (payloadTest w buf off).2 = e.isModel w := by
    have hdata := entryAt_dataOff h hroom hlen
    have hsize : (entryAt buf off).compSize = UInt32.ofNat e.data.length := hcomp
    rw [← test_data (liesAt_data h), payloadTest, hstored, hdata, hsize]
    cases e.stored <;> rfl
  rw [zipRound_entered seen (entered h hroom hlen), htest]
  have hcompressed : ((entryAt buf off).method != 0) = e.compressed := by
    show (le16At buf (off.toNat + 8) != 0) = _
    rw [hmethod]
    rfl
  have hsize : (entryAt buf off).compSize = UInt32.ofNat e.data.length := hcomp
  rw [hcompressed, hsize]

end AtEntry

end LocalEntry

/-! ## The loop -/

section Loop

variable {w : ZipWalker} {buf : Mem} {len off : UInt32} {k : ℕ} {seen : Bool}

/-- A round that returns ends the loop. -/
theorem zipLoop_done {r : ZipResult} (h : (zipRound w buf len off seen).2 = .done r) :
    (zipLoop w buf len (k + 1) off seen).2 = some r := by
  rw [zipLoop]
  generalize zipRound w buf len off seen = round at h
  obtain ⟨reads, action⟩ := round
  obtain rfl : action = .done r := h
  rfl

theorem zipLoop_more {off' : UInt32} {seen' : Bool}
    (h : (zipRound w buf len off seen).2 = .more off' seen') :
    (zipLoop w buf len (k + 1) off seen).2 = (zipLoop w buf len k off' seen').2 := by
  rw [zipLoop]
  generalize zipRound w buf len off seen = round at h
  obtain ⟨reads, action⟩ := round
  obtain rfl : action = .more off' seen' := h
  rfl

/-- The walk steps over entries that are no models for it. -/
theorem zipLoop_entries {pre : List LocalEntry} {rest : Bytes}
    (h : LiesAt buf off.toNat (pre.flatMap LocalEntry.bytes ++ rest))
    (hroom : off.toNat + (pre.flatMap LocalEntry.bytes ++ rest).length ≤ len.toNat)
    (hlen : len.toNat < 2 ^ 31) (hpre : ∀ x ∈ pre, x.isModel w = false) (k : ℕ) (seen : Bool) :
    ∃ off', off'.toNat = off.toNat + (pre.flatMap LocalEntry.bytes).length ∧
      (zipLoop w buf len (k + pre.length) off seen).2 =
        (zipLoop w buf len k off' (seen || pre.any LocalEntry.compressed)).2 := by
  induction pre generalizing off seen with
  | nil => exact ⟨off, rfl, by simp⟩
  | cons e pre ih =>
      rw [List.flatMap_cons, List.append_assoc] at h hroom
      rw [List.length_append] at hroom
      obtain ⟨hfirst, hrest⟩ := liesAt_append.mp h
      have hin : off.toNat + e.bytes.length ≤ len.toNat := by omega
      have hend := LocalEntry.entryEnd_bytes hfirst hin hlen
      have hround := LocalEntry.zipRound_entry (w := w) hfirst hin hlen seen
      rw [hpre e List.mem_cons_self] at hround
      rw [← hend] at hrest
      obtain ⟨off', hoff', hloop⟩ := ih hrest (by rw [hend]; omega)
        (fun x hx => hpre x (List.mem_cons_of_mem _ hx)) (seen || e.compressed)
      refine ⟨off', ?_, ?_⟩
      · rw [hoff', hend, List.flatMap_cons, List.length_append, Nat.add_assoc]
      · calc (zipLoop w buf len (k + pre.length + 1) off seen).2
            = (zipLoop w buf len (k + pre.length) (entryEnd buf off) (seen || e.compressed)).2 :=
              zipLoop_more hround
          _ = _ := hloop
          _ = _ := by rw [List.any_cons, Bool.or_assoc]

/-- The walk ends at the central directory. -/
theorem zipLoop_central {central : Bytes} (hdir : centralSignature <+: central)
    (h : LiesAt buf off.toNat central) :
    (zipLoop w buf len (k + 1) off seen).2 = some (.error (w.nothingFound seen)) := by
  obtain ⟨rest, rfl⟩ := hdir
  have hsig : bytesAt buf off.toNat 4 = centralSignature := (liesAt_append.mp h).1
  -- the two signatures differ
  have hno : memcmpEq buf off.toNat pkSignature = false := by
    rw [Bool.eq_false_iff, Ne, memcmpEq_iff]
    show ¬ bytesAt buf off.toNat 4 = pkSignature
    rw [hsig]
    decide
  apply zipLoop_done
  unfold zipRound
  split
  · rfl
  · simp [hno]

end Loop

/-- Every entry takes at least one byte. -/
theorem length_le_flatMap (es : List LocalEntry) :
    es.length ≤ (es.flatMap LocalEntry.bytes).length := by
  induction es with
  | nil => simp
  | cons e es ih =>
      have hpos : 0 < e.bytes.length := by
        rw [LocalEntry.bytes_length, LocalEntry.dataOff]
        omega
      rw [List.flatMap_cons, List.length_append, List.length_cons]
      omega

namespace Archive

variable {w : ZipWalker} {buf : Mem} {a : Archive}

theorem len_toNat (a : Archive) : (UInt32.ofNat a.bytes.length).toNat = a.bytes.length :=
  UInt32.toNat_ofNat_of_lt' (a.small.trans (by decide))

theorem bytes_eq (a : Archive) : ∃ e rest, a.bytes = LocalEntry.bytes e ++ rest := by
  obtain ⟨e, es, hes⟩ := List.exists_cons_of_ne_nil a.nonempty
  exact ⟨e, _, by rw [Archive.bytes, hes, List.flatMap_cons, List.append_assoc]⟩

/-- An archive starts with a header. -/
theorem starts (h : LiesAt buf 0 a.bytes) :
    30 ≤ a.bytes.length ∧ memcmpEq buf 0 pkSignature = true := by
  obtain ⟨e, rest, hbytes⟩ := a.bytes_eq
  rw [hbytes] at h
  have hfirst : LiesAt buf (0 : UInt32).toNat e.bytes := (liesAt_append.mp h).1
  refine ⟨?_, (LocalEntry.header_fields hfirst).1⟩
  rw [hbytes, List.length_append, LocalEntry.bytes_length, LocalEntry.dataOff]
  omega

/-- An archive passes the checks in front of the loop. -/
theorem zipAnswer_archive (h : LiesAt buf 0 a.bytes) :
    zipAnswer w buf (UInt32.ofNat a.bytes.length) =
      (zipLoop w buf (UInt32.ofNat a.bytes.length) (a.bytes.length + 2) 0 false).2 := by
  obtain ⟨hlength, hsig⟩ := starts h
  have hlong : ¬ UInt32.ofNat a.bytes.length < zipLocalHdrLen := by
    have h30 : zipLocalHdrLen.toNat = 30 := rfl
    rw [UInt32.lt_iff_toNat_lt, len_toNat, h30]
    omega
  rw [zipAnswer, zipFind, if_neg hlong, if_neg (not_not.mpr hsig), len_toNat]

/-- The walk reaches the entry behind entries that are no models for it. -/
theorem zipAnswer_reaches (h : LiesAt buf 0 a.bytes) {pre : List LocalEntry} {rest : Bytes}
    (hsplit : a.bytes = pre.flatMap LocalEntry.bytes ++ rest)
    (hpre : ∀ x ∈ pre, x.isModel w = false) :
    ∃ off k, off.toNat = (pre.flatMap LocalEntry.bytes).length ∧ LiesAt buf off.toNat rest ∧
      off.toNat + rest.length = a.bytes.length ∧
      zipAnswer w buf (UInt32.ofNat a.bytes.length) =
        (zipLoop w buf (UInt32.ofNat a.bytes.length) (k + 1) off
          (pre.any LocalEntry.compressed)).2 := by
  have hcount := length_le_flatMap pre
  have hlength : a.bytes.length = (pre.flatMap LocalEntry.bytes).length + rest.length := by
    rw [hsplit, List.length_append]
  have hlies : LiesAt buf (0 : UInt32).toNat (pre.flatMap LocalEntry.bytes ++ rest) := hsplit ▸ h
  have hroom : (0 : UInt32).toNat + (pre.flatMap LocalEntry.bytes ++ rest).length ≤
      (UInt32.ofNat a.bytes.length).toNat := by
    rw [len_toNat, ← hsplit]
    exact (Nat.zero_add _).le
  have hsmall : (UInt32.ofNat a.bytes.length).toNat < 2 ^ 31 := by
    rw [len_toNat]
    exact a.small
  obtain ⟨off, hoff, hloop⟩ := zipLoop_entries hlies hroom hsmall hpre
    (a.bytes.length + 1 - pre.length + 1) false
  have hoff' : off.toNat = (pre.flatMap LocalEntry.bytes).length := hoff.trans (Nat.zero_add _)
  refine ⟨off, a.bytes.length + 1 - pre.length, hoff', ?_, by omega, ?_⟩
  · have hrest := (liesAt_append.mp hlies).2
    rwa [← hoff] at hrest
  · -- the loop has a round for every entry, and two more
    have hrounds : a.bytes.length + 2 = a.bytes.length + 1 - pre.length + 1 + pre.length := by omega
    rw [zipAnswer_archive h, hrounds, hloop, Bool.false_or]

/-- The first model of an archive is found where it lies. -/
theorem zipAnswer_found (h : LiesAt buf 0 a.bytes) {pre post : List LocalEntry} {e : LocalEntry}
    (hes : a.entries = pre ++ e :: post) (hpre : ∀ x ∈ pre, x.isModel w = false)
    (hmodel : e.isModel w = true) :
    ∃ p n, zipAnswer w buf (UInt32.ofNat a.bytes.length) = some (.ok (p, n)) ∧
      p.toNat = (pre.flatMap LocalEntry.bytes).length + e.dataOff ∧ n.toNat = e.data.length ∧
      bytesAt buf p.toNat n.toNat = e.data := by
  have hsplit : a.bytes = pre.flatMap LocalEntry.bytes ++
      (e.bytes ++ (post.flatMap LocalEntry.bytes ++ a.central)) := by
    simp [Archive.bytes, hes]
  obtain ⟨off, k, hoff, hlies, hlength, hanswer⟩ := zipAnswer_reaches h hsplit hpre
  have hentry : LiesAt buf off.toNat e.bytes := (liesAt_append.mp hlies).1
  have hroom : off.toNat + e.bytes.length ≤ (UInt32.ofNat a.bytes.length).toNat := by
    rw [len_toNat, ← hlength, List.length_append]
    omega
  have hsmall : (UInt32.ofNat a.bytes.length).toNat < 2 ^ 31 := by
    rw [len_toNat]
    exact a.small
  have hround := LocalEntry.zipRound_entry (w := w) hentry hroom hsmall
    (pre.any LocalEntry.compressed)
  rw [hmodel] at hround
  have hdata := LocalEntry.entryAt_dataOff hentry hroom hsmall
  have hsize : (UInt32.ofNat e.data.length).toNat = e.data.length :=
    UInt32.toNat_ofNat_of_lt' e.dataFits
  refine ⟨_, _, hanswer.trans (zipLoop_done hround), ?_, hsize, ?_⟩
  · rw [hdata, hoff]
  · rw [hsize, hdata]
    exact LocalEntry.liesAt_data hentry

/-- Without a model the walk comes to the central directory. -/
theorem zipAnswer_missing (h : LiesAt buf 0 a.bytes)
    (hnone : ∀ e ∈ a.entries, e.isModel w = false) :
    zipAnswer w buf (UInt32.ofNat a.bytes.length) =
      some (.error (w.nothingFound (a.entries.any LocalEntry.compressed))) := by
  obtain ⟨off, k, -, hlies, -, hanswer⟩ := zipAnswer_reaches h rfl hnone
  exact hanswer.trans (zipLoop_central a.directory hlies)

end Archive

/-- **The walk finds exactly the first stored model.** On a well-formed archive below `2^31` bytes,
whatever lies behind it in memory, each walker returns the bytes of the first entry that is a model
for it, in place; if there is none, it names compression as the reason exactly when some entry is
compressed. -/
theorem zip_finds_first_model (w : ZipWalker) (a : Archive) (buf : Mem)
    (h : bytesAt buf 0 a.bytes.length = a.bytes) : FindsFirst w a buf := by
  constructor
  · intro pre e post hes hpre hmodel
    exact Archive.zipAnswer_found h hes hpre hmodel
  · intro hnone
    exact Archive.zipAnswer_missing h hnone

/-- An entry of version 2.0 without an extra field. -/
def smallEntry (method : UInt16) (name : Bytes) (data : Bytes) (hname : name.length < 2 ^ 16)
    (hdata : data.length < 2 ^ 32) : LocalEntry where
  version := 20
  flags := 0
  method := method
  modTime := 0
  modDate := 0
  crc := 0
  uncompSize := UInt32.ofNat data.length
  name := name
  extra := []
  data := data
  plain := rfl
  nameFits := hname
  extraFits := Nat.two_pow_pos 16
  dataFits := hdata

/-- A compressed manifest that looks like a header, and a stored model of 64 bytes. -/
def smallArchive : Archive where
  entries :=
    [smallEntry 8 (ascii "manifest.json") pkSignature (by decide) (by decide),
      smallEntry 0 (ascii "model.bin") (modelMagic ++ List.replicate 60 0) (by decide) (by decide)]
  central := centralSignature
  nonempty := List.cons_ne_nil _ _
  directory := List.prefix_rfl
  small := by decide +kernel

theorem zip_finds_first_model_small :
    FindsFirst .iotm smallArchive (byteAt smallArchive.bytes) :=
  zip_finds_first_model .iotm smallArchive _ (by decide +kernel)

end IotcDemos
