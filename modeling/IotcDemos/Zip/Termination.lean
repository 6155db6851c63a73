import IotcDemos.Zip.Walk

set_option autoImplicit false

/-! # When the ZIP walk ends

A round that goes on moves the offset by the size its entry declares, in 32-bit arithmetic. The
walk moves forward in every round, and then ends after at most `len + 1` rounds, exactly when no
size of an entry it steps over vanishes modulo `2^32` or carries the offset past `2^32`.
-/

namespace IotcDemos

/-- The size the entry at `off` declares: its header, name, extra field and data. -/
def entrySize (buf : Mem) (off : UInt32) : ℕ :=
  zipLocalHdrLen.toNat + (le16At buf (off.toNat + 26)).toNat
    + (le16At buf (off.toNat + 28)).toNat + (le32At buf (off.toNat + 18)).toNat

section Forward

variable {w : ZipWalker} {buf : Mem} {len : UInt32}

theorem entryEnd_toNat (off : UInt32) :
    (entryEnd buf off).toNat = (off.toNat + entrySize buf off) % 2 ^ 32 := by
  unfold entryEnd entryAt entrySize
  simp only [UInt32.toNat_add, UInt16.toNat_toUInt32]
  omega

/-- An entry moves the walk forward exactly when its size does, modulo `2^32`, without a carry. -/
theorem lt_entryEnd_iff (off : UInt32) :
    off < entryEnd buf off ↔ entrySize buf off % 2 ^ 32 ≠ 0 ∧
      off.toNat + entrySize buf off % 2 ^ 32 < 2 ^ 32 := by
  have hoff : off.toNat < 2 ^ 32 := off.toNat_lt
  rw [UInt32.lt_iff_toNat_lt, entryEnd_toNat]
  constructor
  · intro h
    constructor <;> omega
  · rintro ⟨hsize, hcarry⟩
    omega

/-- The loop is still going after `k` rounds exactly when it has an offset for the next one. -/
theorem zipLoop_open_iff (k : ℕ) (off : UInt32) (seen : Bool) :
    (zipLoop w buf len k off seen).2 = none ↔ ∃ o, offAfter w buf len k off = some o := by
  induction k generalizing off seen with
  | zero => simp [zipLoop, offAfter]
  | succ k ih =>
      by_cases h : Entered buf len off
      · unfold zipLoop offAfter
        rw [zipRound_entered seen h]
        -- a model ends the walk; otherwise it goes on at the end of the entry
        cases hmodel : (payloadTest w buf off).2 with
        | true =>
            have hnext : nextOff w buf len off = none := by
              unfold nextOff
              rw [zipRound_entered false h, hmodel]
              rfl
            simp [hnext]
        | false =>
            have hnext : nextOff w buf len off = some (entryEnd buf off) :=
              nextOff_eq_some.mpr ⟨h, hmodel, rfl⟩
            simpa [hnext] using ih (entryEnd buf off) _
      · have hnext : nextOff w buf len off = none := by
          cases hoff : nextOff w buf len off with
          | none => rfl
          | some off' => exact absurd (nextOff_eq_some.mp hoff).1 h
        obtain ⟨msg, hdone, -⟩ := zipRound_stops (w := w) seen h
        unfold zipLoop offAfter
        generalize zipRound w buf len off seen = round at hdone ⊢
        obtain ⟨reads, action⟩ := round
        obtain rfl : action = _ := hdone
        simp [hnext]

/-- The walk has not ended after `k` rounds exactly when round `k` has an offset. -/
theorem zipFind_open_iff (k : ℕ) :
    (zipFind w buf len k).2 = none ↔ ∃ o, zipOff w buf len k = some o := by
  unfold zipFind zipOff
  by_cases hlen : len < zipLocalHdrLen
  · simp [hlen]
  · by_cases hsig : memcmpEq buf 0 pkSignature = true
    · simpa [hlen, hsig] using zipLoop_open_iff (w := w) k 0 false
    · simp [hlen, hsig]

theorem zipOff_succ (i : ℕ) :
    zipOff w buf len (i + 1) = (zipOff w buf len i).bind (nextOff w buf len) := by
  unfold zipOff
  split
  · rfl
  · exact offAfter_succ i 0

theorem zipOff_le {i : ℕ} {off : UInt32} (h : zipOff w buf len i = some off) : off ≤ len := by
  unfold zipOff at h
  split at h
  · cases h
  · exact offAfter_le (UInt32.zero_le) h

/-- The offset of a walk that moves forward in every round is at least the number of rounds. -/
theorem le_zipOff (hforward : ∀ i off off', zipOff w buf len i = some off →
      zipOff w buf len (i + 1) = some off' → off < off')
    {i : ℕ} {off : UInt32} (h : zipOff w buf len i = some off) : i ≤ off.toNat := by
  induction i generalizing off with
  | zero => exact Nat.zero_le _
  | succ i ih =>
      have hprev := h
      rw [zipOff_succ] at hprev
      obtain ⟨o, ho, -⟩ := Option.bind_eq_some_iff.mp hprev
      have hlt := UInt32.lt_iff_toNat_lt.mp (hforward i o off ho h)
      calc i + 1 ≤ o.toNat + 1 := Nat.succ_le_succ (ih ho)
        _ ≤ off.toNat := hlt

/-- A walk that moves forward in every round ends: its offsets do not pass the length. -/
theorem zipFind_ends (hforward : ∀ i off off', zipOff w buf len i = some off →
      zipOff w buf len (i + 1) = some off' → off < off') :
    ∃ r, (zipFind w buf len (len.toNat + 1)).2 = some r := by
  cases hfind : (zipFind w buf len (len.toNat + 1)).2 with
  | some r => exact ⟨r, rfl⟩
  | none =>
      obtain ⟨o, ho⟩ := (zipFind_open_iff _).mp hfind
      -- round `len + 1` would start behind the download
      have habsurd : len.toNat + 1 ≤ len.toNat :=
        calc len.toNat + 1 ≤ o.toNat := le_zipOff hforward ho
          _ ≤ len.toNat := UInt32.le_iff_toNat_le.mp (zipOff_le ho)
      exact absurd habsurd (Nat.not_succ_le_self _)

/-! ## The answer of a walk -/

/-- A walk that comes back to an offset goes on from there as it did before. -/
theorem zipOff_repeats {i j : ℕ} (h : zipOff w buf len i = zipOff w buf len j) (k : ℕ) :
    zipOff w buf len (i + k) = zipOff w buf len (j + k) := by
  induction k with
  | zero => exact h
  | succ k ih =>
      calc zipOff w buf len (i + k + 1)
          = (zipOff w buf len (i + k)).bind (nextOff w buf len) := zipOff_succ _
        _ = (zipOff w buf len (j + k)).bind (nextOff w buf len) := by rw [ih]
        _ = zipOff w buf len (j + k + 1) := (zipOff_succ _).symm

/-- A walk that is going on in round `k` went on in every round before. -/
theorem zipOff_before {i k : ℕ} (hik : i ≤ k) (h : zipOff w buf len i = none) :
    zipOff w buf len k = none := by
  induction k, hik using Nat.le_induction with
  | base => exact h
  | succ k _ ih =>
      rw [zipOff_succ, ih]
      rfl

/-- A walk still going after `len + 2` rounds has come back to an offset, and never ends. -/
theorem zipOff_forever {o : UInt32} (h : zipOff w buf len (len.toNat + 2) = some o) (k : ℕ) :
    zipOff w buf len k ≠ none := by
  have hsome : ∀ i, i ≤ len.toNat + 2 → ∃ o, zipOff w buf len i = some o := by
    intro i hi
    cases hoff : zipOff w buf len i with
    | some o => exact ⟨o, rfl⟩
    | none => rw [zipOff_before hi hoff] at h; cases h
  -- more rounds than offsets: two rounds start at the same one
  obtain ⟨i, hi, j, hj, hne, heq⟩ : ∃ i ∈ Finset.range (len.toNat + 2),
      ∃ j ∈ Finset.range (len.toNat + 2), i ≠ j ∧
        ((zipOff w buf len i).map UInt32.toNat).getD 0 =
          ((zipOff w buf len j).map UInt32.toNat).getD 0 := by
    refine Finset.exists_ne_map_eq_of_card_lt_of_maps_to (t := Finset.range (len.toNat + 1))
      (by simp) ?_
    intro i hi
    obtain ⟨o, ho⟩ := hsome i (by have := Finset.mem_range.mp hi; omega)
    have hle := UInt32.le_iff_toNat_le.mp (zipOff_le ho)
    simp only [ho, Option.map_some, Option.getD_some, Finset.coe_range, Set.mem_Iio]
    omega
  wlog hlt : i < j generalizing i j
  · exact this j hj i hi hne.symm heq.symm (by omega)
  have hsame : zipOff w buf len i = zipOff w buf len j := by
    obtain ⟨a, ha⟩ := hsome i (by have := Finset.mem_range.mp hi; omega)
    obtain ⟨b, hb⟩ := hsome j (by have := Finset.mem_range.mp hj; omega)
    rw [ha, hb] at heq ⊢
    exact congrArg some (UInt32.toNat_inj.mp heq)
  -- a later round is one of an earlier turn of the cycle
  induction k using Nat.strong_induction_on with
  | _ k ih =>
      by_cases hkj : k ≤ j
      · obtain ⟨o, ho⟩ := hsome k (by have := Finset.mem_range.mp hj; omega)
        simp [ho]
      · have hturn : zipOff w buf len k = zipOff w buf len (i + (k - j)) := by
          rw [zipOff_repeats hsame, Nat.add_sub_of_le (by omega)]
        rw [hturn]
        exact ih _ (by omega)

end Forward

/-- The answer of the walk: `none` when it never ends. After `len + 2` rounds this is decided. -/
def zipAnswer (w : ZipWalker) (buf : Mem) (len : UInt32) : Option ZipResult :=
  (zipFind w buf len (len.toNat + 2)).2

theorem zipAnswer_eq_none (w : ZipWalker) (buf : Mem) (len : UInt32) :
    zipAnswer w buf len = none ↔ ∀ rounds, (zipFind w buf len rounds).2 = none := by
  constructor
  · intro h rounds
    obtain ⟨o, ho⟩ := (zipFind_open_iff _).mp h
    exact (zipFind_open_iff rounds).mpr
      (Option.ne_none_iff_exists'.mp (zipOff_forever ho rounds))
  · intro h
    exact h _

/-- **The walk ends, moving forward in every round,** exactly when every entry it steps over
declares a size that, modulo `2^32`, is not zero and does not carry the offset past `2^32`. -/
theorem zip_walk_ends_iff (w : ZipWalker) (buf : Mem) (len : UInt32) :
    ((∃ rounds r, (zipFind w buf len rounds).2 = some r) ∧
      ∀ i off off', zipOff w buf len i = some off → zipOff w buf len (i + 1) = some off' →
        off < off') ↔
    ∀ i off, zipOff w buf len i = some off → Entered buf len off →
      (payloadTest w buf off).2 = false →
        entrySize buf off % 2 ^ 32 ≠ 0 ∧ off.toNat + entrySize buf off % 2 ^ 32 < 2 ^ 32 := by
  constructor
  · rintro ⟨-, hforward⟩ i off hoff hent hmodel
    have hnext : zipOff w buf len (i + 1) = some (entryEnd buf off) := by
      rw [zipOff_succ, hoff]
      exact nextOff_eq_some.mpr ⟨hent, hmodel, rfl⟩
    exact (lt_entryEnd_iff off).mp (hforward i off _ hoff hnext)
  · intro hsizes
    have hforward : ∀ i off off', zipOff w buf len i = some off →
        zipOff w buf len (i + 1) = some off' → off < off' := by
      intro i off off' hoff hoff'
      rw [zipOff_succ, hoff] at hoff'
      obtain ⟨hent, hmodel, rfl⟩ := nextOff_eq_some.mp hoff'
      exact (lt_entryEnd_iff off).mpr (hsizes i off hoff hent hmodel)
    exact ⟨⟨_, zipFind_ends hforward⟩, hforward⟩

/-- A compressed entry with no name and no extra field whose size of `2^32 - 30` bytes leads the
walk back to the entry itself. -/
def backToStartZip : Mem := fun i =>
  ([0x50, 0x4B, 3, 4, 20, 0, 0, 0, 8, 0, 0, 0, 0, 0, 0, 0, 0, 0, 0xE2, 0xFF, 0xFF, 0xFF,
    0, 0, 0, 0, 0, 0, 0, 0] : Bytes).getD i 0

/-- Neither walk ends on the entry that leads back to itself. -/
theorem zip_walk_never_ends :
    (∀ rounds, (zipFind .iotm backToStartZip 30 rounds).2 = none) ∧
      ∀ rounds, (zipFind .model backToStartZip 30 rounds).2 = none := by
  -- one round leads from offset 0 to offset 0
  have hback : ∀ w : ZipWalker, zipOff w backToStartZip 30 0 = some 0 ∧
      nextOff w backToStartZip 30 0 = some 0 := by
    intro w
    cases w <;> decide +kernel
  have hstays : ∀ (w : ZipWalker) (i : ℕ), zipOff w backToStartZip 30 i = some 0 := by
    intro w i
    induction i with
    | zero => exact (hback w).1
    | succ i ih => rw [zipOff_succ, ih, Option.bind_some, (hback w).2]
  exact ⟨fun rounds => (zipFind_open_iff rounds).mpr ⟨0, hstays .iotm rounds⟩,
    fun rounds => (zipFind_open_iff rounds).mpr ⟨0, hstays .model rounds⟩⟩

end IotcDemos
