import IotcDemos.Gateway.Drain

set_option autoImplicit false

/-! # Refilling a ring from sequence number 0

After a wipe the numbering starts again at 0, on whatever headers the wipe has left.
`Refilled dw es d` says what the disk `d` is after the records `es` have been pushed, in this order,
on the disk `dw`: the last record of every slot is there, and the slots no push has reached are as
they were. The lemmas say what a boot then finds.
-/

namespace IotcDemos

section Refill

variable (crc32Ieee : Bytes → UInt32) (c : SpoolConfig)

/-- No cell was written later than now. -/
def Disk.Dated (d : Disk) : Prop := ∀ a, (d.cell a).stamp ≤ d.clock

/-- The slot of the `p`-th push since the numbering started. -/
def pushSlot (p : ℕ) : ℕ := slotIdx c (UInt32.ofNat p)

/-- The disk `d` after the records `es` have been pushed on the disk `dw`. -/
structure Refilled (dw : Disk) (es : List Entry) (d : Disk) : Prop where
  /-- The last record of a slot is there. -/
  written : ∀ p e, es[p]? = some e →
    (∀ p', p < p' → p' < es.length → pushSlot c p' ≠ pushSlot c p) →
    Held crc32Ieee c d (UInt32.ofNat p) e
  /-- A slot without a record has the header it had. -/
  untouched : ∀ i, i < c.nslots → (∀ p, p < es.length → pushSlot c p ≠ i) →
    hdrAt c d i = hdrAt c dw i
  /-- The stamp of a record is in no other slot. -/
  own : ∀ p e, es[p]? = some e → e.1 ≤ d.clock ∧
    ∀ i, i < c.nslots → stampAt c d i = e.1 → i = pushSlot c p
  dated : d.Dated

variable {crc32Ieee c}

theorem Disk.Dated.writeSel {d : Disk} (h : d.Dated) (sel : ℕ → Bool) (buf : Bytes)
    (start count : ℕ) : (d.writeSel sel buf start count).Dated := by
  intro a
  show (if _ then _ else d.cell a : Cell).stamp ≤ d.clock
  split
  · exact Nat.le_refl _
  · exact h a

theorem Disk.Dated.tick {d : Disk} (h : d.Dated) : d.tick.Dated :=
  fun a => Nat.le_succ_of_le (h a)

theorem Refilled.start {d : Disk} (h : d.Dated) : Refilled crc32Ieee c d [] d :=
  ⟨fun _ _ he => by simp at he, fun _ _ _ => rfl, fun _ _ he => by simp at he, h⟩

/-- One more push. -/
theorem Refilled.push {dw d : Disk} {es : List Entry} (h : Refilled crc32Ieee c dw es d)
    {json : Bytes} (hj : json.length ≤ spoolPayloadMax) :
    Refilled crc32Ieee c dw (es ++ [(d.clock + 1, json)])
      (pushed crc32Ieee c (UInt32.ofNat es.length) json d.tick) := by
  have hlen : (es ++ [(d.clock + 1, json)]).length = es.length + 1 := by
    rw [List.length_append, List.length_singleton]
  have hslot : pushSlot c es.length = slotIdx c (UInt32.ofNat es.length) := rfl
  refine ⟨?_, ?_, ?_, h.dated.tick.writeSel _ _ _ _⟩
  · intro p e he hlast
    rcases Nat.lt_or_ge p es.length with hlt | hge
    · -- an earlier record whose slot the new one has not taken
      rw [List.getElem?_append_left hlt] at he
      apply Held.pushed
      · exact h.written p e he fun p' hp hp' => hlast p' hp (by omega)
      · exact hlast es.length hlt (by omega)
    · have hp := (List.getElem?_eq_some_iff.mp he).1
      obtain rfl : p = es.length := by omega
      rw [List.getElem?_append_right (Nat.le_refl _), Nat.sub_self] at he
      obtain rfl : (d.clock + 1, json) = e := by simpa using he
      exact ⟨recordAt_pushed crc32Ieee c _ hj, stampAt_pushed crc32Ieee c _ _ d.tick⟩
  · intro i hi hnone
    have hne : slotIdx c (UInt32.ofNat es.length) ≠ i := hnone es.length (by omega)
    rw [pushed, slotOf_eq, hdrAt_of_ne c _ _ _ (by decide) (slotIdx_lt c _) hi hne]
    exact h.untouched i hi fun p hp => hnone p (by omega)
  · intro p e he
    show e.1 ≤ d.clock + 1 ∧ _
    rcases Nat.lt_or_ge p es.length with hlt | hge
    · rw [List.getElem?_append_left hlt] at he
      obtain ⟨hclock, hown⟩ := h.own p e he
      refine ⟨by omega, fun i hi hstamp => ?_⟩
      by_cases hne : slotIdx c (UInt32.ofNat es.length) = i
      · -- the slot just written has a newer stamp
        rw [← hne, stampAt_pushed] at hstamp
        have : d.tick.clock = d.clock + 1 := rfl
        omega
      · rw [pushed, slotOf_eq, stampAt_of_ne c _ _ _ (by decide) (slotIdx_lt c _) hi hne] at hstamp
        exact hown i hi hstamp
    · have hp := (List.getElem?_eq_some_iff.mp he).1
      obtain rfl : p = es.length := by omega
      rw [List.getElem?_append_right (Nat.le_refl _), Nat.sub_self] at he
      obtain rfl : (d.clock + 1, json) = e := by simpa using he
      refine ⟨Nat.le_refl _, fun i hi hstamp => ?_⟩
      by_contra hne
      rw [pushed, slotOf_eq, stampAt_of_ne c _ _ _ (by decide) (slotIdx_lt c _) hi
        (fun h => hne h.symm)] at hstamp
      have hold : stampAt c d.tick i ≤ d.clock := h.dated _
      have : ((d.clock + 1, json) : Entry).1 = d.clock + 1 := rfl
      omega

/-! ## What a boot recovers -/

/-- The window a boot recovers from a disk where some header counts. -/
theorem boot_bounds {d : Disk} (h : ∃ i, i < c.nslots ∧ (hdrAt c d i).counts = true) :
    let s := (boot c d).2.ram
    s.ready = true ∧
    s.headSeq.toNat
      = max (scanAll c d).minSeq.toNat ((scanAll c d).maxSeq.toNat - (c.nslots - 1)) ∧
    s.headSeq.toNat + s.recCount.toNat = (scanAll c d).maxSeq.toNat + 1 := by
  obtain ⟨hv, hall, ⟨k, hk, hkc, hkmax⟩, -⟩ := scanAll_spec c h
  have hpos := c.pos
  have hn := nslots_lt c
  have hhead := clampedHead_toNat c (scanAll c d)
  have hlt := (scanAll c d).maxSeq.toNat_lt
  have hmin := (hall k hk hkc).1
  rw [hkmax, UInt32.le_iff_toNat_le] at hmin
  rw [boot_eq, recover_of_valid c _ hv]
  refine ⟨rfl, hhead, ?_⟩
  show _ + ((scanAll c d).maxSeq + 1 - clampedHead c (scanAll c d)).toNat = _
  rw [UInt32.toNat_sub, UInt32.toNat_add, UInt32.toNat_one]
  show (clampedHead c (scanAll c d)).toNat + _ = _
  omega

variable (crc32Ieee c) in
/-- The records of the window that a boot recovers. -/
def bootEntries (d : Disk) : List Entry :=
  entriesFrom crc32Ieee c d (boot c d).2.ram.recCount.toNat (boot c d).2.ram.headSeq

/-- What a drain after a boot delivers. -/
theorem drain_boot (d : Disk) {rounds : ℕ} (hrounds : c.nslots ≤ rounds) :
    drain crc32Ieee c rounds (boot c d).2
      = (bootEntries crc32Ieee c d).takeWhile Entry.nonempty := by
  have hpos := c.pos
  have hwindow : (boot c d).2.ram.ready = true ∧ (boot c d).2.ram.recCount.toNat ≤ c.nslots := by
    by_cases hany : ∃ i, i < c.nslots ∧ (hdrAt c d i).counts = true
    · obtain ⟨hready, hhead, hcount⟩ := boot_bounds hany
      exact ⟨hready, by omega⟩
    · push Not at hany
      rw [boot_eq, recover_empty c _ fun i hi => Bool.eq_false_of_not_eq_true (hany i hi)]
      exact ⟨rfl, Nat.zero_le _⟩
  rw [drain_eq hwindow.1 (hwindow.2.trans hrounds), boot_eq, bootEntries, boot_eq]

theorem entriesFrom_append (d : Disk) (a b : ℕ) (seq : UInt32) :
    entriesFrom crc32Ieee c d (a + b) seq
      = entriesFrom crc32Ieee c d a seq ++ entriesFrom crc32Ieee c d b (seq + UInt32.ofNat a) := by
  induction a generalizing seq with
  | zero => rw [Nat.zero_add, add_ofNat_zero, entriesFrom, List.nil_append]
  | succ a ih =>
      rw [Nat.add_right_comm, entriesFrom, entriesFrom, ih, List.append_assoc, add_ofNat_succ]

/-- Records held from `seq` on are what is found there. -/
theorem entriesFrom_eq {d : Disk} {l : List Entry} {seq : UInt32}
    (h : ∀ k e, l[k]? = some e → Held crc32Ieee c d (seq + UInt32.ofNat k) e) :
    entriesFrom crc32Ieee c d l.length seq = l := by
  induction l generalizing seq with
  | nil => rfl
  | cons e l ih =>
      have hfront := h 0 e rfl
      rw [add_ofNat_zero] at hfront
      rw [List.length_cons, entriesFrom, entryOf_eq_some.mpr hfront, Option.toList_some,
        List.singleton_append, ih]
      intro k e' he'
      rw [← add_ofNat_succ]
      exact h (k + 1) e' he'

/-- A record held below the head of the recovered window is not in it. -/
theorem Refilled.not_recovered {dw d : Disk} {es : List Entry} (h : Refilled crc32Ieee c dw es d)
    {p : ℕ} {e : Entry} (he : es[p]? = some e)
    (hlast : ∀ p', p < p' → p' < es.length → pushSlot c p' ≠ pushSlot c p) {head : UInt32} {m : ℕ}
    (hlow : p % 2 ^ 32 < head.toNat) (hm : head.toNat + m ≤ 2 ^ 32) :
    e ∉ entriesFrom crc32Ieee c d m head := by
  intro hmem
  obtain ⟨k, hk, hheld⟩ := mem_entriesFrom.mp hmem
  have hslot := (h.own p e he).2 _ (slotIdx_lt c _) hheld.2
  have hseq := held_slotIdx_inj crc32Ieee c hheld.1 (h.written p e he hlast).1 hslot
  have htoNat := congrArg UInt32.toNat hseq
  rw [add_ofNat_toNat, UInt32.toNat_ofNat'] at htoNat
  omega

/-- The header of a record that is the last of its slot. -/
theorem Refilled.hdr {dw d : Disk} {es : List Entry} (h : Refilled crc32Ieee c dw es d) {p : ℕ}
    (hp : p < es.length)
    (hlast : ∀ p', p < p' → p' < es.length → pushSlot c p' ≠ pushSlot c p) :
    (hdrAt c d (pushSlot c p)).counts = true ∧
      (hdrAt c d (pushSlot c p)).seq.toNat = p % 2 ^ 32 := by
  have hheld := h.written p es[p] (List.getElem?_eq_getElem hp) hlast
  obtain ⟨hcounts, hseq⟩ :=
    counts_of_acceptable crc32Ieee c ((recordAt_eq_some crc32Ieee c).mp hheld.1).1
  refine ⟨hcounts, ?_⟩
  show (hdrAt c d (slotIdx c (UInt32.ofNat p))).seq.toNat = _
  rw [hseq, UInt32.toNat_ofNat']

/-! ## The slots the last records have -/

theorem pushSlot_eq (p : ℕ) : pushSlot c p = p % 2 ^ 32 % c.nslots := by
  rw [pushSlot, slotIdx, UInt32.toNat_ofNat']

/-- The numbering begins again every `2 ^ 32` pushes. -/
theorem pushSlot_lap {q s : ℕ} (hs : s < 2 ^ 32) : pushSlot c (2 ^ 32 * q + s) = s % c.nslots := by
  rw [pushSlot_eq, Nat.mul_add_mod, Nat.mod_eq_of_lt hs]

/-- `n` numbers in a row have every residue. -/
theorem exists_add_mod_eq {a n i : ℕ} (hi : i < n) : ∃ k, k < n ∧ (a + k) % n = i := by
  have hdiv := Nat.div_add_mod a n
  have hmod := Nat.mod_lt a (Nat.zero_lt_of_lt hi)
  by_cases hle : a % n ≤ i
  · refine ⟨i - a % n, by omega, ?_⟩
    calc (a + (i - a % n)) % n = (n * (a / n) + i) % n := by congr 1; omega
      _ = i := by rw [Nat.mul_add_mod, Nat.mod_eq_of_lt hi]
  · refine ⟨i + n - a % n, by omega, ?_⟩
    calc (a + (i + n - a % n)) % n = (n * (a / n) + i + n) % n := by congr 1; omega
      _ = (n * (a / n) + i) % n := Nat.add_mod_right _ _
      _ = i := by rw [Nat.mul_add_mod, Nat.mod_eq_of_lt hi]

/-! ## A ring refilled completely -/

/-- When the last `NSLOTS` records have the numbers from `a` on, without a wrap, they are what a
boot recovers. -/
theorem Refilled.boot_full {dw d : Disk} {es : List Entry} (h : Refilled crc32Ieee c dw es d)
    {a : ℕ} (hfull : c.nslots ≤ es.length)
    (hnum : ∀ k, k < c.nslots → (es.length - c.nslots + k) % 2 ^ 32 = a + k) :
    bootEntries crc32Ieee c d = es.drop (es.length - c.nslots) := by
  have hpos := c.pos
  have hslot : ∀ k, k < c.nslots →
      pushSlot c (es.length - c.nslots + k) = (a + k) % c.nslots := by
    intro k hk
    rw [pushSlot_eq, hnum k hk]
  have hlast : ∀ k, k < c.nslots → ∀ p', es.length - c.nslots + k < p' → p' < es.length →
      pushSlot c p' ≠ pushSlot c (es.length - c.nslots + k) := by
    intro k hk p' hlt hp'
    obtain ⟨k', rfl⟩ : ∃ k', p' = es.length - c.nslots + k' := Nat.exists_eq_add_of_le (by omega)
    rw [hslot k hk, hslot k' (by omega)]
    exact (mod_ne_of_near (by omega) (by omega)).symm
  -- every header is that of one of these records
  have hhdr : ∀ k, k < c.nslots → (hdrAt c d ((a + k) % c.nslots)).counts = true ∧
      (hdrAt c d ((a + k) % c.nslots)).seq.toNat = a + k := by
    intro k hk
    have := h.hdr (p := es.length - c.nslots + k) (by omega) (hlast k hk)
    rwa [hslot k hk, hnum k hk] at this
  have hall : ∀ i, i < c.nslots → ∃ k, k < c.nslots ∧ (hdrAt c d i).seq.toNat = a + k := by
    intro i hi
    obtain ⟨k, hk, rfl⟩ := exists_add_mod_eq (a := a) hi
    exact ⟨k, hk, (hhdr k hk).2⟩
  have hany : ∃ i, i < c.nslots ∧ (hdrAt c d i).counts = true :=
    ⟨(a + 0) % c.nslots, Nat.mod_lt _ hpos, (hhdr 0 hpos).1⟩
  obtain ⟨-, hbounds, ⟨i1, hi1, -, hmax⟩, ⟨i2, hi2, -, hmin⟩⟩ := scanAll_spec c hany
  obtain ⟨-, hhead, hcount⟩ := boot_bounds hany
  obtain ⟨k1, hk1, hk1e⟩ := hall i1 hi1
  obtain ⟨k2, hk2, hk2e⟩ := hall i2 hi2
  have hlow := (hbounds _ (Nat.mod_lt _ hpos) (hhdr 0 hpos).1).1
  have hhigh := (hbounds _ (Nat.mod_lt _ hpos) (hhdr (c.nslots - 1) (by omega)).1).2
  rw [UInt32.le_iff_toNat_le, (hhdr 0 hpos).2] at hlow
  rw [UInt32.le_iff_toNat_le, (hhdr (c.nslots - 1) (by omega)).2] at hhigh
  rw [hmax] at hk1e
  rw [hmin] at hk2e
  have hheadEq : (boot c d).2.ram.headSeq.toNat = a := by omega
  have hlen : (es.drop (es.length - c.nslots)).length = c.nslots := by
    rw [List.length_drop]
    omega
  have hcountEq : (boot c d).2.ram.recCount.toNat
      = (es.drop (es.length - c.nslots)).length := by omega
  rw [bootEntries, hcountEq]
  apply entriesFrom_eq
  intro k e he
  have hk := (List.getElem?_eq_some_iff.mp he).1
  rw [hlen] at hk
  rw [List.getElem?_drop] at he
  have hseq : (boot c d).2.ram.headSeq + UInt32.ofNat k
      = UInt32.ofNat (es.length - c.nslots + k) := by
    apply UInt32.toNat_inj.mp
    rw [add_ofNat_toNat, UInt32.toNat_ofNat', hnum k hk, hheadEq, Nat.mod_eq_of_lt]
    have := hnum k hk
    omega
  rw [hseq]
  exact h.written _ e he (hlast k hk)

/-! ## A ring refilled in part -/

section Part

variable {dw d : Disk} {es : List Entry} (h : Refilled crc32Ieee c dw es d)
  (hpart : es.length < c.nslots)

include hpart

/-- Fewer records than slots have a slot each. -/
theorem pushSlot_part {p : ℕ} (hp : p < es.length) : pushSlot c p = p := by
  have hn := nslots_lt c
  rw [pushSlot_eq, Nat.mod_eq_of_lt (by omega), Nat.mod_eq_of_lt (by omega)]

theorem pushSlot_part_ne {p p' : ℕ} (hp : p < p') (hp' : p' < es.length) :
    pushSlot c p' ≠ pushSlot c p := by
  rw [pushSlot_part hpart hp', pushSlot_part hpart (by omega)]
  omega

include h

theorem Refilled.part_hdr {p : ℕ} (hp : p < es.length) :
    (hdrAt c d p).counts = true ∧ (hdrAt c d p).seq.toNat = p := by
  have hn := nslots_lt c
  have := h.hdr hp fun p' => pushSlot_part_ne hpart
  rwa [pushSlot_part hpart hp, Nat.mod_eq_of_lt (by omega)] at this

theorem Refilled.part_old {i : ℕ} (hi : i < c.nslots) (hlen : es.length ≤ i) :
    hdrAt c d i = hdrAt c dw i := by
  apply h.untouched i hi
  intro p hp
  rw [pushSlot_part hpart hp]
  omega

/-- Old headers with small numbers do no harm: the new records come first. -/
theorem Refilled.boot_part (hsome : 0 < es.length)
    (hold : ∀ i, es.length ≤ i → i < c.nslots → (hdrAt c dw i).counts = true →
      (hdrAt c dw i).seq.toNat < c.nslots) :
    es <+: bootEntries crc32Ieee c d := by
  have hn := nslots_lt c
  have hany : ∃ i, i < c.nslots ∧ (hdrAt c d i).counts = true :=
    ⟨0, c.pos, (h.part_hdr hpart hsome).1⟩
  obtain ⟨-, hbounds, ⟨i1, hi1, hi1c, hmax⟩, -⟩ := scanAll_spec c hany
  obtain ⟨-, hhead, hcount⟩ := boot_bounds hany
  have hlow := (hbounds 0 c.pos (h.part_hdr hpart hsome).1).1
  have hlast := h.part_hdr hpart (p := es.length - 1) (by omega)
  have hhigh := (hbounds (es.length - 1) (by omega) hlast.1).2
  rw [UInt32.le_iff_toNat_le, (h.part_hdr hpart hsome).2] at hlow
  rw [UInt32.le_iff_toNat_le, hlast.2] at hhigh
  -- no header has a number from `NSLOTS` on
  have hsmall : (scanAll c d).maxSeq.toNat < c.nslots := by
    rw [← hmax]
    rcases Nat.lt_or_ge i1 es.length with hlt | hge
    · rw [(h.part_hdr hpart hlt).2]
      exact hi1
    · rw [h.part_old hpart hi1 hge] at hi1c ⊢
      exact hold i1 hge hi1 hi1c
  have hheadEq : (boot c d).2.ram.headSeq = 0 := by
    apply UInt32.toNat_inj.mp
    rw [UInt32.toNat_zero]
    omega
  obtain ⟨rest, hrest⟩ : ∃ rest, (boot c d).2.ram.recCount.toNat = es.length + rest :=
    Nat.exists_eq_add_of_le (by omega)
  have hnew : entriesFrom crc32Ieee c d es.length 0 = es := by
    apply entriesFrom_eq
    intro k e he
    have hk := (List.getElem?_eq_some_iff.mp he).1
    rw [UInt32.zero_add]
    exact h.written k e he fun p' => pushSlot_part_ne hpart
  rw [bootEntries, hrest, hheadEq, entriesFrom_append, hnew]
  exact List.prefix_append _ _

/-- One old header with a number from `NSLOTS` on costs the first of the new records. -/
theorem Refilled.part_lost {e : Entry} (he : es[0]? = some e)
    (hold : ∃ i, es.length ≤ i ∧ i < c.nslots ∧ (hdrAt c dw i).counts = true ∧
      c.nslots ≤ (hdrAt c dw i).seq.toNat) :
    e ∉ bootEntries crc32Ieee c d := by
  have hpos := c.pos
  obtain ⟨i, hlen, hi, hcounts, hseq⟩ := hold
  rw [← h.part_old hpart hi hlen] at hcounts hseq
  have hany : ∃ i, i < c.nslots ∧ (hdrAt c d i).counts = true := ⟨i, hi, hcounts⟩
  obtain ⟨-, hbounds, -⟩ := scanAll_spec c hany
  obtain ⟨-, hhead, hcount⟩ := boot_bounds hany
  have hhigh := (hbounds i hi hcounts).2
  rw [UInt32.le_iff_toNat_le] at hhigh
  have hlt := (scanAll c d).maxSeq.toNat_lt
  apply h.not_recovered he fun p' => pushSlot_part_ne hpart
  · omega
  · omega

end Part

/-! ## A ring the counter has wrapped on -/

/-- When the counter has just wrapped, the records before the wrap hide the newest one: some slot
still has a number that is high above it. -/
theorem Refilled.wrap_lost {dw d : Disk} {es : List Entry} (h : Refilled crc32Ieee c dw es d)
    (hwrap : 2 ^ 32 ≤ es.length) (hsome : 0 < es.length % 2 ^ 32)
    (hfew : es.length % 2 ^ 32 < c.nslots) {e : Entry} (he : es[es.length - 1]? = some e) :
    e ∉ bootEntries crc32Ieee c d := by
  have hpos := c.pos
  have hfits := c.fits
  have h3 : spoolSlotSectors = 3 := rfl
  rw [h3] at hfits
  generalize hr : es.length % 2 ^ 32 = r at hsome hfew
  -- `s` is the last number before the wrap that belongs to slot `r`
  obtain ⟨k, hk, hkmod⟩ := exists_add_mod_eq (a := 2 ^ 32 - c.nslots) hfew
  obtain ⟨q, hq⟩ : ∃ q, es.length = 2 ^ 32 * (q + 1) + r := by
    refine ⟨es.length / 2 ^ 32 - 1, ?_⟩
    have := Nat.div_add_mod es.length (2 ^ 32)
    omega
  have hp : 2 ^ 32 * q + (2 ^ 32 - c.nslots + k) < es.length := by omega
  have hslot : pushSlot c (2 ^ 32 * q + (2 ^ 32 - c.nslots + k)) = r := by
    rw [pushSlot_lap (by omega), hkmod]
  have hlast : ∀ p', 2 ^ 32 * q + (2 ^ 32 - c.nslots + k) < p' → p' < es.length →
      pushSlot c p' ≠ pushSlot c (2 ^ 32 * q + (2 ^ 32 - c.nslots + k)) := by
    intro p' hlt hp'
    rw [hslot]
    by_cases hlap : p' < 2 ^ 32 * (q + 1)
    · -- before the wrap: too near for the same slot
      obtain ⟨s, rfl⟩ : ∃ s, p' = 2 ^ 32 * q + s := Nat.exists_eq_add_of_le (by omega)
      rw [pushSlot_lap (by omega), ← hkmod]
      exact (mod_ne_of_near (by omega) (by omega)).symm
    · -- after the wrap: the slots before `r`
      obtain ⟨s, rfl⟩ : ∃ s, p' = 2 ^ 32 * (q + 1) + s := Nat.exists_eq_add_of_le (by omega)
      rw [pushSlot_lap (by omega), Nat.mod_eq_of_lt (by omega)]
      omega
  obtain ⟨hcounts, hseq⟩ := h.hdr hp hlast
  rw [hslot] at hcounts hseq
  rw [Nat.mul_add_mod, Nat.mod_eq_of_lt (by omega)] at hseq
  have hany : ∃ i, i < c.nslots ∧ (hdrAt c d i).counts = true := ⟨r, hfew, hcounts⟩
  obtain ⟨-, hbounds, -⟩ := scanAll_spec c hany
  obtain ⟨-, hhead, hcount⟩ := boot_bounds hany
  have hhigh := (hbounds r hfew hcounts).2
  rw [UInt32.le_iff_toNat_le] at hhigh
  have hlt := (scanAll c d).maxSeq.toNat_lt
  apply h.not_recovered he (fun p' hp' hlen => by omega)
  · omega
  · omega

/-! ## All cases together -/

variable (c) in
/-- After `m` pushes on the disk `dw` the numbers in the ring are those `spool_init` expects: the
ring has been refilled since the numbering started or wrapped, or no header that is left has a
number from `NSLOTS` on. -/
def NumbersFit (dw : Disk) (m : ℕ) : Prop :=
  m % 2 ^ 32 = 0 ∨ c.nslots ≤ m % 2 ^ 32 ∨
  (m < c.nslots ∧ ∀ i, m ≤ i → i < c.nslots → (hdrAt c dw i).counts = true →
    (hdrAt c dw i).seq.toNat < c.nslots)

/-- The records that no full ring has evicted come first in the window, in push order. -/
theorem Refilled.kept_prefix {dw d : Disk} {es : List Entry} (h : Refilled crc32Ieee c dw es d)
    (hfit : NumbersFit c dw es.length) :
    es.drop (es.length - c.nslots) <+: bootEntries crc32Ieee c d := by
  have hn := nslots_lt c
  have hdm := Nat.div_add_mod es.length (2 ^ 32)
  by_cases hnone : es.length = 0
  · rw [List.length_eq_zero_iff.mp hnone, List.drop_nil]
    exact List.nil_prefix
  rcases hfit with hzero | hfull | ⟨hfew, hold⟩
  · -- the counter is about to start again
    rw [← h.boot_full (a := 2 ^ 32 - c.nslots) (by omega) (fun k hk => by omega)]
  · rw [← h.boot_full (a := es.length % 2 ^ 32 - c.nslots) (by omega) (fun k hk => by omega)]
  · have hall : es.drop (es.length - c.nslots) = es := by
      rw [Nat.sub_eq_zero_of_le (Nat.le_of_lt hfew), List.drop_zero]
    rw [hall]
    exact h.boot_part hfew (Nat.pos_of_ne_zero hnone) hold

/-- Otherwise one of these records is not in the window. -/
theorem Refilled.kept_lost {dw d : Disk} {es : List Entry} (h : Refilled crc32Ieee c dw es d)
    (hfit : ¬ NumbersFit c dw es.length) :
    ∃ e ∈ es.drop (es.length - c.nslots), e ∉ bootEntries crc32Ieee c d := by
  unfold NumbersFit at hfit
  push Not at hfit
  obtain ⟨hsome, hnotfull, hold⟩ := hfit
  have hdm := Nat.div_add_mod es.length (2 ^ 32)
  by_cases hfew : es.length < c.nslots
  · -- the oldest record
    have hlt : 0 < es.length := by
      rw [Nat.pos_iff_ne_zero]
      intro hzero
      rw [hzero] at hsome
      exact hsome rfl
    refine ⟨es[0], ?_, h.part_lost hfew (List.getElem?_eq_getElem hlt) ?_⟩
    · rw [Nat.sub_eq_zero_of_le (Nat.le_of_lt hfew), List.drop_zero]
      exact List.getElem_mem hlt
    · exact hold hfew
  · -- the newest record
    have hlt : es.length - 1 < es.length := by
      have := c.pos
      omega
    refine ⟨es[es.length - 1], ?_, h.wrap_lost (by omega) (Nat.pos_of_ne_zero hsome) hnotfull
      (List.getElem?_eq_getElem hlt)⟩
    have hpos := c.pos
    rw [List.mem_iff_getElem?]
    refine ⟨c.nslots - 1, ?_⟩
    rw [List.getElem?_drop, ← List.getElem?_eq_getElem hlt]
    congr 1
    omega

end Refill

end IotcDemos
