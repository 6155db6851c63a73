import IotcDemos.Lib.Bytes

set_option autoImplicit false

/-! # Zlib streams of stored blocks

A zlib stream is a header of two bytes, a deflate stream, and the Adler-32 checksum of the data in
big-endian order. `compressStored` writes the data in stored blocks of at most 65535 bytes, of which
the last one is marked as final. `decompress` reads such streams, and checks all that they repeat:
the header, the complement of every length, and the checksum.
-/

namespace IotcDemos.Zlib

/-! ## Adler-32 -/

def adlerBase : ℕ := 65521

/-- The two sums of Adler-32 after one more byte. -/
def adlerStep (s : ℕ × ℕ) (x : UInt8) : ℕ × ℕ :=
  let a := (s.1 + x.toNat) % adlerBase
  (a, (s.2 + a) % adlerBase)

def adlerSums (data : Bytes) : ℕ × ℕ := data.foldl adlerStep (1, 0)

theorem adlerSums_snoc (data : Bytes) (x : UInt8) :
    adlerSums (data ++ [x]) = adlerStep (adlerSums data) x := by
  rw [adlerSums, List.foldl_append]
  rfl

theorem adlerSums_lt (data : Bytes) :
    (adlerSums data).1 < adlerBase ∧ (adlerSums data).2 < adlerBase := by
  induction data using List.reverseRecOn with
  | nil => decide
  | append_singleton data x ih =>
      rw [adlerSums_snoc]
      exact ⟨Nat.mod_lt _ (by decide), Nat.mod_lt _ (by decide)⟩

def adler32 (data : Bytes) : UInt32 :=
  UInt32.ofNat ((adlerSums data).2 * 65536 + (adlerSums data).1)

/-! ## Stored blocks -/

def blockMax : ℕ := 65535

def storedBlock (final : Bool) (data : Bytes) : Bytes :=
  (if final then 1 else 0) :: (toLe16 (UInt16.ofNat data.length)
    ++ toLe16 (~~~ UInt16.ofNat data.length) ++ data)

/-- The data in blocks of `blockMax` bytes, and a last one with the rest. -/
def stored (data : Bytes) : Bytes :=
  if data.length ≤ blockMax then storedBlock true data
  else storedBlock false (data.take blockMax) ++ stored (data.drop blockMax)
termination_by data.length
decreasing_by
  rw [List.length_drop]
  unfold blockMax at *
  omega

def compressStored (data : Bytes) : Bytes := [0x78, 0x01] ++ stored data ++ toBe32 (adler32 data)

/-! ## Reading -/

/-- One stored block: whether it is the final one, its data, and what follows it. -/
def readBlock (s : Bytes) : Option (Bool × Bytes × Bytes) :=
  let len := le16At (byteAt s) 1
  if s.length < 5 then none
  else if byteAt s 0 &&& 6 ≠ 0 then none
  else if le16At (byteAt s) 3 ≠ ~~~ len then none
  else if s.length < 5 + len.toNat then none
  else some (byteAt s 0 &&& 1 == 1, (s.drop 5).take len.toNat, s.drop (5 + len.toNat))

theorem readBlock_shorter {s data rest : Bytes} {final : Bool}
    (h : readBlock s = some (final, data, rest)) : rest.length < s.length := by
  unfold readBlock at h
  simp only at h
  split_ifs at h with hhead
  obtain ⟨-, -, rfl⟩ := h
  rw [List.length_drop]
  omega

/-- The data of the blocks up to the final one, and what follows it. -/
def inflate (s : Bytes) : Option (Bytes × Bytes) :=
  match _hread : readBlock s with
  | none => none
  | some (true, data, rest) => some (data, rest)
  | some (false, data, rest) => (inflate rest).map fun r => (data ++ r.1, r.2)
termination_by s.length
decreasing_by exact readBlock_shorter _hread

/-- The data of a whole stream, if its header and its checksum are right. -/
def decompress (s : Bytes) : Option Bytes :=
  let cmf := byteAt s 0
  let flg := byteAt s 1
  if s.length < 2 then none
  else if cmf &&& 0x0F ≠ 8 ∨ (cmf.toNat * 256 + flg.toNat) % 31 ≠ 0 ∨ flg &&& 0x20 ≠ 0 then none
  else
    match inflate (s.drop 2) with
    | none => none
    | some (data, tail) => if tail = toBe32 (adler32 data) then some data else none

/-! ## The round trip -/

theorem storedBlock_length (final : Bool) (data : Bytes) :
    (storedBlock final data).length = 5 + data.length := by
  simp [storedBlock]
  omega

/-- A stored block reads back. -/
theorem readBlock_storedBlock (final : Bool) {data : Bytes} (rest : Bytes)
    (h : data.length ≤ blockMax) :
    readBlock (storedBlock final data ++ rest) = some (final, data, rest) := by
  have hlen : (UInt16.ofNat data.length).toNat = data.length := by
    rw [UInt16.toNat_ofNat']
    unfold blockMax at h
    omega
  have htotal : (storedBlock final data ++ rest).length = 5 + data.length + rest.length := by
    rw [List.length_append, storedBlock_length]
  have hfield : le16At (byteAt (storedBlock final data ++ rest)) 1 = UInt16.ofNat data.length :=
    le16At_eq rfl rfl
  have hcheck : le16At (byteAt (storedBlock final data ++ rest)) 3 =
      ~~~ UInt16.ofNat data.length := le16At_eq rfl rfl
  have hbit : byteAt (storedBlock final data ++ rest) 0 = if final then 1 else 0 := rfl
  have hdata : (storedBlock final data ++ rest).drop 5 = data ++ rest := rfl
  unfold readBlock
  simp only [hfield, hcheck, hbit, hlen, htotal]
  rw [if_neg (by omega), if_neg (by cases final <;> decide), if_neg (not_not.mpr rfl),
    if_neg (by omega), ← List.drop_drop, hdata, List.take_left, List.drop_left]
  cases final <;> rfl

theorem inflate_final {s data rest : Bytes} (h : readBlock s = some (true, data, rest)) :
    inflate s = some (data, rest) := by
  unfold inflate
  split <;> simp_all

theorem inflate_more {s data rest : Bytes} (h : readBlock s = some (false, data, rest)) :
    inflate s = (inflate rest).map fun r => (data ++ r.1, r.2) := by
  conv_lhs => unfold inflate
  split <;> simp_all

/-- The blocks of some data inflate to it; exactly the last block is final. -/
theorem inflate_stored (data rest : Bytes) : inflate (stored data ++ rest) = some (data, rest) := by
  induction data using stored.induct with
  | case1 data h =>
      rw [stored, if_pos h]
      exact inflate_final (readBlock_storedBlock true rest h)
  | case2 data h ih =>
      have hblock : (data.take blockMax).length ≤ blockMax := List.length_take_le _ _
      calc inflate (stored data ++ rest)
          = inflate (storedBlock false (data.take blockMax)
              ++ (stored (data.drop blockMax) ++ rest)) := by
            rw [stored, if_neg h, List.append_assoc]
        _ = (inflate (stored (data.drop blockMax) ++ rest)).map
              fun r => (data.take blockMax ++ r.1, r.2) :=
            inflate_more (readBlock_storedBlock false _ hblock)
        _ = some (data, rest) := by
            rw [ih, Option.map_some, List.take_append_drop]

/-- **What is compressed decompresses.** -/
theorem decompress_compressStored (data : Bytes) :
    decompress (compressStored data) = some data := by
  have hcmf : byteAt (compressStored data) 0 = 0x78 := rfl
  have hflg : byteAt (compressStored data) 1 = 0x01 := rfl
  have hbody : (compressStored data).drop 2 = stored data ++ toBe32 (adler32 data) := rfl
  have hlen : 2 ≤ (compressStored data).length := by
    simp [compressStored]
  unfold decompress
  simp only [hcmf, hflg, hbody, inflate_stored]
  rw [if_neg (by omega), if_neg (by decide), if_pos trivial]

/-! ## Lengths -/

/-- The number of blocks of `n` bytes. -/
def blockCount (n : ℕ) : ℕ := (n - 1) / blockMax + 1

theorem stored_length (data : Bytes) :
    (stored data).length = 5 * blockCount data.length + data.length := by
  induction data using stored.induct with
  | case1 data h =>
      have hone : blockCount data.length = 1 := by
        unfold blockCount
        rw [Nat.div_eq_of_lt (by unfold blockMax at *; omega)]
      rw [stored, if_pos h, storedBlock_length, hone]
  | case2 data h ih =>
      have htake : (data.take blockMax).length = blockMax := List.length_take_of_le (by omega)
      have hcount : blockCount data.length = blockCount (data.length - blockMax) + 1 := by
        have hsplit : data.length - 1 = data.length - blockMax - 1 + blockMax := by omega
        unfold blockCount
        rw [hsplit, Nat.add_div_right _ (by decide)]
      calc (stored data).length
          = 5 + blockMax
              + (5 * blockCount (data.length - blockMax) + (data.length - blockMax)) := by
            rw [stored, if_neg h, List.length_append, storedBlock_length, htake, ih,
              List.length_drop]
        _ = 5 * (blockCount (data.length - blockMax) + 1) + data.length := by omega
        _ = 5 * blockCount data.length + data.length := by rw [hcount]

theorem compressStored_length (data : Bytes) :
    (compressStored data).length = 6 + 5 * blockCount data.length + data.length := by
  unfold compressStored
  rw [List.length_append, List.length_append, stored_length, toBe32_length]
  simp only [List.length_cons, List.length_nil]
  omega

end IotcDemos.Zlib
