import IotcDemos.Lib.Bytes

set_option autoImplicit false

/-! # NOR flash

Erasing sets all bits of whole sectors, and writing only clears bits. `eraseSel` erases the
sectors of a range that a predicate selects: all of them, or those that a power cut leaves erased.
A write that a power cut stops has written a prefix of its data. Data written to erased sectors
reads back (`bytesAt_program_erase`).
-/

namespace IotcDemos.NorFlash

/-- Where the power fails during an operation: an erase that reaches some of its sectors, or a
write of the first `k` bytes. -/
inductive PowerCut where
  | never
  | inErase (sel : ℕ → Bool)
  | inWrite (k : ℕ)

/-- Erase those sectors of the first `n` bytes that `sel` selects. -/
def eraseSel (sector : ℕ) (sel : ℕ → Bool) (n : ℕ) (m : ℕ → UInt8) : ℕ → UInt8 := fun i =>
  if i < n ∧ sel (i / sector) = true then 0xFF else m i

def erase (sector n : ℕ) (m : ℕ → UInt8) : ℕ → UInt8 := eraseSel sector (fun _ => true) n m

/-- Write `data` at an offset. -/
def program (off : ℕ) (data : Bytes) (m : ℕ → UInt8) : ℕ → UInt8 := fun i =>
  if off ≤ i ∧ i < off + data.length then m i &&& byteAt data (i - off) else m i

theorem erase_inside (sector : ℕ) {n i : ℕ} (m : ℕ → UInt8) (h : i < n) :
    erase sector n m i = 0xFF := if_pos ⟨h, rfl⟩

theorem program_outside {off i : ℕ} {data : Bytes} (m : ℕ → UInt8)
    (h : i < off ∨ off + data.length ≤ i) : program off data m i = m i := by
  rw [program]
  exact if_neg (by omega)

/-- Written to erased sectors, data takes the place of what was there. -/
theorem program_erased {off i : ℕ} {data : Bytes} {m : ℕ → UInt8}
    (h : off ≤ i → i < off + data.length → m i = 0xFF) :
    program off data m i = patch m off data i := by
  by_cases hin : off ≤ i ∧ i < off + data.length
  · rw [program, patch, if_pos hin, if_pos hin, h hin.1 hin.2]
    exact UInt8.neg_one_and
  · rw [program, patch, if_neg hin, if_neg hin]

theorem bytesAt_program {off : ℕ} {data : Bytes} {m : ℕ → UInt8}
    (h : ∀ i, off ≤ i → i < off + data.length → m i = 0xFF) :
    bytesAt (program off data m) off data.length = data := by
  calc bytesAt (program off data m) off data.length
      = bytesAt (patch m off data) off data.length :=
        bytesAt_congr fun i _ _ => program_erased (h i)
    _ = data := bytesAt_patch m off data

/-- Data written to erased sectors reads back. -/
theorem bytesAt_program_erase (sector : ℕ) {n : ℕ} {data : Bytes} (m : ℕ → UInt8)
    (h : data.length ≤ n) : bytesAt (program 0 data (erase sector n m)) 0 data.length = data := by
  apply bytesAt_program
  intro i _ hi
  exact erase_inside sector m (by omega)

end IotcDemos.NorFlash
