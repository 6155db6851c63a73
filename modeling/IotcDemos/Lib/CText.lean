import IotcDemos.Lib.Bytes
import Mathlib.Data.List.TakeWhile

set_option autoImplicit false

/-! # C strings in memory

`cText m p n` is the C string at `p` in the memory `m`, when at most `n` bytes are looked at. With
the precision of a conversion `%.ns` that is what it yields; with the number of bytes that are left
in the memory it is the whole string. `cLooks m p n` counts the bytes that are looked at, the
terminator included. A string that ends in a field of `n` bytes is the same whatever lies behind
the field, and is read without looking behind it (`cText_field`, `cLooks_le_iff`).
-/

namespace IotcDemos

def cText (m : ℕ → UInt8) (p n : ℕ) : Bytes := (bytesAt m p n).takeWhile (· ≠ 0)

def cLooks (m : ℕ → UInt8) (p n : ℕ) : ℕ := min n ((cText m p n).length + 1)

variable {m m' : ℕ → UInt8} {p k n : ℕ}

/-- A list ends before its end exactly when it holds a terminator. -/
theorem takeWhile_length_lt_iff {l : Bytes} :
    (l.takeWhile (· ≠ 0)).length < l.length ↔ 0 ∈ l := by
  induction l with
  | nil => simp
  | cons b l ih =>
      by_cases hb : b = 0
      · simp [hb]
      · have hb' : ¬ 0 = b := fun h => hb h.symm
        simpa [hb, hb'] using ih

theorem cText_length_le (m : ℕ → UInt8) (p n : ℕ) : (cText m p n).length ≤ n := by
  calc (cText m p n).length ≤ (bytesAt m p n).length := (List.takeWhile_prefix _).length_le
    _ = n := bytesAt_length m p n

theorem cText_length_lt_iff : (cText m p n).length < n ↔ 0 ∈ bytesAt m p n := by
  have h := takeWhile_length_lt_iff (l := bytesAt m p n)
  rwa [bytesAt_length] at h

theorem cText_congr (h : ∀ i, p ≤ i → i < p + n → m i = m' i) : cText m p n = cText m' p n := by
  rw [cText, cText, bytesAt_congr h]

/-- Looking at more bytes goes on where the first ones end. -/
theorem cText_add (m : ℕ → UInt8) (p n k : ℕ) :
    cText m p (n + k) =
      if 0 ∈ bytesAt m p n then cText m p n else cText m p n ++ cText m (p + n) k := by
  unfold cText
  rw [bytesAt_append]
  split
  · next hmem =>
      have hlt := takeWhile_length_lt_iff.mpr hmem
      rw [List.takeWhile_append, if_neg hlt.ne]
  · next hmem =>
      have hall : ∀ b ∈ bytesAt m p n, decide (b ≠ 0) = true := by
        intro b hb
        have hne : b ≠ 0 := fun hzero => hmem (hzero ▸ hb)
        simpa using hne
      rw [List.takeWhile_append_of_pos hall, List.takeWhile_eq_self_iff.mpr hall]

/-- A string that ends in the first `n` bytes does not depend on more of them. -/
theorem cText_field (h : 0 ∈ bytesAt m p n) (hnk : n ≤ k) : cText m p k = cText m p n := by
  obtain ⟨j, rfl⟩ := Nat.exists_eq_add_of_le hnk
  rw [cText_add, if_pos h]

/-- A text that is cut is the text of fewer bytes. -/
theorem cText_take (m : ℕ → UInt8) (p n k : ℕ) :
    (cText m p (n + k)).take n = cText m p n := by
  rw [cText_add]
  split
  · exact List.take_of_length_le (cText_length_le m p n)
  · next hmem =>
      have hlen : (cText m p n).length = n :=
        Nat.le_antisymm (cText_length_le m p n) (not_lt.mp fun h => hmem (cText_length_lt_iff.mp h))
      exact List.take_left' hlen

theorem cLooks_le (m : ℕ → UInt8) (p n : ℕ) : cLooks m p n ≤ n := Nat.min_le_left _ _

/-- The terminator lies in a field exactly when nothing behind the field is looked at. -/
theorem cLooks_le_iff (hnk : n < k) : cLooks m p k ≤ n ↔ 0 ∈ bytesAt m p n := by
  constructor
  · intro h
    by_contra hmem
    obtain ⟨j, rfl⟩ := Nat.exists_eq_add_of_le hnk.le
    have hlen : n ≤ (cText m p n).length := not_lt.mp fun hlt => hmem (cText_length_lt_iff.mp hlt)
    rw [cLooks, cText_add, if_neg hmem, List.length_append] at h
    omega
  · intro hmem
    have hlt := cText_length_lt_iff.mpr hmem
    rw [cLooks, cText_field hmem hnk.le]
    omega

end IotcDemos
