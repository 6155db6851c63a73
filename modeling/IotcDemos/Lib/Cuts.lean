import Mathlib.Order.Interval.Set.Union
import Mathlib.Order.SuccPred.IntervalSucc
import Mathlib.Tactic

set_option autoImplicit false

/-! # Cutting a length into equal parts

`cut c n i` is where the part `i` begins when a length of `c` is cut into `n` parts with integer
arithmetic, `i * c / n`. The parts cover the length, each number once (`existsUnique_cut`); with
`n ≤ c` none of them is empty, and none is longer than `c / n`, rounded up.
-/

namespace IotcDemos

def cut (c n i : ℕ) : ℕ := i * c / n

section Cut

variable {c n i x : ℕ}

@[simp] theorem cut_zero (c n : ℕ) : cut c n 0 = 0 := by
  rw [cut, Nat.zero_mul, Nat.zero_div]

theorem cut_self (hn : 0 < n) : cut c n n = c := Nat.mul_div_cancel_left c hn

theorem cut_mono (c n : ℕ) : Monotone (cut c n) :=
  fun _ _ hij => Nat.div_le_div_right (Nat.mul_le_mul_right c hij)

theorem cut_le (hn : 0 < n) (hi : i ≤ n) : cut c n i ≤ c := by
  calc cut c n i ≤ cut c n n := cut_mono c n hi
    _ = c := cut_self hn

/-- No part is empty. -/
theorem cut_lt_succ (hn : 0 < n) (hc : n ≤ c) (i : ℕ) : cut c n i < cut c n (i + 1) := by
  calc cut c n i < cut c n i + 1 := Nat.lt_succ_self _
    _ = (i * c + n) / n := (Nat.add_div_right _ hn).symm
    _ ≤ cut c n (i + 1) := Nat.div_le_div_right (by rw [Nat.succ_mul]; omega)

/-- No part is longer than `c / n`, rounded up. -/
theorem cut_succ_le (hn : 0 < n) (i : ℕ) : cut c n (i + 1) ≤ cut c n i + (c + (n - 1)) / n := by
  have hup : c ≤ n * ((c + (n - 1)) / n) := by
    have hdiv := Nat.div_add_mod (c + (n - 1)) n
    have hmod := Nat.mod_lt (c + (n - 1)) hn
    omega
  calc cut c n (i + 1) ≤ (i * c + n * ((c + (n - 1)) / n)) / n :=
        Nat.div_le_div_right (by rw [Nat.succ_mul]; omega)
    _ = cut c n i + (c + (n - 1)) / n := Nat.add_mul_div_left _ _ hn

/-- **Every number of the length lies in one part.** -/
theorem existsUnique_cut (hn : 0 < n) (hx : x < c) :
    ∃! i, i < n ∧ cut c n i ≤ x ∧ x < cut c n (i + 1) := by
  have hmem : x ∈ Set.Ico (cut c n 0) (cut c n n) := by
    rw [cut_zero, cut_self hn]
    exact ⟨Nat.zero_le _, hx⟩
  obtain ⟨i, hi⟩ := Set.mem_iUnion.mp (Ico_subset_biUnion_Ico n (cut c n) hmem)
  obtain ⟨hin, hix⟩ := Set.mem_iUnion.mp hi
  refine ⟨i, ⟨Finset.mem_range.mp hin, hix⟩, ?_⟩
  rintro j ⟨-, hjx⟩
  by_contra hne
  have hdisjoint := (cut_mono c n).pairwise_disjoint_on_Ico_succ hne
  exact Set.disjoint_left.mp hdisjoint hjx hix

end Cut

/-! ## Averages -/

/-- The average over a box, rounded down. -/
def boxMean (luma : ℕ × ℕ → ℕ) (b : Finset (ℕ × ℕ)) : ℕ := (∑ q ∈ b, luma q) / b.card

/-- A sum of bytes. -/
theorem sum_box_le {luma : ℕ × ℕ → ℕ} (hluma : ∀ q, luma q ≤ 255) (b : Finset (ℕ × ℕ)) :
    ∑ q ∈ b, luma q ≤ 255 * b.card := by
  calc ∑ q ∈ b, luma q ≤ ∑ _q ∈ b, 255 := Finset.sum_le_sum fun q _ => hluma q
    _ = 255 * b.card := by rw [Finset.sum_const, smul_eq_mul, Nat.mul_comm]

theorem boxMean_le {luma : ℕ × ℕ → ℕ} (hluma : ∀ q, luma q ≤ 255) (b : Finset (ℕ × ℕ)) :
    boxMean luma b ≤ 255 := by
  rcases Nat.eq_zero_or_pos b.card with hzero | hpos
  · rw [boxMean, hzero, Nat.div_zero]
    exact Nat.zero_le _
  · calc boxMean luma b ≤ (255 * b.card) / b.card := Nat.div_le_div_right (sum_box_le hluma b)
      _ = 255 := Nat.mul_div_cancel _ hpos

end IotcDemos
