import IotcDemos.Lib.Bytes
import Mathlib.Algebra.BigOperators.Intervals

set_option autoImplicit false

/-! # Counting loops

`forUp lo hi body` is the loop `for (i = lo; i < hi; i++)` with a counter of 32 bits. `forUp_inv` is
its invariant rule. Two of these loops, one in the other, that add up numbers yield their sum
(`forUp_forUp_add`), and two that fill a table row by row leave it filled, and nothing else changed
(`forUp_table`).
-/

namespace IotcDemos

def forUp {σ : Type} (lo hi : UInt32) (body : UInt32 → σ → σ) (s : σ) : σ :=
  (List.range' lo.toNat (hi.toNat - lo.toNat)).foldl (fun s i => body (UInt32.ofNat i) s) s

section Rule

variable {σ : Type} {lo hi : UInt32} {body : UInt32 → σ → σ}

/-- **The invariant rule.** What every round takes from its counter to the next number holds at the
end. -/
theorem forUp_inv {P : ℕ → σ → Prop} (hle : lo.toNat ≤ hi.toNat)
    (hbody : ∀ (i : UInt32) (s : σ), lo.toNat ≤ i.toNat → i.toNat < hi.toNat → P i.toNat s →
      P (i.toNat + 1) (body i s)) {s : σ} (h : P lo.toNat s) :
    P hi.toNat (forUp lo hi body s) := by
  have hrounds : ∀ n, lo.toNat + n ≤ hi.toNat → P (lo.toNat + n)
      ((List.range' lo.toNat n).foldl (fun s i => body (UInt32.ofNat i) s) s) := by
    intro n
    induction n with
    | zero => exact fun _ => h
    | succ n ih =>
        intro hn
        have hcount : (UInt32.ofNat (lo.toNat + n)).toNat = lo.toNat + n := by
          rw [UInt32.toNat_ofNat', Nat.mod_eq_of_lt]
          exact Nat.lt_of_lt_of_le (by omega) hi.toNat_lt.le
        have hround := hbody (UInt32.ofNat (lo.toNat + n)) _ (by omega) (by omega)
          (hcount.symm ▸ ih (by omega))
        rw [List.range'_1_concat, List.foldl_append, List.foldl_cons, List.foldl_nil]
        rwa [hcount] at hround
  have hall := hrounds (hi.toNat - lo.toNat) (by omega)
  rwa [Nat.add_sub_cancel' hle] at hall

/-- A part of the state that the rounds compute on their own. -/
theorem forUp_map {τ : Type} (part : σ → τ) {body' : UInt32 → τ → τ}
    (h : ∀ i s, part (body i s) = body' i (part s)) (s : σ) :
    part (forUp lo hi body s) = forUp lo hi body' (part s) := by
  unfold forUp
  generalize List.range' lo.toNat (hi.toNat - lo.toNat) = is
  induction is generalizing s with
  | nil => rfl
  | cons i is ih => rw [List.foldl_cons, List.foldl_cons, ih, h]

end Rule

/-! ## Sums -/

section Sum

variable {lo hi lo' hi' : UInt32}

theorem forUp_add (hle : lo.toNat ≤ hi.toNat) (f : UInt32 → ℕ) (a : UInt32) :
    forUp lo hi (fun i acc => acc + UInt32.ofNat (f i)) a =
      a + UInt32.ofNat (∑ i ∈ Finset.Ico lo.toNat hi.toNat, f (UInt32.ofNat i)) := by
  refine forUp_inv (P := fun k acc => acc =
    a + UInt32.ofNat (∑ i ∈ Finset.Ico lo.toNat k, f (UInt32.ofNat i))) hle ?_ ?_
  · rintro i acc hlo - rfl
    rw [Finset.sum_Ico_succ_top hlo, UInt32.ofNat_toNat, UInt32.ofNat_add, UInt32.add_assoc]
  · simp

/-- The numbers that two loops run through. -/
def box (lo hi lo' hi' : UInt32) : Finset (ℕ × ℕ) :=
  Finset.Ico lo.toNat hi.toNat ×ˢ Finset.Ico lo'.toNat hi'.toNat

theorem mem_box {q : ℕ × ℕ} : q ∈ box lo hi lo' hi' ↔
    (lo.toNat ≤ q.1 ∧ q.1 < hi.toNat) ∧ lo'.toNat ≤ q.2 ∧ q.2 < hi'.toNat := by
  simp [box]

theorem box_card : (box lo hi lo' hi').card =
    (hi.toNat - lo.toNat) * (hi'.toNat - lo'.toNat) := by
  simp [box]

/-- Two loops that add up a number for every pair. -/
theorem forUp_forUp_add (hle : lo.toNat ≤ hi.toNat) (hle' : lo'.toNat ≤ hi'.toNat)
    (f : UInt32 → UInt32 → ℕ) :
    forUp lo hi (fun y acc => forUp lo' hi' (fun x acc => acc + UInt32.ofNat (f y x)) acc) 0 =
      UInt32.ofNat (∑ q ∈ box lo hi lo' hi', f (UInt32.ofNat q.1) (UInt32.ofNat q.2)) := by
  simp only [forUp_add hle']
  rw [forUp_add hle, box, Finset.sum_product, UInt32.zero_add]

end Sum

/-! ## Tables -/

section Table

variable {w h : UInt32} (cell : UInt32 → UInt32 → UInt8) (m : ℕ → UInt8)

/-- The memory `m` with the first `k` cells of a table of width `w`, row by row. -/
def tableAt (w k : ℕ) : ℕ → UInt8 :=
  fun i => if i < k then cell (UInt32.ofNat (i / w)) (UInt32.ofNat (i % w)) else m i

theorem tableAt_cell {w k x y : ℕ} (hx : x < w) (hk : y * w + x < k) :
    tableAt cell m w k (y * w + x) = cell (UInt32.ofNat y) (UInt32.ofNat x) := by
  have hrow : (y * w + x) / w = y := by
    rw [Nat.mul_comm, Nat.mul_add_div (by omega), Nat.div_eq_of_lt hx, Nat.add_zero]
  have hcol : (y * w + x) % w = x := by
    rw [Nat.mul_comm, Nat.mul_add_mod, Nat.mod_eq_of_lt hx]
  rw [tableAt, if_pos hk, hrow, hcol]

theorem tableAt_outside {w k i : ℕ} (hi : k ≤ i) : tableAt cell m w k i = m i :=
  if_neg (Nat.not_lt.mpr hi)

/-- The next cell. -/
theorem patch_tableAt {x y : UInt32} (hx : x.toNat < w.toNat) :
    patch (tableAt cell m w.toNat (y.toNat * w.toNat + x.toNat)) (y.toNat * w.toNat + x.toNat)
      [cell y x] = tableAt cell m w.toNat (y.toNat * w.toNat + x.toNat + 1) := by
  funext i
  rcases Nat.lt_trichotomy i (y.toNat * w.toNat + x.toNat) with hlt | rfl | hgt
  · rw [patch_outside (Or.inl hlt), tableAt, tableAt, if_pos hlt, if_pos (by omega)]
  · have hcell := patch_inside (tableAt cell m w.toNat (y.toNat * w.toNat + x.toNat))
      (y.toNat * w.toNat + x.toNat) (b := [cell y x]) (i := 0) (by simp)
    rw [Nat.add_zero] at hcell
    rw [hcell, tableAt_cell cell m hx (Nat.lt_succ_self _), UInt32.ofNat_toNat, UInt32.ofNat_toNat]
    rfl
  · rw [patch_outside (Or.inr (by simpa using hgt)), tableAt, tableAt, if_neg (by omega),
      if_neg (by omega)]

/-- **A table, filled row by row.** -/
theorem forUp_table (hsize : w.toNat * h.toNat ≤ 2 ^ 32) :
    forUp 0 h (fun y m => forUp 0 w (fun x m => patch m (y * w + x).toNat [cell y x]) m) m =
      tableAt cell m w.toNat (h.toNat * w.toNat) := by
  refine forUp_inv (P := fun y t => t = tableAt cell m w.toNat (y * w.toNat)) (Nat.zero_le _) ?_ ?_
  · rintro y t - hy rfl
    have hroom : (y.toNat + 1) * w.toNat ≤ 2 ^ 32 := by
      calc (y.toNat + 1) * w.toNat ≤ h.toNat * w.toNat := Nat.mul_le_mul_right _ hy
        _ ≤ 2 ^ 32 := by rwa [Nat.mul_comm]
    rw [Nat.succ_mul] at hroom ⊢
    refine forUp_inv (P := fun x t => t = tableAt cell m w.toNat (y.toNat * w.toNat + x))
      (Nat.zero_le _) ?_ rfl
    rintro x t - hx rfl
    have hoff : (y * w + x).toNat = y.toNat * w.toNat + x.toNat := by
      rw [UInt32.toNat_add, UInt32.toNat_mul, Nat.mod_add_mod, Nat.mod_eq_of_lt (by omega)]
    rw [hoff]
    exact patch_tableAt cell m hx
  · funext i
    simp [tableAt]

end Table

end IotcDemos
