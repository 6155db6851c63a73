import Mathlib.Tactic

set_option autoImplicit false

/-! # The index of a maximum

`runningArgmax gt o n` is a loop that keeps the index of the greatest value seen so far; it
replaces it only by a strictly greater one. `listMax` is the maximum of a list. Over a linear order
the loop finds the first index of the maximum, so both ways of looking for it agree.
-/

namespace IotcDemos

section Argmax

variable {α : Type}

def runningArgmax (gt : α → α → Bool) (o : ℕ → α) (n : ℕ) : ℕ :=
  (List.range n).foldl (fun best i => if gt (o i) (o best) then i else best) 0

theorem runningArgmax_succ (gt : α → α → Bool) (o : ℕ → α) (n : ℕ) :
    runningArgmax gt o (n + 1) =
      if gt (o n) (o (runningArgmax gt o n)) then n else runningArgmax gt o n := by
  rw [runningArgmax, List.range_succ, List.foldl_append]
  rfl

/-- The index is one of the range, whatever the comparison answers. -/
theorem runningArgmax_lt (gt : α → α → Bool) (o : ℕ → α) {n : ℕ} (hn : 0 < n) :
    runningArgmax gt o n < n := by
  induction n with
  | zero => exact absurd hn (Nat.lt_irrefl 0)
  | succ n ih =>
      rw [runningArgmax_succ]
      split
      · exact Nat.lt_succ_self n
      · rcases Nat.eq_zero_or_pos n with rfl | hpos
        · exact Nat.succ_pos _
        · exact (ih hpos).trans (Nat.lt_succ_self n)

variable [LinearOrder α]

/-- Python's `max`; the list is not empty where it is used. -/
def listMax (d : α) : List α → α
  | [] => d
  | a :: l => l.foldl (fun m v => if v > m then v else m) a

theorem foldl_max_spec (l : List α) (a : α) :
    l.foldl (fun m v => if v > m then v else m) a ∈ a :: l ∧
      ∀ v ∈ a :: l, v ≤ l.foldl (fun m v => if v > m then v else m) a := by
  induction l generalizing a with
  | nil => simp
  | cons b l ih =>
      obtain ⟨hmem, hle⟩ := ih (if b > a then b else a)
      rw [List.foldl_cons]
      constructor
      · rcases List.mem_cons.mp hmem with h | h
        · rw [h]
          split <;> simp
        · exact List.mem_cons_of_mem _ (List.mem_cons_of_mem _ h)
      · have hstart : a ≤ (if b > a then b else a) ∧ b ≤ (if b > a then b else a) := by
          split
          · next h => exact ⟨h.le, le_refl b⟩
          · next h => exact ⟨le_refl a, not_lt.mp h⟩
        have htop := hle _ List.mem_cons_self
        intro v hv
        rcases List.mem_cons.mp hv with rfl | hv
        · exact hstart.1.trans htop
        · rcases List.mem_cons.mp hv with rfl | hv
          · exact hstart.2.trans htop
          · exact hle v (List.mem_cons_of_mem _ hv)

/-- The maximum of a list is the element that is none below another. -/
theorem listMax_eq {d a : α} {l : List α} (hmem : a ∈ l) (hmax : ∀ v ∈ l, v ≤ a) :
    listMax d l = a := by
  cases l with
  | nil => cases hmem
  | cons b l =>
      obtain ⟨hin, hle⟩ := foldl_max_spec l b
      exact le_antisymm (hmax _ hin) (hle a hmem)

/-- The loop ends with the first index of the maximum. -/
theorem runningArgmax_spec (o : ℕ → α) {n : ℕ} (hn : 0 < n) :
    let k := runningArgmax (fun a b => decide (a > b)) o n
    (∀ i < n, o i ≤ o k) ∧ ∀ i < k, o i < o k := by
  induction n with
  | zero => exact absurd hn (Nat.lt_irrefl 0)
  | succ n ih =>
      rw [runningArgmax_succ]
      rcases Nat.eq_zero_or_pos n with rfl | hpos
      -- the first value is not greater than itself
      · simp [runningArgmax]
      · obtain ⟨hmax, hfirst⟩ := ih hpos
        dsimp only
        split
        · next hgt =>
            have hgt' := of_decide_eq_true hgt
            constructor
            · intro i hi
              rcases Nat.lt_succ_iff_lt_or_eq.mp hi with h | rfl
              · exact (hmax i h).trans hgt'.le
              · exact le_refl _
            · intro i hi
              exact (hmax i hi).trans_lt hgt'
        · next hgt =>
            have hgt' : ¬ o n > o (runningArgmax _ o n) := fun h => hgt (decide_eq_true h)
            refine ⟨?_, hfirst⟩
            intro i hi
            rcases Nat.lt_succ_iff_lt_or_eq.mp hi with h | rfl
            · exact hmax i h
            · exact not_lt.mp hgt'

/-- **The loop agrees with looking the maximum up in the list of the values.** -/
theorem runningArgmax_eq_idxOf (d : α) (o : ℕ → α) {n : ℕ} (hn : 0 < n) :
    runningArgmax (fun a b => decide (a > b)) o n =
      ((List.range n).map o).idxOf (listMax d ((List.range n).map o)) := by
  have hk := runningArgmax_lt (fun a b => decide (a > b)) o hn
  obtain ⟨hmax, hfirst⟩ := runningArgmax_spec o hn
  generalize runningArgmax (fun a b => decide (a > b)) o n = k at hk hmax hfirst
  have hlist : listMax d ((List.range n).map o) = o k := by
    apply listMax_eq
    · exact List.mem_map.mpr ⟨k, List.mem_range.mpr hk, rfl⟩
    · intro v hv
      obtain ⟨i, hi, rfl⟩ := List.mem_map.mp hv
      exact hmax i (List.mem_range.mp hi)
  rw [hlist, List.idxOf, eq_comm, List.findIdx_eq (by simpa using hk)]
  constructor
  · simp
  · intro j hj
    have hne : o j ≠ o k := (hfirst j hj).ne
    simpa using hne

end Argmax

end IotcDemos
