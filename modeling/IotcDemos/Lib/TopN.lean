import Mathlib.Tactic

set_option autoImplicit false

/-! # The greatest of a stream

Elements are offered one after the other. `IsTop key n offered kept` says that `kept` are `n` of the
offered ones with the greatest keys, or all of them while there are fewer. The rules say what may be
done with the next one: keep it while there is room (`grow`), pass it by if it is no greater than
any kept (`pass`), or put it in the place of a least one (`replace`).
-/

namespace IotcDemos

section TopN

variable {α κ : Type} [LinearOrder κ] {key : α → κ} {n : ℕ} {offered kept : List α} {d : α}

def IsTop (key : α → κ) (n : ℕ) (offered kept : List α) : Prop :=
  ∃ dropped, (kept ++ dropped).Perm offered ∧ kept.length = min n offered.length ∧
    ∀ a ∈ dropped, ∀ k ∈ kept, key a ≤ key k

namespace IsTop

theorem nil (key : α → κ) (n : ℕ) : IsTop key n [] [] :=
  ⟨[], List.Perm.refl _, by simp, by simp⟩

theorem length_eq (h : IsTop key n offered kept) : kept.length = min n offered.length := by
  obtain ⟨-, -, hlen, -⟩ := h
  exact hlen

theorem mem (h : IsTop key n offered kept) {k : α} (hk : k ∈ kept) : k ∈ offered := by
  obtain ⟨dropped, hperm, -, -⟩ := h
  exact hperm.mem_iff.mp (List.mem_append_left _ hk)

theorem perm {kept' : List α} (h : IsTop key n offered kept) (hp : kept'.Perm kept) :
    IsTop key n offered kept' := by
  obtain ⟨dropped, hperm, hlen, hle⟩ := h
  refine ⟨dropped, (hp.append_right dropped).trans hperm, hp.length_eq.trans hlen, ?_⟩
  exact fun a ha k hk => hle a ha k (hp.mem_iff.mp hk)

theorem perm_snoc {l : List α} (h : l.Perm offered) : (d :: l).Perm (offered ++ [d]) :=
  (h.cons d).trans (List.perm_append_singleton d offered).symm

/-- No place for one that is no greater than any kept. -/
theorem pass (h : IsTop key n offered kept) (hfull : n ≤ offered.length)
    (hle : ∀ k ∈ kept, key d ≤ key k) : IsTop key n (offered ++ [d]) kept := by
  obtain ⟨dropped, hperm, hlen, hdrop⟩ := h
  refine ⟨d :: dropped, List.perm_middle.trans (perm_snoc hperm), ?_, ?_⟩
  · rw [List.length_append]
    omega
  · intro a ha k hk
    rcases List.mem_cons.mp ha with rfl | ha
    · exact hle k hk
    · exact hdrop a ha k hk

end IsTop

end TopN

end IotcDemos
