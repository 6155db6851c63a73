import Mathlib.Data.List.DropRight

set_option autoImplicit false

/-! # Splitting at separators

`List.splitOnP` cuts a list at the elements that a predicate holds of. Splitting by two kinds of
separators is splitting by one kind first (`splitOnP_refine`). `strip p` removes such elements from
both ends.
-/

namespace IotcDemos

section Split

variable {α β : Type} {p q : α → Bool}

/-- Where every separator of `p` is one of `q`, the parts can be split again. -/
theorem splitOnP_refine (hpq : ∀ x, p x = true → q x = true) (l : List α) :
    l.splitOnP q = (l.splitOnP p).flatMap (List.splitOnP q) := by
  induction l with
  | nil => rfl
  | cons x l ih =>
      obtain ⟨part, parts, hparts⟩ := List.exists_cons_of_ne_nil (List.splitOnP_ne_nil p l)
      rw [List.splitOnP_cons_eq_if_modifyHead, List.splitOnP_cons_eq_if_modifyHead, ih]
      by_cases hp : p x = true
      · rw [if_pos hp, if_pos (hpq x hp), List.flatMap_cons]
        rfl
      · rw [if_neg hp, hparts, List.modifyHead_cons, List.flatMap_cons, List.flatMap_cons,
          List.splitOnP_cons_eq_if_modifyHead]
        split
        · rfl
        · obtain ⟨a, as, has⟩ := List.exists_cons_of_ne_nil (List.splitOnP_ne_nil q part)
          rw [has]
          rfl

/-! ## Stripping -/

def strip (p : α → Bool) (l : List α) : List α := (l.dropWhile p).rdropWhile p

/-- Separators at the ends only make empty parts. -/
theorem filterMap_splitOnP_strip {f : List α → Option β} (hf : f [] = none)
    (hpq : ∀ x, p x = true → q x = true) (l : List α) :
    ((strip p l).splitOnP q).filterMap f = (l.splitOnP q).filterMap f := by
  have hfront : ∀ l : List α,
      ((l.dropWhile p).splitOnP q).filterMap f = (l.splitOnP q).filterMap f := by
    intro l
    induction l with
    | nil => rfl
    | cons x l ih =>
        by_cases hp : p x = true
        · rw [List.dropWhile_cons_of_pos hp, ih, List.splitOnP_cons_eq_if_modifyHead,
            if_pos (hpq x hp), List.filterMap_cons_none hf]
        · rw [List.dropWhile_cons_of_neg hp]
  have hback : ∀ l : List α,
      ((l.rdropWhile p).splitOnP q).filterMap f = (l.splitOnP q).filterMap f := by
    intro l
    induction l using List.reverseRecOn with
    | nil => rfl
    | append_singleton l x ih =>
        by_cases hp : p x = true
        · rw [List.rdropWhile_concat_pos p l x hp, ih, List.splitOnP_append_cons _ _ (hpq x hp),
            List.splitOnP_nil, List.filterMap_append, List.filterMap_cons_none hf,
            List.filterMap_nil, List.append_nil]
        · rw [List.rdropWhile_concat_neg p l x hp]
  rw [strip, hback, hfront]

/-! ## Parts that are left out -/

theorem flatMap_length_le {f g : α → List β} {l : List α}
    (h : ∀ a ∈ l, f a = g a ∨ f a = []) : (l.flatMap f).length ≤ (l.flatMap g).length := by
  induction l with
  | nil => exact Nat.le_refl _
  | cons a l ih =>
      have hrest := ih fun b hb => h b (List.mem_cons_of_mem _ hb)
      rw [List.flatMap_cons, List.flatMap_cons, List.length_append, List.length_append]
      rcases h a List.mem_cons_self with heq | hnil
      · rw [heq]
        omega
      · rw [hnil, List.length_nil]
        omega

/-- Where `f` leaves some of the results of `g` out, nothing is missing exactly when there is
nothing in what it leaves out. -/
theorem flatMap_eq_append_iff {f g : α → List β} {l : List α} {rest : List β}
    (h : ∀ a ∈ l, f a = g a ∨ f a = []) :
    l.flatMap f = l.flatMap g ++ rest ↔ (∀ a ∈ l, f a = g a) ∧ rest = [] := by
  induction l with
  | nil => simp [eq_comm]
  | cons a l ih =>
      have htail : ∀ b ∈ l, f b = g b ∨ f b = [] := fun b hb => h b (List.mem_cons_of_mem _ hb)
      rw [List.flatMap_cons, List.flatMap_cons, List.append_assoc, List.forall_mem_cons, and_assoc,
        ← ih htail]
      rcases h a List.mem_cons_self with heq | hnil
      · rw [heq, List.append_cancel_left_eq]
        simp
      · constructor
        · intro hsame
          have hlen := congrArg List.length hsame
          have hle := flatMap_length_le htail
          rw [hnil, List.nil_append, List.length_append, List.length_append] at hlen
          have hg : g a = [] := List.length_eq_zero_iff.mp (by omega)
          rw [hnil, hg, List.nil_append, List.nil_append] at hsame
          exact ⟨hnil.trans hg.symm, hsame⟩
        · rintro ⟨heq, hsame⟩
          rw [heq, hsame]

end Split

end IotcDemos
