import IotcDemos.Lib.Split

set_option autoImplicit false

/-! # Texts as Python reads them

A text file is read with universal newlines: `"\r\n"` and `'\r'` become `'\n'`. A reader that looks
at each line by itself and ignores empty ones may as well end a line at either character
(`universalNewlines_parts`).
-/

namespace IotcDemos

/-- The white space of `str.strip`, and of `\s` in a regular expression. -/
def isPySpace (c : Char) : Bool :=
  c.toNat ∈ [9, 10, 11, 12, 13, 28, 29, 30, 31, 32, 0x85, 0xa0, 0x1680, 0x2000, 0x2001, 0x2002,
    0x2003, 0x2004, 0x2005, 0x2006, 0x2007, 0x2008, 0x2009, 0x200a, 0x2028, 0x2029, 0x202f, 0x205f,
    0x3000]

/-- How Python reads the ends of lines in a text file. -/
def universalNewlines : List Char → List Char
  | '\r' :: '\n' :: rest => '\n' :: universalNewlines rest
  | '\r' :: rest => '\n' :: universalNewlines rest
  | c :: rest => c :: universalNewlines rest
  | [] => []

def isLineEnd (c : Char) : Bool := c == '\n' || c == '\r'

theorem isLineEnd_false {c : Char} (h : isPySpace c = false) : isLineEnd c = false := by
  by_contra heol
  have hcase : c = '\n' ∨ c = '\r' := by
    rwa [Bool.not_eq_false, isLineEnd, Bool.or_eq_true, beq_iff_eq, beq_iff_eq] at heol
  rcases hcase with rfl | rfl
  · exact absurd h (by decide)
  · exact absurd h (by decide)

theorem strip_eq_self {α : Type} {p : α → Bool} {l : List α} (h : ∀ c ∈ l, p c = false) :
    strip p l = l := by
  have hfront : l.dropWhile p = l := by
    cases l with
    | nil => rfl
    | cons c l => rw [List.dropWhile_cons_of_neg (by rw [h c List.mem_cons_self]; exact nofun)]
  rw [strip, hfront]
  induction l using List.reverseRecOn with
  | nil => rfl
  | append_singleton l c ih =>
      exact List.rdropWhile_concat_neg p l c (by rw [h c (by simp)]; exact nofun)

/-- A line that ends in `"\r\n"` is followed by an empty one where both characters end lines. -/
theorem universalNewlines_parts {γ : Type} {f : List Char → Option γ} (hf : f [] = none)
    (text : List Char) :
    ∃ part parts parts', (universalNewlines text).splitOnP (· == '\n') = part :: parts ∧
      text.splitOnP isLineEnd = part :: parts' ∧ parts.filterMap f = parts'.filterMap f := by
  have hcons : ∀ (p : Char → Bool) (c : Char) (l : List Char), p c = true →
      (c :: l).splitOnP p = [] :: l.splitOnP p := by
    intro p c l hc
    rw [List.splitOnP_cons_eq_if_modifyHead, if_pos hc]
  fun_induction universalNewlines text with
  | case1 rest ih =>
      obtain ⟨part, parts, parts', h, h', heq⟩ := ih
      refine ⟨[], part :: parts, [] :: part :: parts', ?_, ?_, ?_⟩
      · rw [hcons _ _ _ rfl, h]
      · -- the second end makes an empty part
        rw [hcons _ _ _ rfl, hcons _ _ _ rfl, h']
      · rw [List.filterMap_cons_none hf, List.filterMap_cons, List.filterMap_cons, heq]
  | case2 rest hrest ih =>
      obtain ⟨part, parts, parts', h, h', heq⟩ := ih
      refine ⟨[], part :: parts, part :: parts', ?_, ?_, ?_⟩
      · rw [hcons _ _ _ rfl, h]
      · rw [hcons _ _ _ rfl, h']
      · rw [List.filterMap_cons, List.filterMap_cons, heq]
  | case3 c rest hcr hcr' ih =>
      obtain ⟨part, parts, parts', h, h', heq⟩ := ih
      -- a newline ends a line in both, any other character goes on with it
      by_cases hc : c = '\n'
      · subst hc
        refine ⟨[], part :: parts, part :: parts', ?_, ?_, ?_⟩
        · rw [hcons _ _ _ rfl, h]
        · rw [hcons _ _ _ rfl, h']
        · rw [List.filterMap_cons, List.filterMap_cons, heq]
      · have hne : c ≠ '\r' := hcr'
        refine ⟨c :: part, parts, parts', ?_, ?_, heq⟩
        · rw [List.splitOnP_cons_eq_if_modifyHead, if_neg (by simpa using hc), h]
          rfl
        · rw [List.splitOnP_cons_eq_if_modifyHead, if_neg (by simp [isLineEnd, hc, hne]), h']
          rfl
  | case4 => exact ⟨[], [], [], rfl, rfl, rfl⟩

end IotcDemos
