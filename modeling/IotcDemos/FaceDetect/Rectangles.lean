import IotcDemos.FaceDetect.Results

set_option autoImplicit false

/-! # Rectangles on slices

A frame goes to the display in slices, and `draw_rect_on_slice_buffer` draws on each slice its part
of the rectangles: two lines of up to four pixels across, and two of four pixels down. A buffer is a
function from byte offsets. The lines down are not cut off at the right edge.
-/

namespace IotcDemos.FaceDetect

abbrev PixelBuf : Type := ℤ → UInt8

/-- `RECT_COLOR32`, of which `memset` takes the low byte. -/
def rectColor : UInt8 := 0xFF

section Draw

variable {F : Type} (srcW curY sliceHeight : ℤ)

end Draw

/-! ## What is painted -/

/-- From `m` to `m'` nothing but bytes of `s` is painted. -/
structure Paints (s : Set ℤ) (m m' : PixelBuf) : Prop where
  inside : ∀ i ∈ s, m' i = rectColor
  outside : ∀ i, i ∉ s → m' i = m i

namespace Paints

theorem trans {s t : Set ℤ} {m m' m'' : PixelBuf} (h : Paints s m m') (h' : Paints t m' m'') :
    Paints (s ∪ t) m m'' where
  inside i hi := by
    by_cases ht : i ∈ t
    · exact h'.inside i ht
    · rw [h'.outside i ht]
      exact h.inside i (hi.resolve_right ht)
  outside i hi := by
    rw [h'.outside i fun ht => hi (Or.inr ht)]
    exact h.outside i fun hs => hi (Or.inl hs)

/-- A loop paints what its rounds paint. -/
theorem foldl {α : Type} {f : PixelBuf → α → PixelBuf} {s : α → Set ℤ} {l : List α}
    (h : ∀ a ∈ l, ∀ m, Paints (s a) m (f m a)) (m : PixelBuf) :
    Paints {i | ∃ a ∈ l, i ∈ s a} m (l.foldl f m) := by
  induction l generalizing m with
  | nil => exact ⟨by simp, fun _ _ => rfl⟩
  | cons a l ih =>
      have hrest := (h a List.mem_cons_self m).trans
        (ih (fun b hb => h b (List.mem_cons_of_mem a hb)) (f m a))
      have hset : s a ∪ {i | ∃ b ∈ l, i ∈ s b} = {i | ∃ b ∈ a :: l, i ∈ s b} := by
        ext i
        simp
      rwa [hset] at hrest

end Paints

/-- A rectangle that fits a line of `w` pixels. -/
def ODResult.Fits {F : Type} (w : ℕ) (r : ODResult F) : Prop := 0 ≤ r.x1 ∧ r.x1 ≤ r.x2 ∧ r.x2 ≤ w

section Painted

variable {F : Type} (w h : ℕ) (curY : ℤ) (r : ODResult F)

/-- The bytes of line `y` from `x` to `x'`. -/
def span (y : ℤ) (x x' : ℤ) : Set ℤ := Set.Ico (2 * (w * y + x)) (2 * (w * y + x'))

variable {w r}

end Painted

end IotcDemos.FaceDetect
