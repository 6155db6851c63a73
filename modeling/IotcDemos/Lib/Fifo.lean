import Mathlib.Tactic

set_option autoImplicit false

/-! # Bounded queues that drop their oldest element

`Fifo.push cap x q` appends `x`; when `q` already holds `cap` elements the oldest one makes
room. `Fifo.offer cap x q` is the other way to treat a full queue: it takes nothing more.
-/

namespace IotcDemos.Fifo

section Fifo

variable {α : Type}

/-- Append `x`; a full queue loses its oldest element. -/
def push (cap : ℕ) (x : α) (q : List α) : List α :=
  (if q.length = cap then q.tail else q) ++ [x]

theorem length_push {cap : ℕ} (hcap : 0 < cap) (x : α) (q : List α) :
    (push cap x q).length = if q.length = cap then q.length else q.length + 1 := by
  rw [push, List.length_append, List.length_singleton]
  split
  · rw [List.length_tail]
    omega
  · rfl

theorem push_length_le {cap : ℕ} {q : List α} (x : α) (hcap : 0 < cap) (hq : q.length ≤ cap) :
    (push cap x q).length ≤ cap := by
  rw [length_push hcap]
  split
  · exact hq
  · omega

/-- The places of a queue after a push: the last one is new, the others have moved up by one if
the queue was full. -/
theorem getElem?_push {cap k : ℕ} {x y : α} {q : List α} (h : (push cap x q)[k]? = some y) :
    k + 1 = (push cap x q).length ∨ q[if q.length = cap then k + 1 else k]? = some y := by
  have hk := (List.getElem?_eq_some_iff.mp h).1
  unfold push at h hk ⊢
  rw [List.length_append, List.length_singleton] at hk ⊢
  by_cases hlast : k = (if q.length = cap then q.tail else q).length
  · left
    rw [hlast]
  · right
    rw [List.getElem?_append_left (by omega)] at h
    by_cases hfull : q.length = cap
    · rw [if_pos hfull, List.getElem?_tail] at h
      rwa [if_pos hfull]
    · rw [if_neg hfull] at h
      rwa [if_neg hfull]

theorem push_map {β : Type} (f : α → β) (cap : ℕ) (x : α) (q : List α) :
    (push cap x q).map f = push cap (f x) (q.map f) := by
  rw [push, push, List.map_append, List.length_map]
  split
  · rw [List.map_tail]
    rfl
  · rfl

/-- Dropping a prefix of elements that satisfy `p`, up to one that does not, is `dropWhile`. -/
theorem drop_eq_dropWhile {p : α → Bool} {q : List α} {j : ℕ}
    (hpre : ∀ i x, i < j → q[i]? = some x → p x = true)
    (hstop : ∀ x, q[j]? = some x → p x = false) :
    q.drop j = q.dropWhile p := by
  induction q generalizing j with
  | nil => simp
  | cons a q ih =>
      cases j with
      | zero =>
          have ha := hstop a rfl
          rw [List.drop_zero, List.dropWhile_cons_of_neg (by simp [ha])]
      | succ j =>
          have ha := hpre 0 a (by omega) rfl
          rw [List.drop_succ_cons, List.dropWhile_cons_of_pos ha]
          exact ih (fun i x hi hx => hpre (i + 1) x (by omega) (by simpa using hx))
            (fun x hx => hstop x (by simpa using hx))

/-! ## Queues that refuse -/

/-- Append `x`, unless the queue is full; also whether it was taken. -/
def offer (cap : ℕ) (x : α) (q : List α) : Bool × List α :=
  if q.length < cap then (true, q ++ [x]) else (false, q)

theorem offer_room {cap : ℕ} {q : List α} (x : α) (h : q.length < cap) :
    offer cap x q = (true, q ++ [x]) := if_pos h

theorem offer_full {cap : ℕ} {q : List α} (x : α) (h : ¬ q.length < cap) :
    offer cap x q = (false, q) := if_neg h

end Fifo

end IotcDemos.Fifo
