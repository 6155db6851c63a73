import Mathlib.Tactic

set_option autoImplicit false

/-! # Suppression in the order of a list

`suppress` goes through a list from its front. Each element that is still alive there kills the
living ones behind it that it hits. What is left alive does not hit one another
(`suppress_pairwise`), and what was killed is hit by something left alive that stood before it
(`mem_suppress`), so in a sorted list by something of a higher rank.
-/

namespace IotcDemos

section Suppress

variable {α β : Type} (alive : α → Bool) (kill : α → α) (hits : α → α → Bool)

/-- `d` kills what it hits. -/
def sweep (d : α) (ds : List α) : List α :=
  ds.map fun e => if alive e && hits d e then kill e else e

/-- The first argument counts the elements that are left. -/
def suppressLoop : ℕ → List α → List α
  | 0, ds => ds
  | _ + 1, [] => []
  | n + 1, d :: ds => d :: suppressLoop n (if alive d then sweep alive kill hits d ds else ds)

def suppress (ds : List α) : List α := suppressLoop alive kill hits ds.length ds

@[simp] theorem length_sweep (d : α) (ds : List α) :
    (sweep alive kill hits d ds).length = ds.length := List.length_map _

variable {alive kill hits}

theorem mem_sweep {d e : α} {ds : List α} (h : e ∈ sweep alive kill hits d ds) :
    e ∈ ds ∨ ∃ a ∈ ds, e = kill a ∧ alive a = true ∧ hits d a = true := by
  obtain ⟨a, ha, rfl⟩ := List.mem_map.mp h
  by_cases hkill : (alive a && hits d a) = true
  · rw [if_pos hkill]
    rw [Bool.and_eq_true] at hkill
    exact Or.inr ⟨a, ha, rfl, hkill⟩
  · rw [if_neg hkill]
    exact Or.inl ha

/-- What a kill does not change is as before. -/
theorem map_sweep {f : α → β} (hf : ∀ a, f (kill a) = f a) (d : α) (ds : List α) :
    (sweep alive kill hits d ds).map f = ds.map f := by
  rw [sweep, List.map_map]
  apply List.map_congr_left
  intro a _
  rw [Function.comp_apply]
  split
  · exact hf a
  · rfl

theorem map_suppressLoop {f : α → β} (hf : ∀ a, f (kill a) = f a) (n : ℕ) (ds : List α) :
    (suppressLoop alive kill hits n ds).map f = ds.map f := by
  induction n generalizing ds with
  | zero => rfl
  | succ n ih =>
      cases ds with
      | nil => rfl
      | cons d ds =>
          rw [suppressLoop, List.map_cons, List.map_cons, ih]
          split
          · rw [map_sweep hf]
          · rfl

theorem map_suppress {f : α → β} (hf : ∀ a, f (kill a) = f a) (ds : List α) :
    (suppress alive kill hits ds).map f = ds.map f := map_suppressLoop hf _ ds

/-- Suppression only looks at what it is given to look at. -/
theorem suppressLoop_comm (f : α → β) {alive' : β → Bool} {kill' : β → β} {hits' : β → β → Bool}
    (halive : ∀ a, alive' (f a) = alive a) (hkill : ∀ a, kill' (f a) = f (kill a))
    (hhits : ∀ a b, hits' (f a) (f b) = hits a b) (n : ℕ) (ds : List α) :
    suppressLoop alive' kill' hits' n (ds.map f) = (suppressLoop alive kill hits n ds).map f := by
  have hsweep : ∀ d ds, sweep alive' kill' hits' (f d) (List.map f ds) =
      (sweep alive kill hits d ds).map f := by
    intro d ds
    rw [sweep, sweep, List.map_map, List.map_map]
    apply List.map_congr_left
    intro a _
    simp only [Function.comp_apply, halive, hhits, hkill]
    split <;> rfl
  induction n generalizing ds with
  | zero => rfl
  | succ n ih =>
      cases ds with
      | nil => rfl
      | cons d ds =>
          rw [List.map_cons, suppressLoop, suppressLoop, List.map_cons, halive, ← ih]
          split
          · rw [hsweep]
          · rfl

theorem suppress_comm (f : α → β) {alive' : β → Bool} {kill' : β → β} {hits' : β → β → Bool}
    (halive : ∀ a, alive' (f a) = alive a) (hkill : ∀ a, kill' (f a) = f (kill a))
    (hhits : ∀ a b, hits' (f a) (f b) = hits a b) (ds : List α) :
    suppress alive' kill' hits' (ds.map f) = (suppress alive kill hits ds).map f := by
  rw [suppress, suppress, List.length_map]
  exact suppressLoop_comm f halive hkill hhits _ ds

/-! ## What is left, and why the rest is not -/

section Outcome

variable {R : α → α → Prop}

/-- The rank of two elements is not changed by a kill. -/
theorem pairwise_sweep (hRl : ∀ a b, R a b → R (kill a) b) (hRr : ∀ a b, R a b → R a (kill b))
    {ds : List α} (hR : ds.Pairwise R) (d : α) : (sweep alive kill hits d ds).Pairwise R := by
  rw [sweep, List.pairwise_map]
  refine hR.imp fun {a b} hab => ?_
  split <;> split
  · exact hRl _ _ (hRr _ _ hab)
  · exact hRl _ _ hab
  · exact hRr _ _ hab
  · exact hab

variable (hdead : ∀ a, alive (kill a) = false) (hhits : ∀ d a, hits d (kill a) = hits d a)
include hdead hhits

theorem mem_suppressLoop (hRl : ∀ a b, R a b → R (kill a) b) (hRr : ∀ a b, R a b → R a (kill b))
    (n : ℕ) {ds : List α} (hR : ds.Pairwise R) :
    ∀ d' ∈ suppressLoop alive kill hits n ds, d' ∈ ds ∨ ∃ d ∈ ds, d' = kill d ∧ alive d = true ∧
      ∃ e ∈ suppressLoop alive kill hits n ds, alive e = true ∧ hits e d' = true ∧ R e d' := by
  induction n generalizing ds with
  | zero => exact fun d' h => Or.inl h
  | succ n ih =>
      cases ds with
      | nil => simp [suppressLoop]
      | cons d ds =>
          rw [suppressLoop]
          obtain ⟨hd, hds⟩ := List.pairwise_cons.mp hR
          intro d' hd'
          rcases List.mem_cons.mp hd' with rfl | hd'
          · exact Or.inl List.mem_cons_self
          · by_cases halive : alive d = true
            · rw [if_pos halive] at hd' ⊢
              rcases ih (pairwise_sweep hRl hRr hds d) d' hd' with
                h | ⟨a, ha, hkill, hal, e, he, hee⟩
              · -- the rest keeps it: then it is as before, or `d` has killed it
                rcases mem_sweep h with h | ⟨a, ha, rfl, hal, hhit⟩
                · exact Or.inl (List.mem_cons_of_mem _ h)
                · refine Or.inr ⟨a, List.mem_cons_of_mem _ ha, rfl, hal, d, List.mem_cons_self,
                    halive, ?_, hRr _ _ (hd a ha)⟩
                  rwa [hhits]
              · -- the rest kills it, so it was alive there, and `d` had not killed it
                rcases mem_sweep ha with ha | ⟨b, hb, rfl, -, -⟩
                · exact Or.inr ⟨a, List.mem_cons_of_mem _ ha, hkill, hal, e,
                    List.mem_cons_of_mem _ he, hee⟩
                · rw [hdead] at hal
                  exact absurd hal Bool.false_ne_true
            · rw [if_neg halive] at hd' ⊢
              rcases ih hds d' hd' with h | ⟨a, ha, hkill, hal, e, he, hee⟩
              · exact Or.inl (List.mem_cons_of_mem _ h)
              · exact Or.inr ⟨a, List.mem_cons_of_mem _ ha, hkill, hal, e,
                  List.mem_cons_of_mem _ he, hee⟩

/-- **Every kill has its reason.** What suppression leaves is as it was, or it was killed, and
something left alive that stood before it hits it. -/
theorem mem_suppress (hRl : ∀ a b, R a b → R (kill a) b) (hRr : ∀ a b, R a b → R a (kill b))
    {ds : List α} (hR : ds.Pairwise R) {d' : α} (h : d' ∈ suppress alive kill hits ds) :
    d' ∈ ds ∨ ∃ d ∈ ds, d' = kill d ∧ alive d = true ∧
      ∃ e ∈ suppress alive kill hits ds, alive e = true ∧ hits e d' = true ∧ R e d' :=
  mem_suppressLoop hdead hhits hRl hRr _ hR d' h

/-- A living element of the result hits no living one behind it. -/
theorem suppressLoop_pairwise (n : ℕ) (ds : List α) (hn : ds.length ≤ n) :
    (suppressLoop alive kill hits n ds).Pairwise
      fun d e => alive d = true → alive e = true → hits d e = false := by
  induction n generalizing ds with
  | zero =>
      rw [List.length_eq_zero_iff.mp (Nat.le_zero.mp hn)]
      exact List.Pairwise.nil
  | succ n ih =>
      cases ds with
      | nil => exact List.Pairwise.nil
      | cons d ds =>
          rw [List.length_cons] at hn
          rw [suppressLoop, List.pairwise_cons]
          constructor
          · intro e he hd hal
            rw [if_pos hd] at he
            have hrank : (sweep alive kill hits d ds).Pairwise fun _ _ => True :=
              List.pairwise_of_forall fun _ _ => trivial
            -- A living element of the rest is one that `d` has spared.
            rcases mem_suppressLoop hdead hhits (fun _ _ h => h) (fun _ _ h => h) n hrank e he
              with he | ⟨a, -, rfl, -⟩
            · obtain ⟨a, -, rfl⟩ := List.mem_map.mp he
              by_cases hkill : (alive a && hits d a) = true
              · rw [if_pos hkill, hdead] at hal
                exact absurd hal Bool.false_ne_true
              · rw [if_neg hkill] at hal ⊢
                rw [hal, Bool.true_and] at hkill
                exact Bool.not_eq_true _ ▸ hkill
            · rw [hdead] at hal
              exact absurd hal Bool.false_ne_true
          · apply ih
            split
            · rw [length_sweep]
              omega
            · omega

/-- **What is left alive does not hit one another.** -/
theorem suppress_pairwise (ds : List α) :
    (suppress alive kill hits ds).Pairwise
      fun d e => alive d = true → alive e = true → hits d e = false :=
  suppressLoop_pairwise hdead hhits _ ds le_rfl

end Outcome

end Suppress

end IotcDemos
