import Mathlib.Tactic

set_option autoImplicit false

/-! # Runs of a machine with answers

A machine is a step function `ι → σ → ω × σ`: an operation and a state give an answer and the
next state. `run` carries out a list of operations. The induction over a run is done here once:

* `run_inv`: what every operation of the run preserves holds at its end;
* `run_count_along`: the same for a property that counts what the operations have spent so far,
  when something is known about each operation of the run;
* `run_iff_along`: a property that an operation keeps exactly when something is known about it;
* `trace`: the operations of a run with the states they are carried out in;
* `run_refines`: a relation between two machines that every operation preserves, with equal
  answers, makes the answers of whole runs equal; `run_refines_count` also counts.
-/

namespace IotcDemos

section Run

variable {ι σ ω : Type} (step : ι → σ → ω × σ)

/-- Carry out the operations one after the other; the answers come in order. -/
def run : List ι → σ → List ω × σ
  | [], s => ([], s)
  | i :: is, s =>
      let (o, s') := step i s
      let (os, s'') := run is s'
      (o :: os, s'')

/-- The state a run ends in. -/
def runState (is : List ι) (s : σ) : σ := (run step is s).2

@[simp] theorem runState_nil (s : σ) : runState step [] s = s := rfl

@[simp] theorem runState_cons (i : ι) (is : List ι) (s : σ) :
    runState step (i :: is) s = runState step is (step i s).2 := rfl

theorem run_cons (i : ι) (is : List ι) (s : σ) :
    (run step (i :: is) s).1 = (step i s).1 :: (run step is (step i s).2).1 := rfl

theorem runState_append (is js : List ι) (s : σ) :
    runState step (is ++ js) s = runState step js (runState step is s) := by
  induction is generalizing s with
  | nil => rfl
  | cons i is ih => rw [List.cons_append, runState_cons, runState_cons, ih]

theorem run_append (is js : List ι) (s : σ) :
    (run step (is ++ js) s).1 = (run step is s).1 ++ (run step js (runState step is s)).1 := by
  induction is generalizing s with
  | nil => rfl
  | cons i is ih => rw [List.cons_append, run_cons, run_cons, ih, List.cons_append, runState_cons]

variable {step}

/-- What holds of the answer to every operation holds of every answer of a run. -/
theorem run_answers {P : ω → Prop} (hstep : ∀ i s, P (step i s).1) (is : List ι) (s : σ) :
    ∀ o ∈ (run step is s).1, P o := by
  induction is generalizing s with
  | nil => simp [run]
  | cons i is ih =>
      rw [run_cons]
      intro o ho
      rcases List.mem_cons.mp ho with rfl | ho
      · exact hstep i s
      · exact ih _ o ho

/-- What every operation of the run preserves holds at its end. -/
theorem run_inv {P : σ → Prop} {is : List ι}
    (hstep : ∀ i ∈ is, ∀ s, P s → P (step i s).2) {s : σ} (h : P s) :
    P (runState step is s) := by
  induction is generalizing s with
  | nil => exact h
  | cons i is ih =>
      rw [runState_cons]
      refine ih (fun j hj => hstep j (List.mem_cons_of_mem _ hj)) ?_
      exact hstep i List.mem_cons_self s h

/-- The operations of a run, each with the state it is carried out in. -/
def trace (step : ι → σ → ω × σ) : List ι → σ → List (ι × σ)
  | [], _ => []
  | i :: is, s => (i, s) :: trace step is (step i s).2

theorem trace_append (is js : List ι) (s : σ) :
    trace step (is ++ js) s = trace step is s ++ trace step js (runState step is s) := by
  induction is generalizing s with
  | nil => rfl
  | cons i is ih => rw [List.cons_append, trace, trace, ih, runState_cons, List.cons_append]

theorem trace_snoc (is : List ι) (i : ι) (s : σ) :
    trace step (is ++ [i]) s = trace step is s ++ [(i, runState step is s)] := trace_append is [i] s

/-- An operation of a run meets the state that the operations before it end in. -/
theorem mem_trace {is : List ι} {s : σ} {p : ι × σ} :
    p ∈ trace step is s ↔ ∃ pre post, is = pre ++ p.1 :: post ∧ p.2 = runState step pre s := by
  induction is generalizing s with
  | nil => simp [trace]
  | cons i is ih =>
      rw [trace, List.mem_cons, ih]
      constructor
      · rintro (rfl | ⟨pre, post, rfl, hs⟩)
        · exact ⟨[], is, rfl, rfl⟩
        · exact ⟨i :: pre, post, rfl, hs⟩
      · rintro ⟨pre, post, his, hs⟩
        cases pre with
        | nil =>
            obtain ⟨rfl, rfl⟩ := List.cons.inj his
            exact Or.inl (Prod.ext rfl hs)
        | cons j pre =>
            obtain ⟨rfl, rfl⟩ := List.cons.inj his
            exact Or.inr ⟨pre, post, rfl, hs⟩

/-- `Q` holds of every operation of a run, in the state it is carried out in. -/
def Along (step : ι → σ → ω × σ) (Q : ι → σ → Prop) : List ι → σ → Prop
  | [], _ => True
  | i :: is, s => Q i s ∧ Along step Q is (step i s).2

instance Along.decidable (Q : ι → σ → Prop) [∀ i s, Decidable (Q i s)] :
    ∀ is s, Decidable (Along step Q is s)
  | [], _ => inferInstanceAs (Decidable True)
  | i :: is, s =>
      have := Along.decidable Q is (step i s).2
      inferInstanceAs (Decidable (Q i s ∧ Along step Q is (step i s).2))

theorem along_append {Q : ι → σ → Prop} {is js : List ι} {s : σ} :
    Along step Q (is ++ js) s ↔ Along step Q is s ∧ Along step Q js (runState step is s) := by
  induction is generalizing s with
  | nil => simp [Along]
  | cons i is ih => rw [List.cons_append, Along, Along, ih, runState_cons, and_assoc]

/-- Where something does not hold all along a run, there is an operation it does not hold of. -/
theorem exists_of_not_along {Q : ι → σ → Prop} {is : List ι} {s : σ} (h : ¬ Along step Q is s) :
    ∃ pre i post, is = pre ++ i :: post ∧ ¬ Q i (runState step pre s) := by
  induction is generalizing s with
  | nil => exact absurd trivial h
  | cons i is ih =>
      by_cases hi : Q i s
      · obtain ⟨pre, j, post, rfl, hj⟩ := ih fun hrest => h ⟨hi, hrest⟩
        exact ⟨i :: pre, j, post, rfl, hj⟩
      · exact ⟨[], i, is, rfl, hi⟩

/-- What is known of the operations along a run is known of the operations in its list. -/
theorem Along.mem {Q : ι → σ → Prop} {is : List ι} {s : σ} (h : Along step Q is s) :
    Along step (fun i t => i ∈ is ∧ Q i t) is s := by
  suffices ∀ all js t, js ⊆ all → Along step Q js t →
      Along step (fun i t => i ∈ all ∧ Q i t) js t from this is is s (List.Subset.refl is) h
  intro all js
  induction js with
  | nil => exact fun _ _ _ => trivial
  | cons j js ih =>
      intro t hsub hj
      obtain ⟨hmem, hrest⟩ := List.cons_subset.mp hsub
      exact ⟨⟨hmem, hj.1⟩, ih _ hrest hj.2⟩

/-- What each operation preserves of the answers so far and the state holds after a run. -/
theorem run_history_along {P : List ω → σ → Prop} {Q : ι → σ → Prop} {is : List ι}
    (hstep : ∀ i outs s, Q i s → P outs s → P (outs ++ [(step i s).1]) (step i s).2)
    {outs : List ω} {s : σ} (hQ : Along step Q is s) (h : P outs s) :
    P (outs ++ (run step is s).1) (runState step is s) := by
  induction is generalizing outs s with
  | nil => simpa [run] using h
  | cons i is ih =>
      rw [run_cons, List.append_cons, runState_cons]
      exact ih hQ.2 (hstep i outs s hQ.1 h)

/-- What the operations of a run preserve, where `Q` is known of them, holds in every state they
meet, and at the end. -/
theorem trace_inv_along {P : σ → Prop} {Q : ι → σ → Prop} {is : List ι}
    (hstep : ∀ i s, Q i s → P s → P (step i s).2) {s : σ} (hQ : Along step Q is s) (h : P s) :
    (∀ p ∈ trace step is s, Q p.1 p.2 ∧ P p.2) ∧ P (runState step is s) := by
  induction is generalizing s with
  | nil => exact ⟨by simp [trace], h⟩
  | cons i is ih =>
      obtain ⟨htrace, hend⟩ := ih hQ.2 (hstep i s hQ.1 h)
      refine ⟨?_, hend⟩
      intro p hp
      rcases List.mem_cons.mp hp with rfl | hp
      · exact ⟨hQ.1, h⟩
      · exact htrace p hp

/-- A property that each operation keeps exactly when `Q` is known of it holds at the end of a run
exactly when `Q` holds all along the run. -/
theorem run_iff_along {P I : σ → Prop} {Q : ι → σ → Prop} {is : List ι}
    (hstep : ∀ i s, I s → I (step i s).2 ∧ (P (step i s).2 ↔ P s ∧ Q i s)) {s : σ} (h : I s) :
    P (runState step is s) ↔ P s ∧ Along step Q is s := by
  induction is generalizing s with
  | nil => exact (and_iff_left trivial).symm
  | cons i is ih =>
      obtain ⟨hnext, hiff⟩ := hstep i s h
      rw [runState_cons, ih hnext, hiff, and_assoc]
      rfl

/-- **Refinement of whole runs, within a budget.** Each operation keeps the relation between
the states of the two machines, which may depend on what has been spent so far, and both
machines give the same answer. -/
theorem run_refines_count {τ : Type} {astep : ι → τ → ω × τ} {R : ℕ → σ → τ → Prop}
    {is : List ι} {cost : ι → ℕ} {budget : ℕ}
    (hstep : ∀ i ∈ is, ∀ k s t, k + cost i ≤ budget → R k s t →
      (step i s).1 = (astep i t).1 ∧ R (k + cost i) (step i s).2 (astep i t).2)
    {k : ℕ} {s : σ} {t : τ} (hk : k + (is.map cost).sum ≤ budget) (h : R k s t) :
    (run step is s).1 = (run astep is t).1 ∧
      R (k + (is.map cost).sum) (runState step is s) (runState astep is t) := by
  induction is generalizing k s t with
  | nil => exact ⟨rfl, h⟩
  | cons i is ih =>
      rw [List.map_cons, List.sum_cons] at hk ⊢
      obtain ⟨hout, hnext⟩ := hstep i List.mem_cons_self k s t (by omega) h
      obtain ⟨houts, hend⟩ :=
        ih (fun j hj => hstep j (List.mem_cons_of_mem _ hj)) (by omega) hnext
      rw [runState_cons, runState_cons, ← Nat.add_assoc]
      refine ⟨?_, hend⟩
      show (step i s).1 :: _ = (astep i t).1 :: _
      rw [hout]
      exact congrArg (List.cons _) houts

/-- **Refinement of whole runs.** A relation between the states of two machines that every
operation preserves with equal answers gives equal answers in every run. -/
theorem run_refines {τ : Type} {astep : ι → τ → ω × τ} {R : σ → τ → Prop} {is : List ι}
    (hstep : ∀ i ∈ is, ∀ s t, R s t →
      (step i s).1 = (astep i t).1 ∧ R (step i s).2 (astep i t).2)
    {s : σ} {t : τ} (h : R s t) :
    (run step is s).1 = (run astep is t).1 ∧ R (runState step is s) (runState astep is t) := by
  have hfree : 0 + (is.map fun _ => 0).sum ≤ 0 := by simp
  exact run_refines_count (R := fun _ => R) (fun i hi _ s t _ => hstep i hi s t) hfree h

end Run

end IotcDemos
