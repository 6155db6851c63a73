import Mathlib.Data.List.ReduceOption
import Mathlib.Tactic

set_option autoImplicit false

/-! # A queue that may lose what it holds

Items are made one after the other, with ascending numbers. Each one is sent at once, refused, or
put into a queue of `cap` places, from which items are taken and sent in order; a full queue loses
its oldest item. The queue may begin with places of which nothing is known: such a place is empty
or holds an item with the number 0. `Step.sound` says that no step loses track of an item:

* an item that was made has exactly one fate, sent, queued or lost, and has it once (`fates`);
* items leave the queue in the order in which they were made (`order`).
-/

namespace IotcDemos

/-- The lists of what was made, sent, taken from the queue and lost begin with the latest item. -/
structure LossyQueue (α : Type) where
  made : List α
  queue : List (Option α)
  sent : List α
  taken : List α
  lost : List α

namespace LossyQueue

section LossyQueue

variable {α : Type} (cap : ℕ) (num : α → ℕ)

/-- What a place of the queue turns out to hold. -/
def Holds : Option α → Option α → Prop
  | some x, y => y = some x
  | none, y => ∀ x, y = some x → num x = 0

/-- The number of `x` is larger than those before. -/
def New (x : α) (s : LossyQueue α) : Prop :=
  0 < num x ∧ ∀ y ∈ s.made, num y < num x

inductive Step : LossyQueue α → LossyQueue α → Prop where
  | direct {s : LossyQueue α} {x : α} (hnew : New num x s) :
      Step s { s with made := x :: s.made, sent := x :: s.sent }
  | refuse {s : LossyQueue α} {x : α} (hnew : New num x s) :
      Step s { s with made := x :: s.made, lost := x :: s.lost }
  | push {s : LossyQueue α} {x : α} (hnew : New num x s) (hroom : s.queue.length < cap) :
      Step s { s with made := x :: s.made, queue := s.queue ++ [some x] }
  -- the oldest place makes room: what it holds is lost
  | pushOut {s : LossyQueue α} {x : α} {p y : Option α} {rest : List (Option α)}
      (hnew : New num x s) (hfull : s.queue.length = cap) (hqueue : s.queue = p :: rest)
      (hp : Holds num p y) :
      Step s { s with
        made := x :: s.made
        queue := rest ++ [some x]
        lost := y.toList ++ s.lost }
  -- the oldest place turns out to be empty
  | skip {s : LossyQueue α} {rest : List (Option α)} (hqueue : s.queue = none :: rest) :
      Step s { s with queue := rest }
  | take {s : LossyQueue α} {y : α} {p : Option α} {rest : List (Option α)}
      (hqueue : s.queue = p :: rest) (hp : Holds num p (some y)) :
      Step s { s with queue := rest, sent := y :: s.sent, taken := y :: s.taken }

/-- The numbers of the items that were made and left the queue, in that order, and of those that
are in it. -/
def line (s : LossyQueue α) : List ℕ :=
  (s.taken.reverse.map num).filter (0 < ·) ++ s.queue.reduceOption.map num

/-- Nothing was made so far, and nothing is known of the `m` places of the queue. -/
def start (m : ℕ) : LossyQueue α := ⟨[], List.replicate m none, [], [], []⟩

variable {cap num} {s s' : LossyQueue α}

/-! ## What the steps do to the line -/

theorem line_append (q : List (Option α)) (x : α) :
    line num { s with queue := q ++ [some x] } = line num { s with queue := q } ++ [num x] := by
  simp [line, List.reduceOption_append]

/-- The item at the front of the queue leaves it without being taken. -/
theorem line_sublist {p : Option α} {rest : List (Option α)} (hqueue : s.queue = p :: rest) :
    (line num { s with queue := rest }).Sublist (s.line num) := by
  unfold line
  rw [hqueue]
  refine List.Sublist.append_left ?_ _
  cases p with
  | none => exact List.Sublist.refl _
  | some x => exact (List.sublist_cons_self x _).map num

/-- The item at the front of the queue is taken. -/
theorem line_take {p : Option α} {rest : List (Option α)} (hqueue : s.queue = p :: rest) {y : α}
    (hp : Holds num p (some y)) (hknown : ∀ x, some x ∈ s.queue → 0 < num x) (sent : List α) :
    line num { s with queue := rest, sent := sent, taken := y :: s.taken } = s.line num := by
  unfold line
  rw [hqueue]
  cases p with
  | none =>
      -- what was there at the start has no place in the line
      have hzero : num y = 0 := hp y rfl
      simp [List.reduceOption_cons_of_none, hzero]
  | some x =>
      obtain rfl : y = x := Option.some.inj hp
      have hpos : 0 < num y := hknown y (by rw [hqueue]; exact List.mem_cons_self)
      simp [List.reduceOption_cons_of_some, hpos]

/-- Places without an item are passed over. -/
theorem skips {j : ℕ} (hlen : j ≤ s.queue.length) (hnone : ∀ i, i < j → s.queue[i]? = some none) :
    Relation.ReflTransGen (Step cap num) s { s with queue := s.queue.drop j } := by
  induction j with
  | zero => exact Relation.ReflTransGen.refl
  | succ j ih =>
      refine (ih (by omega) fun i hi => hnone i (by omega)).tail ?_
      -- after `j` steps the place in front is the one that was at index `j`
      have hfront : s.queue.drop j = none :: s.queue.drop (j + 1) := by
        rw [List.drop_eq_getElem_cons (by omega)]
        congr 1
        have := hnone j (Nat.lt_succ_self j)
        rwa [List.getElem?_eq_getElem (by omega), Option.some.injEq] at this
      exact Step.skip hfront

/-! ## What holds in every state -/

variable [BEq α]

variable (num) in
structure Sound (s : LossyQueue α) : Prop where
  made : s.made.Pairwise fun x y => num y < num x
  fates : ∀ x, 0 < num x →
    s.sent.count x + s.queue.count (some x) + s.lost.count x = s.made.count x
  known : ∀ x, some x ∈ s.queue → 0 < num x
  sent : ∀ x ∈ s.taken, x ∈ s.sent
  order : (s.line num).Pairwise (· < ·)

theorem Sound.direct (h : Sound num s) {x : α} (hnew : New num x s) :
    Sound num { s with made := x :: s.made, sent := x :: s.sent } where
  made := List.pairwise_cons.mpr ⟨hnew.2, h.made⟩
  fates := by
    intro y hpos
    have := h.fates y hpos
    simp only [List.count_cons]
    omega
  known := h.known
  sent := fun y hy => List.mem_cons_of_mem x (h.sent y hy)
  order := h.order

theorem Sound.refuse (h : Sound num s) {x : α} (hnew : New num x s) :
    Sound num { s with made := x :: s.made, lost := x :: s.lost } where
  made := List.pairwise_cons.mpr ⟨hnew.2, h.made⟩
  fates := by
    intro y hpos
    have := h.fates y hpos
    simp only [List.count_cons]
    omega
  known := h.known
  sent := h.sent
  order := h.order

variable [LawfulBEq α]

theorem Sound.mem_made (h : Sound num s) {x : α} (hpos : 0 < num x)
    (hx : x ∈ s.sent ∨ some x ∈ s.queue) : x ∈ s.made := by
  have hcount := h.fates x hpos
  rcases hx with hx | hx
  · have := List.count_pos_iff.mpr hx
    exact List.count_pos_iff.mp (by omega)
  · have := List.count_pos_iff.mpr hx
    exact List.count_pos_iff.mp (by omega)

/-- A new item was not there before. -/
theorem New.count_eq_zero {x : α} (hnew : New num x s) : s.made.count x = 0 :=
  List.count_eq_zero.mpr fun hmem => Nat.lt_irrefl _ (hnew.2 x hmem)

/-- The numbers in the line are smaller than that of a new item. -/
theorem Sound.line_lt (h : Sound num s) {x : α} (hnew : New num x s) :
    ∀ k ∈ s.line num, k < num x := by
  intro k hk
  rw [line, List.mem_append, List.mem_filter, List.map_reverse, List.mem_reverse, List.mem_map,
    List.mem_map] at hk
  -- it was made before, whether it was taken or is queued
  rcases hk with ⟨⟨y, hy, rfl⟩, hpos⟩ | ⟨y, hy, rfl⟩
  · have hpos' : 0 < num y := by simpa using hpos
    exact hnew.2 y (h.mem_made hpos' (Or.inl (h.sent y hy)))
  · have hmem : some y ∈ s.queue := List.reduceOption_mem_iff.mp hy
    exact hnew.2 y (h.mem_made (h.known y hmem) (Or.inr hmem))

/-- What a place holds counts as it did in the queue. -/
theorem Holds.count {p y : Option α} (hp : Holds num p y) {x : α} (hpos : 0 < num x) :
    y.toList.count x = [p].count (some x) := by
  cases p with
  | some z =>
      obtain rfl : y = some z := hp
      rw [Option.toList_some, List.count_singleton, List.count_singleton, Option.some_beq_some]
  | none =>
      cases y with
      | none => simp
      | some z =>
          have hzero : num z = 0 := hp z rfl
          have hne : z ≠ x := fun heq => hpos.ne' (heq ▸ hzero)
          simp [hne]

theorem Sound.push (h : Sound num s) {x : α} (hnew : New num x s) :
    Sound num { s with made := x :: s.made, queue := s.queue ++ [some x] } where
  made := List.pairwise_cons.mpr ⟨hnew.2, h.made⟩
  fates := by
    intro y hpos
    have := h.fates y hpos
    have hqueue : (s.queue ++ [some x]).count (some y) = s.queue.count (some y) + [x].count y := by
      rw [List.count_append, List.count_singleton, List.count_singleton, Option.some_beq_some]
    have hmade : (x :: s.made).count y = s.made.count y + [x].count y := by
      rw [List.count_cons, List.count_singleton]
    show s.sent.count y + (s.queue ++ [some x]).count (some y) + s.lost.count y
      = (x :: s.made).count y
    omega
  known := by
    intro y hy
    rcases List.mem_append.mp hy with hy | hy
    · exact h.known y hy
    · obtain rfl : y = x := by simpa using hy
      exact hnew.1
  sent := h.sent
  order := by
    show (line num { s with queue := s.queue ++ [some x] }).Pairwise _
    rw [line_append, List.pairwise_append]
    -- the new item has the largest number
    refine ⟨h.order, List.pairwise_singleton _ _, fun k hk l hl => ?_⟩
    rw [List.mem_singleton.mp hl]
    exact h.line_lt hnew k hk

/-- The item at the front is lost. -/
theorem Sound.lose (h : Sound num s) {p y : Option α} {rest : List (Option α)}
    (hqueue : s.queue = p :: rest) (hp : Holds num p y) :
    Sound num { s with queue := rest, lost := y.toList ++ s.lost } where
  made := h.made
  fates := by
    intro x hpos
    have hbefore := h.fates x hpos
    rw [hqueue, List.count_cons, ← List.count_singleton, ← hp.count hpos] at hbefore
    show s.sent.count x + rest.count (some x) + (y.toList ++ s.lost).count x = s.made.count x
    rw [List.count_append]
    omega
  known := fun x hx => h.known x (by rw [hqueue]; exact List.mem_cons_of_mem p hx)
  sent := h.sent
  order := h.order.sublist (line_sublist hqueue)

theorem Sound.take (h : Sound num s) {p : Option α} {y : α} {rest : List (Option α)}
    (hqueue : s.queue = p :: rest) (hp : Holds num p (some y)) :
    Sound num { s with queue := rest, sent := y :: s.sent, taken := y :: s.taken } where
  made := h.made
  fates := by
    intro x hpos
    have hbefore := h.fates x hpos
    rw [hqueue, List.count_cons, ← List.count_singleton, ← hp.count hpos, Option.toList_some,
      List.count_singleton] at hbefore
    show (y :: s.sent).count x + rest.count (some x) + s.lost.count x = s.made.count x
    rw [List.count_cons]
    omega
  known := fun x hx => h.known x (by rw [hqueue]; exact List.mem_cons_of_mem p hx)
  sent := by
    intro x hx
    rcases List.mem_cons.mp hx with rfl | hx
    · exact List.mem_cons_self
    · exact List.mem_cons_of_mem y (h.sent x hx)
  order := by
    rw [line_take hqueue hp h.known]
    exact h.order

/-- **A step.** -/
theorem Step.sound (hstep : Step cap num s s') (h : Sound num s) : Sound num s' := by
  cases hstep with
  | direct hnew => exact h.direct hnew
  | refuse hnew => exact h.refuse hnew
  | push hnew _ => exact h.push hnew
  -- the oldest place is lost, and the item goes to the end
  | pushOut hnew _ hqueue hp => exact (h.lose hqueue hp).push hnew
  | skip hqueue => exact h.lose hqueue (y := none) (by simp [Holds])
  | take hqueue hp => exact h.take hqueue hp

theorem sound_start (m : ℕ) : Sound num (start m : LossyQueue α) where
  made := List.Pairwise.nil
  fates := fun x _ => by simp [start, List.count_replicate]
  known := fun x hx => by simp [start] at hx
  sent := List.forall_mem_nil _
  order := by
    simp [line, start, List.reduceOption_replicate_none]

/-- **A run.** -/
theorem sound_run {m : ℕ} (h : Relation.ReflTransGen (Step cap num) (start m) s) :
    Sound num s := by
  induction h with
  | refl => exact sound_start m
  | tail _ hstep ih => exact hstep.sound ih

end LossyQueue

end LossyQueue

end IotcDemos
