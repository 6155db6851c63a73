import IotcDemos.Lib.Suppress

set_option autoImplicit false

/-! # Overlapping faces

`CalculateNMS` drops a detection that overlaps a better one. Its scores are of a type `F` with an
order and any arithmetic whose addition commutes, so that rounding does not matter here. The sort
compares the scores of class 0 whatever class the pass is for: the lambda captures `idxClass` by
value, before the loop.
-/

namespace IotcDemos.FaceDetect

structure Box (F : Type) where
  x : F
  y : F
  w : F
  h : F
  deriving DecidableEq

structure Detection (F : Type) where
  bbox : Box F
  prob : List F
  objectness : F
  deriving DecidableEq

section Boxes

variable {F : Type} [LinearOrder F] [AddCommMagma F] [Sub F] [Div F] [OfNat F 2]

def calculate1DOverlap (x1Center width1 x2Center width2 : F) : F :=
  let left1 := x1Center - width1 / 2
  let left2 := x2Center - width2 / 2
  let leftest := if left1 > left2 then left1 else left2
  let right1 := x1Center + width1 / 2
  let right2 := x2Center + width2 / 2
  let rightest := if right1 < right2 then right1 else right2
  rightest - leftest

theorem calculate1DOverlap_comm (x₁ w₁ x₂ w₂ : F) :
    calculate1DOverlap x₁ w₁ x₂ w₂ = calculate1DOverlap x₂ w₂ x₁ w₁ := by
  have hmax : ∀ a b : F, (if a > b then a else b) = if b > a then b else a := by
    intro a b
    rcases lt_trichotomy a b with h | rfl | h
    · rw [if_neg (not_lt.mpr h.le), if_pos h]
    · rfl
    · rw [if_pos h, if_neg (not_lt.mpr h.le)]
  have hmin : ∀ a b : F, (if a < b then a else b) = if b < a then b else a := by
    intro a b
    rcases lt_trichotomy a b with h | rfl | h
    · rw [if_pos h, if_neg (not_lt.mpr h.le)]
    · rfl
    · rw [if_neg (not_lt.mpr h.le), if_pos h]
  simp only [calculate1DOverlap]
  rw [hmax, hmin]

variable [Mul F] [Zero F]

def calculateBoxIntersect (box1 box2 : Box F) : F :=
  let width := calculate1DOverlap box1.x box1.w box2.x box2.w
  if width < 0 then 0
  else
    let height := calculate1DOverlap box1.y box1.h box2.y box2.h
    if height < 0 then 0 else width * height

def calculateBoxUnion (box1 box2 : Box F) : F :=
  box1.w * box1.h + box2.w * box2.h - calculateBoxIntersect box1 box2

def calculateBoxIOU (box1 box2 : Box F) : F :=
  let intersection := calculateBoxIntersect box1 box2
  if intersection = 0 then 0
  else
    let union := calculateBoxUnion box1 box2
    if union = 0 then 0 else intersection / union

theorem calculateBoxIntersect_comm (a b : Box F) :
    calculateBoxIntersect a b = calculateBoxIntersect b a := by
  simp only [calculateBoxIntersect]
  rw [calculate1DOverlap_comm a.x, calculate1DOverlap_comm a.y]

theorem calculateBoxIOU_comm (a b : Box F) : calculateBoxIOU a b = calculateBoxIOU b a := by
  have hunion : calculateBoxUnion a b = calculateBoxUnion b a := by
    rw [calculateBoxUnion, calculateBoxUnion, calculateBoxIntersect_comm a b, add_comm (a.w * a.h)]
  simp only [calculateBoxIOU, hunion, calculateBoxIntersect_comm a b]

end Boxes

namespace Detection

variable {F : Type} [Zero F]

/-- `prob[c]`. -/
def probAt (d : Detection F) (c : ℕ) : F := d.prob.getD c 0

/-- `prob[c] = 0`. -/
def clear (c : ℕ) (d : Detection F) : Detection F := { d with prob := d.prob.set c 0 }

@[simp] theorem clear_bbox (c : ℕ) (d : Detection F) : (d.clear c).bbox = d.bbox := rfl

@[simp] theorem clear_objectness (c : ℕ) (d : Detection F) :
    (d.clear c).objectness = d.objectness := rfl

@[simp] theorem clear_probAt (c : ℕ) (d : Detection F) : (d.clear c).probAt c = 0 := by
  rw [probAt, clear, List.getD_eq_getElem?_getD, List.getElem?_set]
  by_cases hlen : c < d.prob.length
  · simp [hlen]
  · simp [hlen]

@[simp] theorem clear_probAt_ne {c k : ℕ} (hk : k ≠ c) (d : Detection F) :
    (d.clear c).probAt k = d.probAt k := by
  rw [probAt, probAt, clear, List.getD_eq_getElem?_getD, List.getD_eq_getElem?_getD,
    List.getElem?_set_ne hk.symm]

end Detection

/-! ## Each detection beside what it was at first -/

section Fates

variable {F : Type} [Zero F]

/-- A detection at first, and what became of it. -/
abbrev Fate (F : Type) : Type := Detection F × Detection F

/-- Nothing but scores is changed, and these only to zero. -/
structure Fate.Kept (p : Fate F) : Prop where
  bbox : p.2.bbox = p.1.bbox
  objectness : p.2.objectness = p.1.objectness
  prob : ∀ c, p.2.probAt c = p.1.probAt c ∨ p.2.probAt c = 0

/-- What `clear c` does to a fate leaves all that concerns the other classes. -/
def Fate.about (k : ℕ) (p : Fate F) : Detection F × Box F × F := (p.1, p.2.bbox, p.2.probAt k)

def Fate.clear (c : ℕ) (p : Fate F) : Fate F := (p.1, p.2.clear c)

theorem Fate.about_clear {c k : ℕ} (hk : k ≠ c) (p : Fate F) :
    (p.clear c).about k = p.about k := by
  rw [Fate.about, Fate.about, Fate.clear, Detection.clear_bbox, Detection.clear_probAt_ne hk]

theorem Fate.Kept.clear {p : Fate F} (h : p.Kept) (c : ℕ) : (p.clear c).Kept where
  bbox := h.bbox
  objectness := h.objectness
  prob := by
    intro k
    by_cases hk : k = c
    · subst hk
      exact Or.inr (Detection.clear_probAt _ _)
    · rw [Fate.clear, Detection.clear_probAt_ne hk]
      exact h.prob k

/-- The passes so far have not touched the scores of the classes to come. -/
def Untouched (c : ℕ) (t : List (Fate F)) : Prop :=
  ∀ p ∈ t, ∀ k, c ≤ k → p.2.probAt k = p.1.probAt k

end Fates

/-! ## The order of a pass -/

section Order

variable {F : Type} [LinearOrder F] [Zero F]

/-- `prob1` may stand before `prob2`: `CompareProbs` does not put `prob2` first. -/
def compareProbs (prob1 prob2 : Detection F) : Bool := !decide (prob2.probAt 0 > prob1.probAt 0)

def scored (c : ℕ) (d : Detection F) : Bool := decide (d.probAt c ≠ 0)

def Fate.scored (c : ℕ) (p : Fate F) : Bool := FaceDetect.scored c p.2

theorem Fate.scored_clear (c : ℕ) (p : Fate F) : Fate.scored c (Fate.clear c p) = false := by
  rw [Fate.scored, Fate.clear, FaceDetect.scored, Detection.clear_probAt]
  simp

theorem compareProbs_iff {d e : Detection F} :
    compareProbs d e = true ↔ e.probAt 0 ≤ d.probAt 0 := by
  rw [compareProbs, Bool.not_eq_true', decide_eq_false_iff_not, not_lt]

/-- The list after the sort: the scores of class 0 go down. -/
theorem sorted_by_class_zero (t : List (Fate F)) :
    ((t.mergeSort fun p q => compareProbs p.2 q.2).Pairwise fun p q =>
      q.2.probAt 0 ≤ p.2.probAt 0) := by
  refine (List.pairwise_mergeSort ?_ ?_ t).imp fun h => compareProbs_iff.mp h
  · intro p q r hpq hqr
    exact compareProbs_iff.mpr ((compareProbs_iff.mp hqr).trans (compareProbs_iff.mp hpq))
  · intro p q
    rw [Bool.or_eq_true, compareProbs_iff, compareProbs_iff]
    exact le_total _ _

end Order

section Nms

variable {F : Type} [LinearOrder F] [AddCommMagma F] [Sub F] [Mul F] [Div F] [Zero F] [OfNat F 2]

def overlapping (iouThreshold : F) (d e : Detection F) : Bool :=
  decide (calculateBoxIOU d.bbox e.bbox > iouThreshold)

/-- The pass for one class. -/
def nmsClass (iouThreshold : F) (idxClass : ℕ) (detections : List (Detection F)) :
    List (Detection F) :=
  -- the sort goes by the scores of class 0 in every pass
  suppress (scored idxClass) (Detection.clear idxClass) (overlapping iouThreshold)
    (detections.mergeSort compareProbs)

def calculateNMS (detections : List (Detection F)) (classes : ℕ) (iouThreshold : F) :
    List (Detection F) :=
  (List.range classes).foldl (fun ds idxClass => nmsClass iouThreshold idxClass ds) detections

/-- A detection that still has its score for the class overlaps this one; for class 0 the score is
at least as high. -/
def Covered (iouThreshold : F) (t : List (Fate F)) (c : ℕ) (p : Fate F) : Prop :=
  ∃ q ∈ t, q.2.probAt c ≠ 0 ∧ calculateBoxIOU q.2.bbox p.2.bbox > iouThreshold ∧
    (c = 0 → p.1.probAt 0 ≤ q.2.probAt 0)

/-- Two detections do not both count as a face of the class and overlap. -/
def Apart (iouThreshold : F) (c : ℕ) (d e : Detection F) : Prop :=
  d.probAt c ≠ 0 → e.probAt c ≠ 0 → calculateBoxIOU d.bbox e.bbox ≤ iouThreshold

/-- What non-maximum suppression is for, in the first `classes` classes. -/
structure Suppressed (iouThreshold : F) (classes : ℕ) (t : List (Fate F)) : Prop where
  kept : ∀ p ∈ t, p.Kept
  apart : ∀ c < classes, (t.map Prod.snd).Pairwise (Apart iouThreshold c)
  covered : ∀ c < classes, ∀ p ∈ t, p.1.probAt c ≠ 0 → p.2.probAt c = 0 →
    Covered iouThreshold t c p

theorem Apart.symm {thr : F} {c : ℕ} {d e : Detection F} (h : Apart thr c d e) :
    Apart thr c e d := by
  intro he hd
  rw [calculateBoxIOU_comm]
  exact h hd he

/-- What a class means for a list of fates is in `about`. -/
theorem apart_of_about {thr : F} {k : ℕ} {t t' : List (Fate F)}
    (h : t'.map (Fate.about k) = t.map (Fate.about k))
    (ht : (t.map Prod.snd).Pairwise (Apart thr k)) : (t'.map Prod.snd).Pairwise (Apart thr k) := by
  have hread : ∀ s : List (Fate F), (s.map Prod.snd).Pairwise (Apart thr k) ↔
      (s.map (Fate.about k)).Pairwise fun a b =>
        a.2.2 ≠ 0 → b.2.2 ≠ 0 → calculateBoxIOU a.2.1 b.2.1 ≤ thr := by
    intro s
    rw [List.pairwise_map, List.pairwise_map]
    rfl
  rw [hread, h, ← hread]
  exact ht

theorem covered_of_about {thr : F} {k : ℕ} {t t' : List (Fate F)}
    (h : t'.map (Fate.about k) = t.map (Fate.about k)) {p p' : Fate F}
    (hp : p'.about k = p.about k) (hc : Covered thr t k p) : Covered thr t' k p' := by
  obtain ⟨q, hq, hscore, hover, hrank⟩ := hc
  have hq' : q.about k ∈ t'.map (Fate.about k) := h ▸ List.mem_map_of_mem hq
  obtain ⟨q', hq'mem, hqq⟩ := List.mem_map.mp hq'
  simp only [Fate.about, Prod.mk.injEq] at hqq hp
  refine ⟨q', hq'mem, ?_, ?_, ?_⟩
  · rwa [hqq.2.2]
  · rwa [hqq.2.1, hp.2.1]
  · rintro rfl
    rw [hqq.2.2, hp.1]
    exact hrank rfl

theorem Suppressed.perm {thr : F} {n : ℕ} {t t' : List (Fate F)} (hperm : t'.Perm t)
    (h : Suppressed thr n t) : Suppressed thr n t' where
  kept p hp := h.kept p (hperm.mem_iff.mp hp)
  apart c hc := ((hperm.map Prod.snd).pairwise_iff fun hab => Apart.symm hab).mpr (h.apart c hc)
  covered c hc p hp h1 h2 := by
    obtain ⟨q, hq, hrest⟩ := h.covered c hc p (hperm.mem_iff.mp hp) h1 h2
    exact ⟨q, hperm.mem_iff.mpr hq, hrest⟩

def Fate.overlapping (iouThreshold : F) (p q : Fate F) : Bool :=
  FaceDetect.overlapping iouThreshold p.2 q.2

/-- The pass, on fates. -/
def passFates (thr : F) (c : ℕ) (t : List (Fate F)) : List (Fate F) :=
  suppress (Fate.scored c) (Fate.clear c) (Fate.overlapping thr)
    (t.mergeSort fun p q => compareProbs p.2 q.2)

theorem Fate.overlapping_clear (thr : F) (c : ℕ) (p q : Fate F) :
    Fate.overlapping thr p (Fate.clear c q) = Fate.overlapping thr p q := rfl

theorem passFates_snd (thr : F) (c : ℕ) (t : List (Fate F)) :
    (passFates thr c t).map Prod.snd = nmsClass thr c (t.map Prod.snd) := by
  rw [nmsClass, ← List.map_mergeSort (r := fun p q => compareProbs p.2 q.2) (f := Prod.snd)
    fun _ _ _ _ => rfl]
  exact (suppress_comm Prod.snd (fun _ => rfl) (fun _ => rfl) (fun _ _ => rfl) _).symm

theorem passFates_fst (thr : F) (c : ℕ) (t : List (Fate F)) :
    ((passFates thr c t).map Prod.fst).Perm (t.map Prod.fst) := by
  have hkill : ∀ p : Fate F, (Fate.clear c p).1 = p.1 := fun _ => rfl
  rw [passFates, map_suppress hkill]
  exact (List.mergeSort_perm t _).map Prod.fst

theorem passFates_about {thr : F} {c k : ℕ} (hk : k ≠ c) (t : List (Fate F)) :
    (passFates thr c t).map (Fate.about k) =
      (t.mergeSort fun p q => compareProbs p.2 q.2).map (Fate.about k) :=
  map_suppress (Fate.about_clear hk) _

/-- A fate after the pass was there before it, or is one that a pass has cleared. -/
theorem mem_passFates {thr : F} {c : ℕ} {t : List (Fate F)} (ht : Untouched c t) {p : Fate F}
    (hp : p ∈ passFates thr c t) :
    p ∈ t ∨ ∃ q ∈ t, p = q.clear c ∧ Covered thr (passFates thr c t) c p := by
  -- class 0 is sorted by its own scores, which no earlier pass has touched
  have hrank : (t.mergeSort fun p q => compareProbs p.2 q.2).Pairwise
      fun p q => c = 0 → q.1.probAt 0 ≤ p.1.probAt 0 := by
    refine (sorted_by_class_zero t).imp_of_mem fun {p q} hp hq h hc => ?_
    rw [← ht p (List.mem_mergeSort.mp hp) 0 (hc ▸ le_rfl),
      ← ht q (List.mem_mergeSort.mp hq) 0 (hc ▸ le_rfl)]
    exact h
  rcases mem_suppress (Fate.scored_clear c) (Fate.overlapping_clear thr c)
    (fun _ _ h => h) (fun _ _ h => h) hrank hp with
    h | ⟨q, hq, rfl, -, e, he, hal, hover, hle⟩
  · exact Or.inl (List.mem_mergeSort.mp h)
  · refine Or.inr ⟨q, List.mem_mergeSort.mp hq, rfl, e, he, of_decide_eq_true hal,
      of_decide_eq_true hover, ?_⟩
    rintro rfl
    -- What is left alive still has the score it had at first.
    have hscore : e.2.probAt 0 = e.1.probAt 0 := by
      rcases mem_suppress (Fate.scored_clear 0) (Fate.overlapping_clear thr 0)
        (fun _ _ h => h) (fun _ _ h => h) hrank he with h | ⟨a, -, rfl, -⟩
      · exact ht e (List.mem_mergeSort.mp h) 0 le_rfl
      · rw [Fate.scored_clear] at hal
        exact absurd hal Bool.false_ne_true
    rw [hscore]
    exact hle rfl

theorem passFates_untouched {thr : F} {c : ℕ} {t : List (Fate F)} (ht : Untouched c t) :
    Untouched (c + 1) (passFates thr c t) := by
  intro p hp k hk
  rcases mem_passFates ht hp with h | ⟨q, hq, rfl, -⟩
  · exact ht p h k (by omega)
  · rw [Fate.clear, Detection.clear_probAt_ne (by omega)]
    exact ht q hq k (by omega)

/-- **One pass.** -/
theorem passFates_suppressed {thr : F} {c : ℕ} {t : List (Fate F)} (ht : Untouched c t)
    (h : Suppressed thr c t) : Suppressed thr (c + 1) (passFates thr c t) where
  kept p hp := by
    rcases mem_passFates ht hp with hp | ⟨q, hq, rfl, -⟩
    · exact h.kept p hp
    · exact (h.kept q hq).clear c
  apart k hk := by
    rcases Nat.lt_succ_iff_lt_or_eq.mp hk with hlt | rfl
    · -- of an earlier class the pass changes nothing but the order of the list
      exact apart_of_about (passFates_about hlt.ne t)
        ((h.perm (List.mergeSort_perm t _)).apart k hlt)
    · rw [List.pairwise_map]
      refine (suppress_pairwise (Fate.scored_clear k) (Fate.overlapping_clear thr k) _).imp ?_
      intro p q hpq hp hq
      exact not_lt.mp (of_decide_eq_false (hpq (decide_eq_true hp) (decide_eq_true hq)))
  covered k hk p hp hp1 hp2 := by
    rcases Nat.lt_succ_iff_lt_or_eq.mp hk with hlt | rfl
    · -- the same fate before the pass, which is covered there
      have hsorted := h.perm (List.mergeSort_perm t fun p q => compareProbs p.2 q.2)
      have hmem : p.about k ∈ (t.mergeSort fun p q => compareProbs p.2 q.2).map (Fate.about k) :=
        passFates_about hlt.ne t ▸ List.mem_map_of_mem hp
      obtain ⟨q, hq, hqp⟩ := List.mem_map.mp hmem
      have hparts := hqp
      simp only [Fate.about, Prod.mk.injEq] at hparts
      refine covered_of_about (passFates_about hlt.ne t) hqp.symm (hsorted.covered k hlt q hq ?_ ?_)
      · rwa [hparts.1]
      · rwa [hparts.2.2]
    · rcases mem_passFates ht hp with hp | ⟨q, -, -, hcov⟩
      · rw [ht p hp k le_rfl] at hp2
        exact absurd hp2 hp1
      · exact hcov

theorem nms_fates (detections : List (Detection F)) (classes : ℕ) (iouThreshold : F) :
    ∃ t : List (Fate F), (t.map Prod.fst).Perm detections ∧
      t.map Prod.snd = calculateNMS detections classes iouThreshold ∧
      Suppressed iouThreshold classes t ∧ Untouched classes t := by
  -- induction on the passes; each one leaves the scores of the classes to come as they were
  induction classes with
  | zero =>
      refine ⟨detections.map fun d => (d, d), ?_, ?_, ⟨?_, ?_, ?_⟩, ?_⟩
      · rw [List.map_map]
        exact (List.map_id _).symm ▸ List.Perm.refl _
      · rw [List.map_map]
        exact List.map_id _
      · intro p hp
        obtain ⟨d, -, rfl⟩ := List.mem_map.mp hp
        exact ⟨rfl, rfl, fun c => Or.inl rfl⟩
      · exact fun c hc => absurd hc (Nat.not_lt_zero c)
      · exact fun c hc => absurd hc (Nat.not_lt_zero c)
      · intro p hp
        obtain ⟨d, -, rfl⟩ := List.mem_map.mp hp
        exact fun k _ => rfl
  | succ n ih =>
      obtain ⟨t, hfst, hsnd, hsup, hun⟩ := ih
      refine ⟨passFates iouThreshold n t, (passFates_fst _ _ t).trans hfst, ?_,
        passFates_suppressed hun hsup, passFates_untouched hun⟩
      rw [passFates_snd, hsnd, calculateNMS, calculateNMS, List.range_succ, List.foldl_append]
      rfl

/-- **Non-maximum suppression.** Whatever the detections, the number of classes and the threshold:
the result is the detections in some order with some scores set to zero. In every class no two
that keep a score overlap by more than the threshold, and one that has lost its score overlaps one
that keeps its own, for class 0 one with at least as high a score. -/
theorem calculateNMS_suppresses (detections : List (Detection F)) (classes : ℕ)
    (iouThreshold : F) :
    ∃ t : List (Fate F), (t.map Prod.fst).Perm detections ∧
      t.map Prod.snd = calculateNMS detections classes iouThreshold ∧
      Suppressed iouThreshold classes t := by
  obtain ⟨t, hfst, hsnd, hsup, -⟩ := nms_fates detections classes iouThreshold
  exact ⟨t, hfst, hsnd, hsup⟩

end Nms

end IotcDemos.FaceDetect
