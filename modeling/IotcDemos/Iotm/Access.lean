import IotcDemos.Iotm.Infer

set_option autoImplicit false

/-! # The memory accesses of `model_infer`

`Infer` gives the value `model_infer` computes; here its loops run over the arrays `h` and `o` of
the C function, which start with whatever the stack holds, and every access to the weights and to
the two arrays is logged. For a blob that `model_validate` accepts no access is out of bounds,
the four layers together read every weight once, and the class is that of `modelInfer`,
whatever the arithmetic does (`infer_stays_inside`).
-/

namespace IotcDemos.Iotm

/-- An access to `w`, `h` or `o` at an index. -/
inductive Access where
  | weight (k : ℕ)
  | hidden (i : ℕ)
  | output (i : ℕ)
  deriving DecidableEq

/-- The arithmetic of the engine with what the softmax uses. -/
structure SoftmaxArith (F : Type) extends FloatArith F where
  sub : F → F → F
  expf : F → F
  /-- `1.0 / (double)denom`. -/
  recip : F → F

/-- The local variables of `model_infer`, with the accesses so far. -/
structure Frame (F : Type) where
  h : ℕ → F
  o : ℕ → F
  best : ℕ
  log : List Access

/-- What `model_infer` returns, with the accesses it has made. -/
structure InferRun (F : Type) where
  best : ℕ
  score : F
  log : List Access

section Engine

variable {F : Type}

def Frame.touch (s : Frame F) (as : List Access) : Frame F := { s with log := s.log ++ as }

/-- `h[i] = a`. -/
def Frame.setHidden (s : Frame F) (i : ℕ) (a : F) : Frame F :=
  { s with h := Function.update s.h i a }.touch [.hidden i]

/-- `o[i] = a`. -/
def Frame.setOutput (s : Frame F) (i : ℕ) (a : F) : Frame F :=
  { s with o := Function.update s.o i a }.touch [.output i]

/-- `for (i = 0; i < n; i++)`. -/
def loop {α : Type} (n : ℕ) (body : ℕ → α → α) (s : α) : α :=
  (List.range n).foldl (fun s i => body i s) s

variable (A : SoftmaxArith F) (rd : ℕ → UInt8) (x : ℕ → F)

/-- One pass of the first loop: unit `i` of the hidden layer. -/
def hiddenPass (i : ℕ) (s : Frame F) : Frame F :=
  let hd := modelHdr rd
  let (a, s) := loop hd.nIn.toNat (fun j (p : F × Frame F) =>
      (A.add p.1 (A.mul (weightAt A.toFloatArith rd (i * hd.nIn.toNat + j)) (x j)),
        p.2.touch [.weight (i * hd.nIn.toNat + j)]))
    (weightAt A.toFloatArith rd (hd.b1 + i), s.touch [.weight (hd.b1 + i)])
  s.setHidden i (if A.gt a A.zero then a else A.zero)

/-- One pass of the second loop: unit `i` of the output layer, and the running argmax. -/
def outputPass (i : ℕ) (s : Frame F) : Frame F :=
  let hd := modelHdr rd
  let (a, s) := loop hd.nHid.toNat (fun j (p : F × Frame F) =>
      (A.add p.1 (A.mul (weightAt A.toFloatArith rd (hd.w2 + i * hd.nHid.toNat + j)) (p.2.h j)),
        p.2.touch [.weight (hd.w2 + i * hd.nHid.toNat + j), .hidden j]))
    (weightAt A.toFloatArith rd (hd.b2 + i), s.touch [.weight (hd.b2 + i)])
  let s := s.setOutput i a
  -- `o[best]` is read after `o[i]` is written
  let s' := s.touch [.output s.best]
  { s' with best := if A.gt a (s.o s.best) then i else s.best }

/-- One pass of the softmax loop. -/
def softmaxPass (i : ℕ) (p : F × Frame F) : F × Frame F :=
  (A.add p.1 (A.expf (A.sub (p.2.o i) (p.2.o p.2.best))),
    p.2.touch [.output i, .output p.2.best])

/-- `model_infer`, with the arrays `h0` and `o0` on the stack. -/
def inferRun (h0 o0 : ℕ → F) : InferRun F :=
  let hd := modelHdr rd
  let s := loop hd.nHid.toNat (hiddenPass A rd x) ⟨h0, o0, 0, []⟩
  let s := loop hd.nOut.toNat (outputPass A rd) s
  let (denom, s) := loop hd.nOut.toNat (softmaxPass A) (A.zero, s)
  ⟨s.best, if A.gt denom A.zero then A.recip denom else A.zero, s.log⟩

end Engine

/-! ## Loops -/

theorem loop_succ {α : Type} (n : ℕ) (body : ℕ → α → α) (s : α) :
    loop (n + 1) body s = body n (loop n body s) := by
  rw [loop, List.range_succ, List.foldl_append]
  rfl

/-- What each pass preserves, from pass to pass, holds at the end of a loop. -/
theorem loop_inv {α : Type} {P : ℕ → α → Prop} {body : ℕ → α → α} {n : ℕ} {s : α} (h : P 0 s)
    (hstep : ∀ i s, i < n → P i s → P (i + 1) (body i s)) : P n (loop n body s) := by
  have key : ∀ m, m ≤ n → P m (loop m body s) := by
    intro m
    induction m with
    | zero => intro _; exact h
    | succ m ih =>
        intro hm
        rw [loop_succ]
        exact hstep m _ hm (ih (by omega))
  exact key n (Nat.le_refl n)

/-- Rows of length `m` behind one another. -/
theorem flatMap_rows (n m : ℕ) :
    ((List.range n).flatMap fun i => (List.range m).map fun j => i * m + j)
      = List.range (n * m) := by
  induction n with
  | zero => rw [Nat.zero_mul]; rfl
  | succ n ih =>
      rw [List.range_succ, List.flatMap_append, ih, Nat.succ_mul, List.range_add]
      simp

/-- A layer reads the bias and the row of each unit: together `n` rows of length `m` from `a` on, and
the biases behind them. -/
theorem layer_perm (a n m : ℕ) :
    ((List.range n).flatMap fun i =>
      (a + n * m + i) :: (List.range m).map fun j => a + i * m + j).Perm
      ((List.range (n * m + n)).map (a + ·)) := by
  have hrows : ((List.range n).flatMap fun i => (List.range m).map fun j => a + i * m + j)
      = (List.range (n * m)).map (a + ·) := by
    rw [← flatMap_rows, List.map_flatMap]
    apply List.flatMap_congr
    intro i _
    rw [List.map_map]
    apply List.map_congr_left
    intro j _
    exact Nat.add_assoc a (i * m) j
  calc ((List.range n).flatMap fun i =>
        (a + n * m + i) :: (List.range m).map fun j => a + i * m + j).Perm
        (((List.range n).map (a + n * m + ·)) ++
          (List.range n).flatMap fun i => (List.range m).map fun j => a + i * m + j) :=
        (List.map_append_flatMap_perm _ _ _).symm
    _ = (List.range n).map (a + n * m + ·) ++ (List.range (n * m)).map (a + ·) := by rw [hrows]
    List.Perm _ ((List.range (n * m)).map (a + ·) ++ (List.range n).map (a + n * m + ·)) :=
        List.perm_append_comm
    _ = (List.range (n * m + n)).map (a + ·) := by
        rw [List.range_add, List.map_append, List.map_map]
        congr 1
        apply List.map_congr_left
        intro i _
        exact Nat.add_assoc a (n * m) i

/-! ## What each pass does -/

section Passes

variable {F : Type} (A : SoftmaxArith F) (rd : ℕ → UInt8) (x : ℕ → F)

theorem touch_touch (s : Frame F) (as bs : List Access) :
    (s.touch as).touch bs = s.touch (as ++ bs) := by
  rw [Frame.touch, Frame.touch, Frame.touch, List.append_assoc]

theorem touch_nil (s : Frame F) : s.touch [] = s := by rw [Frame.touch, List.append_nil]

/-- The loop over one row: the accumulated value, and the accesses of each element. -/
theorem row_loop (n : ℕ) (w : ℕ → F) (v : Frame F → ℕ → F) (as : ℕ → List Access)
    (hv : ∀ s bs, v (Frame.touch s bs) = v s) (a : F) (s : Frame F) :
    loop n (fun j (p : F × Frame F) =>
        (A.add p.1 (A.mul (w j) (v p.2 j)), p.2.touch (as j))) (a, s)
      = (accumulate A.toFloatArith a n w (v s), s.touch ((List.range n).flatMap as)) := by
  induction n with
  | zero => exact congrArg (Prod.mk a) (touch_nil s).symm
  | succ n ih =>
      rw [loop_succ, ih, hv, touch_touch, accumulate, accumulate, List.range_succ,
        List.foldl_append, List.flatMap_append]
      simp

/-- Values that agree on the row accumulate to the same. -/
theorem accumulate_congr {a : F} {n : ℕ} {w v v' : ℕ → F} (h : ∀ j, j < n → v j = v' j) :
    accumulate A.toFloatArith a n w v = accumulate A.toFloatArith a n w v' := by
  unfold accumulate
  apply List.foldl_ext
  intro b j hj
  rw [h j (List.mem_range.mp hj)]

/-- The accesses of one hidden unit. -/
def hiddenLog (hd : ModelHdr) (i : ℕ) : List Access :=
  .weight (hd.b1 + i) ::
    ((List.range hd.nIn.toNat).flatMap fun j => [.weight (i * hd.nIn.toNat + j)]) ++ [.hidden i]

/-- The accesses of one output unit, when `best` is the index of the greatest one before. -/
def outputLog (hd : ModelHdr) (i best : ℕ) : List Access :=
  .weight (hd.b2 + i) ::
    ((List.range hd.nHid.toNat).flatMap fun j =>
      [.weight (hd.w2 + i * hd.nHid.toNat + j), .hidden j]) ++ [.output i, .output best]

theorem hiddenPass_eq (i : ℕ) (s : Frame F) :
    hiddenPass A rd x i s = { s with
      h := Function.update s.h i (hiddenAt A.toFloatArith rd x i)
      log := s.log ++ hiddenLog (modelHdr rd) i } := by
  have hrow := row_loop A (modelHdr rd).nIn.toNat
    (fun j => weightAt A.toFloatArith rd (i * (modelHdr rd).nIn.toNat + j)) (fun _ => x)
    (fun j => [.weight (i * (modelHdr rd).nIn.toNat + j)]) (fun _ _ => rfl)
    (weightAt A.toFloatArith rd ((modelHdr rd).b1 + i)) (s.touch [.weight ((modelHdr rd).b1 + i)])
  unfold hiddenPass
  dsimp only
  rw [hrow, touch_touch]
  dsimp only [Frame.setHidden, Frame.touch]
  rw [List.append_assoc]
  rfl

/-- The second loop, when the first has filled `h`. -/
theorem outputPass_eq (i : ℕ) (s : Frame F)
    (hh : ∀ j, j < (modelHdr rd).nHid.toNat → s.h j = hiddenAt A.toFloatArith rd x j) :
    outputPass A rd i s = { s with
      o := Function.update s.o i (outputAt A.toFloatArith rd x i)
      best := if A.gt (outputAt A.toFloatArith rd x i)
          (Function.update s.o i (outputAt A.toFloatArith rd x i) s.best) then i else s.best
      log := s.log ++ outputLog (modelHdr rd) i s.best } := by
  have hrow := row_loop A (modelHdr rd).nHid.toNat
    (fun j => weightAt A.toFloatArith rd ((modelHdr rd).w2 + i * (modelHdr rd).nHid.toNat + j))
    (fun s => s.h)
    (fun j => [.weight ((modelHdr rd).w2 + i * (modelHdr rd).nHid.toNat + j), .hidden j])
    (fun _ _ => rfl) (weightAt A.toFloatArith rd ((modelHdr rd).b2 + i))
    (s.touch [.weight ((modelHdr rd).b2 + i)])
  have ha : accumulate A.toFloatArith (weightAt A.toFloatArith rd ((modelHdr rd).b2 + i))
      (modelHdr rd).nHid.toNat (fun j => weightAt A.toFloatArith rd
        ((modelHdr rd).w2 + i * (modelHdr rd).nHid.toNat + j))
      (s.touch [.weight ((modelHdr rd).b2 + i)]).h = outputAt A.toFloatArith rd x i :=
    accumulate_congr A hh
  unfold outputPass
  dsimp only
  rw [hrow, ha, touch_touch]
  dsimp only [Frame.setOutput, Frame.touch]
  rw [List.append_assoc, List.append_assoc]
  rfl

/-! ## The whole run -/

/-- The class so far: the argmax of the first `k` output units. -/
def bestAt (k : ℕ) : ℕ := runningArgmax A.gt (outputAt A.toFloatArith rd x) k

/-- After `k` passes of the first loop. -/
structure HiddenDone (o0 : ℕ → F) (k : ℕ) (s : Frame F) : Prop where
  h : ∀ i, i < k → s.h i = hiddenAt A.toFloatArith rd x i
  o : s.o = o0
  best : s.best = 0
  log : s.log = (List.range k).flatMap (hiddenLog (modelHdr rd))

/-- After `k` passes of the second loop. -/
structure OutputDone (log : List Access) (k : ℕ) (s : Frame F) : Prop where
  h : ∀ i, i < (modelHdr rd).nHid.toNat → s.h i = hiddenAt A.toFloatArith rd x i
  o : ∀ i, i < k → s.o i = outputAt A.toFloatArith rd x i
  best : s.best = bestAt A rd x k
  log : s.log = log ++ (List.range k).flatMap fun i =>
    outputLog (modelHdr rd) i (bestAt A rd x i)

variable {A rd x}

theorem HiddenDone.pass {o0 : ℕ → F} {k : ℕ} {s : Frame F} (h : HiddenDone A rd x o0 k s) :
    HiddenDone A rd x o0 (k + 1) (hiddenPass A rd x k s) := by
  rw [hiddenPass_eq]
  refine ⟨?_, h.o, h.best, ?_⟩
  · intro i hi
    show Function.update s.h k (hiddenAt A.toFloatArith rd x k) i = _
    rcases Nat.lt_succ_iff_lt_or_eq.mp hi with hlt | rfl
    · rw [Function.update_of_ne (Nat.ne_of_lt hlt)]
      exact h.h i hlt
    · rw [Function.update_self]
  · show s.log ++ hiddenLog (modelHdr rd) k = _
    rw [h.log, List.range_succ, List.flatMap_append, List.flatMap_singleton]

theorem OutputDone.pass {log : List Access} {k : ℕ} {s : Frame F}
    (h : OutputDone A rd x log k s) :
    OutputDone A rd x log (k + 1) (outputPass A rd k s) := by
  rw [outputPass_eq A rd x k s h.h]
  refine ⟨h.h, ?_, ?_, ?_⟩
  · intro i hi
    show Function.update s.o k (outputAt A.toFloatArith rd x k) i = _
    rcases Nat.lt_succ_iff_lt_or_eq.mp hi with hlt | rfl
    · rw [Function.update_of_ne (Nat.ne_of_lt hlt)]
      exact h.o i hlt
    · rw [Function.update_self]
  · -- `o[best]` has been computed, in an earlier pass or in this one
    have hread : Function.update s.o k (outputAt A.toFloatArith rd x k) s.best
        = outputAt A.toFloatArith rd x (bestAt A rd x k) := by
      rw [h.best]
      rcases Nat.eq_zero_or_pos k with rfl | hpos
      · exact Function.update_self 0 _ s.o
      · have hlt : bestAt A rd x k < k := runningArgmax_lt _ _ hpos
        rw [Function.update_of_ne (Nat.ne_of_lt hlt)]
        exact h.o _ hlt
    show (if A.gt _ (Function.update s.o k _ s.best) then k else s.best) = _
    rw [hread, h.best, bestAt, bestAt, runningArgmax_succ]
  · show s.log ++ outputLog (modelHdr rd) k s.best = _
    rw [h.log, h.best, List.range_succ, List.flatMap_append, List.flatMap_singleton,
      List.append_assoc]

variable (A rd x)

/-- The accesses of the softmax, when `best` is the class. -/
def softmaxLog (hd : ModelHdr) (best : ℕ) : List Access :=
  (List.range hd.nOut.toNat).flatMap fun i => [.output i, .output best]

theorem softmax_loop (n : ℕ) (p : F × Frame F) :
    (loop n (softmaxPass A) p).2
      = p.2.touch ((List.range n).flatMap fun i => [.output i, .output p.2.best]) := by
  induction n with
  | zero => exact (touch_nil p.2).symm
  | succ n ih =>
      rw [loop_succ]
      show (loop n (softmaxPass A) p).2.touch
        [.output n, .output (loop n (softmaxPass A) p).2.best] = _
      rw [ih, touch_touch, List.range_succ, List.flatMap_append, List.flatMap_singleton]
      rfl

/-- **The run of `model_infer`**: the class of `modelInfer`, and every access there is. -/
theorem inferRun_eq (h0 o0 : ℕ → F) :
    (inferRun A rd x h0 o0).best = modelInfer A.toFloatArith rd x ∧
    (inferRun A rd x h0 o0).log
      = (List.range (modelHdr rd).nHid.toNat).flatMap (hiddenLog (modelHdr rd)) ++
        ((List.range (modelHdr rd).nOut.toNat).flatMap fun i =>
          outputLog (modelHdr rd) i (bestAt A rd x i)) ++
        softmaxLog (modelHdr rd) (modelInfer A.toFloatArith rd x) := by
  have hhidden : HiddenDone A rd x o0 (modelHdr rd).nHid.toNat
      (loop (modelHdr rd).nHid.toNat (hiddenPass A rd x) ⟨h0, o0, 0, []⟩) :=
    loop_inv ⟨fun _ hi => absurd hi (Nat.not_lt_zero _), rfl, rfl, rfl⟩ fun _ _ _ h => h.pass
  unfold inferRun
  dsimp only
  generalize loop (modelHdr rd).nHid.toNat (hiddenPass A rd x) ⟨h0, o0, 0, []⟩ = s1 at hhidden ⊢
  have houtput : OutputDone A rd x s1.log (modelHdr rd).nOut.toNat
      (loop (modelHdr rd).nOut.toNat (outputPass A rd) s1) :=
    loop_inv ⟨hhidden.h, fun _ hi => absurd hi (Nat.not_lt_zero _), hhidden.best,
      (List.append_nil _).symm⟩ fun _ _ _ h => h.pass
  generalize loop (modelHdr rd).nOut.toNat (outputPass A rd) s1 = s2 at houtput ⊢
  have hsoftmax := softmax_loop A (modelHdr rd).nOut.toNat (A.zero, s2)
  have hbest : s2.best = modelInfer A.toFloatArith rd x := houtput.best
  rw [hsoftmax]
  dsimp only [Frame.touch]
  rw [houtput.log, hhidden.log, hbest]
  exact ⟨rfl, rfl⟩

/-! ## No access out of bounds -/

/-- The weights an access reads. -/
def Access.weight? : Access → Option ℕ
  | .weight k => some k
  | _ => none

@[simp] theorem weight?_weight (k : ℕ) : (Access.weight k).weight? = some k := rfl

@[simp] theorem weight?_hidden (i : ℕ) : (Access.hidden i).weight? = none := rfl

@[simp] theorem weight?_output (i : ℕ) : (Access.output i).weight? = none := rfl

/-- What an index must satisfy: the float lies in the blob behind its header, and the arrays are
long enough. -/
def Access.InBounds (blob : Bytes) : Access → Prop
  | .weight k => modelHdrLen.toNat + 4 * k + 4 ≤ blob.length
  | .hidden i => i < modelMaxHid.toNat
  | .output i => i < modelMaxOut.toNat

end Passes

section Safety

variable (hd : ModelHdr)

theorem weights_hiddenLog (i : ℕ) : (hiddenLog hd i).filterMap Access.weight?
    = (0 + hd.nHid.toNat * hd.nIn.toNat + i) ::
      (List.range hd.nIn.toNat).map fun j => 0 + i * hd.nIn.toNat + j := by
  rw [Nat.zero_add, Nat.zero_add]
  show (hd.b1 + i) :: (((List.range hd.nIn.toNat).flatMap _) ++ _).filterMap _ = _
  rw [List.filterMap_append, List.filterMap_flatMap, List.map_eq_flatMap]
  simp [List.filterMap_cons, ModelHdr.b1]

theorem weights_outputLog (i best : ℕ) : (outputLog hd i best).filterMap Access.weight?
    = (hd.w2 + hd.nOut.toNat * hd.nHid.toNat + i) ::
      (List.range hd.nHid.toNat).map fun j => hd.w2 + i * hd.nHid.toNat + j := by
  show (hd.b2 + i) :: (((List.range hd.nHid.toNat).flatMap _) ++ _).filterMap _ = _
  rw [List.filterMap_append, List.filterMap_flatMap, List.map_eq_flatMap]
  simp [List.filterMap_cons, ModelHdr.b2]

/-- **The two layers with their biases tile the weights section.** -/
theorem weights_read (best : ℕ → ℕ) :
    (((List.range hd.nHid.toNat).flatMap (hiddenLog hd) ++
      (List.range hd.nOut.toNat).flatMap fun i => outputLog hd i (best i)).filterMap
        Access.weight?).Perm (List.range hd.weights) := by
  have hhidden := layer_perm 0 hd.nHid.toNat hd.nIn.toNat
  have houtput := layer_perm hd.w2 hd.nOut.toNat hd.nHid.toNat
  have hzero : (List.range (hd.nHid.toNat * hd.nIn.toNat + hd.nHid.toNat)).map (0 + ·)
      = List.range hd.w2 := by
    simp [ModelHdr.w2, ModelHdr.b1]
  rw [hzero] at hhidden
  rw [List.filterMap_append, List.filterMap_flatMap, List.filterMap_flatMap]
  simp only [weights_hiddenLog, weights_outputLog]
  calc List.Perm _ (List.range hd.w2 ++ _) := hhidden.append houtput
    _ = List.range (hd.w2 + (hd.nOut.toNat * hd.nHid.toNat + hd.nOut.toNat)) :=
        List.range_add.symm
    _ = List.range hd.weights := by rw [← Nat.add_assoc]; rfl

end Safety

section Bounds

variable {blob : Bytes} (h : ModelValid blob)

include h

/-- A weight of the section lies in the blob. -/
theorem weight_inBounds {k : ℕ} (hk : k < (modelHdr (byteAt blob)).weights) :
    (Access.weight k).InBounds blob := by
  have hlen := h.length
  show modelHdrLen.toNat + 4 * k + 4 ≤ blob.length
  unfold modelWeightsLen at hlen
  omega

theorem hidden_inBounds {i : ℕ} (hi : i < (modelHdr (byteAt blob)).nHid.toNat) :
    (Access.hidden i).InBounds blob := by
  obtain ⟨-, ⟨-, hhid⟩, -⟩ := ModelHdr.dims_bounds h.dims
  exact Nat.lt_of_lt_of_le hi hhid

theorem output_inBounds {i : ℕ} (hi : i < (modelHdr (byteAt blob)).nOut.toNat) :
    (Access.output i).InBounds blob := by
  obtain ⟨-, -, -, hout⟩ := ModelHdr.dims_bounds h.dims
  exact Nat.lt_of_lt_of_le hi hout

end Bounds

/-! ## The theorem -/

section Theorem

variable {F : Type} (A : SoftmaxArith F) {blob : Bytes} (x h0 o0 : ℕ → F)

/-- A run of `model_infer` on `blob` that stays inside it. -/
structure StaysInside (blob : Bytes) (r : InferRun F) : Prop where
  inBounds : ∀ a ∈ r.log, a.InBounds blob
  /-- Every float of the weights section is read exactly once. -/
  tiles : (r.log.filterMap Access.weight?).Perm (List.range (modelHdr (byteAt blob)).weights)
  /-- The weights section ends where the blob ends. -/
  whole : modelHdrLen.toNat + 4 * (modelHdr (byteAt blob)).weights = blob.length
  best : r.best < (modelHdr (byteAt blob)).nOut.toNat

/-- The running argmax is an index of the output array before every pass. -/
theorem bestAt_lt (rd : ℕ → UInt8) {i n : ℕ} (hi : i < n) : bestAt A rd x i < n := by
  rcases Nat.eq_zero_or_pos i with rfl | hpos
  · exact hi
  · exact (runningArgmax_lt _ _ hpos).trans hi

/-- The hidden units and outputs that a run accesses. -/
theorem arrays_inBounds (h : ModelValid blob) {a : Access}
    (ha : a ∈ (inferRun A (byteAt blob) x h0 o0).log) (hw : a.weight? = none) : a.InBounds blob := by
  have hclass : modelInfer A.toFloatArith (byteAt blob) x < (modelHdr (byteAt blob)).nOut.toNat :=
    runningArgmax_lt _ _ (ModelHdr.dims_bounds h.dims).2.2.1
  rw [(inferRun_eq A (byteAt blob) x h0 o0).2, List.mem_append, List.mem_append,
    List.mem_flatMap, List.mem_flatMap] at ha
  rcases ha with (⟨i, hi, ha⟩ | ⟨i, hi, ha⟩) | ha
  · -- a hidden unit is written
    have hlt := List.mem_range.mp hi
    cases a with
    | weight k => exact absurd hw (by simp)
    | hidden j =>
        obtain rfl : j = i := by simpa [hiddenLog] using ha
        exact hidden_inBounds h hlt
    | output j => simp [hiddenLog] at ha
  · -- the hidden units are read, and an output is written and compared
    have hlt := List.mem_range.mp hi
    cases a with
    | weight k => exact absurd hw (by simp)
    | hidden j =>
        have hj : j < (modelHdr (byteAt blob)).nHid.toNat := by simpa [outputLog] using ha
        exact hidden_inBounds h hj
    | output j =>
        have hj : j = i ∨ j = bestAt A (byteAt blob) x i := by simpa [outputLog] using ha
        rcases hj with rfl | rfl
        · exact output_inBounds h hlt
        · exact output_inBounds h (bestAt_lt A x (byteAt blob) hlt)
  · -- the softmax reads the outputs
    obtain ⟨i, hi, ha⟩ := List.mem_flatMap.mp ha
    have hlt := List.mem_range.mp hi
    cases a with
    | weight k => exact absurd hw (by simp)
    | hidden j => simp at ha
    | output j =>
        have hj : j = i ∨ j = modelInfer A.toFloatArith (byteAt blob) x := by simpa using ha
        rcases hj with rfl | rfl
        · exact output_inBounds h hlt
        · exact output_inBounds h hclass

/-- **Inference stays inside an accepted blob**: for every blob that `model_validate` accepts, every
input, whatever the arithmetic and the comparison give and whatever the stack holds, no access
of `model_infer` is out of bounds, it reads the weights section exactly to its end, and the class is
one of the model's. -/
theorem infer_stays_inside (hvalid : modelValidate blob = none) :
    StaysInside blob (inferRun A (byteAt blob) x h0 o0) := by
  have h := modelValidate_eq_none.mp hvalid
  obtain ⟨hbest, hlog⟩ := inferRun_eq A (byteAt blob) x h0 o0
  have htiles : ((inferRun A (byteAt blob) x h0 o0).log.filterMap Access.weight?).Perm
      (List.range (modelHdr (byteAt blob)).weights) := by
    have hsoftmax : (softmaxLog (modelHdr (byteAt blob))
        (modelInfer A.toFloatArith (byteAt blob) x)).filterMap Access.weight? = [] := by
      rw [softmaxLog, List.filterMap_flatMap]
      simp [List.filterMap_cons]
    rw [hlog, List.filterMap_append, hsoftmax, List.append_nil]
    exact weights_read _ _
  refine ⟨?_, htiles, h.length.symm, ?_⟩
  · intro a ha
    cases hw : a.weight? with
    | none => exact arrays_inBounds A x h0 o0 h ha hw
    | some k =>
        obtain rfl : a = .weight k := by
          cases a <;> simp_all
        apply weight_inBounds h
        rw [← List.mem_range]
        exact htiles.mem_iff.mp (List.mem_filterMap.mpr ⟨_, ha, hw⟩)
  · rw [hbest]
    exact runningArgmax_lt _ _ (ModelHdr.dims_bounds h.dims).2.2.1

end Theorem

/-- Exact arithmetic, with a comparison that always says yes. -/
def alwaysGreater : SoftmaxArith ℚ where
  toFloatArith := { exactArith with gt := fun _ _ => true }
  sub a b := a - b
  expf a := a
  recip a := a⁻¹

theorem infer_stays_inside_builtin :
    StaysInside modelBuiltin
      (inferRun alwaysGreater (byteAt modelBuiltin) (fun _ => 0) (fun _ => 0) (fun _ => 0)) :=
  infer_stays_inside alwaysGreater _ _ _ (modelValidate_eq_none.mpr modelBuiltin_valid)

end IotcDemos.Iotm
