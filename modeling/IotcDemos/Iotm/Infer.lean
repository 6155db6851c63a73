import IotcDemos.Iotm.Blob
import IotcDemos.Lib.Argmax

set_option autoImplicit false

/-! # Inference on the device and in the tool

`modelInfer` is the engine of the firmware, over any arithmetic `A`: it walks the weights section
with pointers into a flat array. `infer` is the reference of `tools/build_model.py`, which cuts the
section into rows. With exact rational arithmetic both give the same class.
-/

namespace IotcDemos.Iotm

/-! ## `model_infer` -/

/-- The arithmetic of the engine: what four bytes mean, and the operations of C's `float`. -/
structure FloatArith (F : Type) where
  ofBits : UInt32 → F
  zero : F
  add : F → F → F
  mul : F → F → F
  gt : F → F → Bool

section Engine

variable {F : Type} (A : FloatArith F) (rd : ℕ → UInt8) (x : ℕ → F)

/-- `w[k]`, where `w` points behind the header. -/
def weightAt (k : ℕ) : F := A.ofBits (le32At rd (modelHdrLen.toNat + 4 * k))

/-- `for (j = 0; j < n; j++) a += w[j] * v[j];` -/
def accumulate (a : F) (n : ℕ) (w v : ℕ → F) : F :=
  (List.range n).foldl (fun a j => A.add a (A.mul (w j) (v j))) a

namespace ModelHdr

variable (h : ModelHdr)

/-- The pointers `b1`, `w2` and `b2`, as indices from `w1` on. -/
def b1 : ℕ := h.nHid.toNat * h.nIn.toNat
def w2 : ℕ := h.b1 + h.nHid.toNat
def b2 : ℕ := h.w2 + h.nOut.toNat * h.nHid.toNat

end ModelHdr

/-- `h[i]`: a row of `w1` on the input, through the ReLU. -/
def hiddenAt (i : ℕ) : F :=
  let h := modelHdr rd
  let a := accumulate A (weightAt A rd (h.b1 + i)) h.nIn.toNat
    (fun j => weightAt A rd (i * h.nIn.toNat + j)) x
  if A.gt a A.zero then a else A.zero

/-- `o[i]`: a row of `w2` on the hidden units. -/
def outputAt (i : ℕ) : F :=
  let h := modelHdr rd
  accumulate A (weightAt A rd (h.b2 + i)) h.nHid.toNat
    (fun j => weightAt A rd (h.w2 + i * h.nHid.toNat + j)) (hiddenAt A rd x)

/-- `model_infer`: the class index, on `(float)x[j]`. -/
def modelInfer : ℕ := runningArgmax A.gt (outputAt A rd x) (modelHdr rd).nOut.toNat

end Engine

/-! ## Exact arithmetic -/

/-- The exponent field of a float. -/
def floatExp (b : UInt32) : ℕ := b.toNat / 2 ^ 23 % 256

/-- The rational number that a finite float is. -/
def floatValue (b : UInt32) : ℚ :=
  let sign : ℚ := if b.toNat < 2 ^ 31 then 1 else -1
  let frac : ℚ := (b.toNat % 2 ^ 23 : ℕ)
  if floatExp b = 0 then sign * frac / 2 ^ 149
  else sign * (2 ^ 23 + frac) * 2 ^ floatExp b / 2 ^ 150

/-- Float arithmetic taken as exact. -/
def exactArith : FloatArith ℚ where
  ofBits := floatValue
  zero := 0
  add a b := a + b
  mul a b := a * b
  gt a b := decide (a > b)

/-- A valid model whose weights are finite numbers. -/
structure FiniteModel where
  blob : Bytes
  valid : ModelValid blob
  finite : ∀ k, k < (modelHdr (byteAt blob)).weights →
    floatExp (le32At (byteAt blob) (modelHdrLen.toNat + 4 * k)) ≠ 255

/-- `model_builtin`. -/
def finiteBuiltin : FiniteModel where
  blob := modelBuiltin
  valid := modelBuiltin_valid
  finite := by decide +kernel

/-- The features of 30 degrees and 10 % light. -/
def warmAndDark : ℕ → ℚ := fun j => if j = 0 then 3 / 5 else 1 / 10

/-! ## `infer` of tools/build_model.py -/

/-- Python's `l[a:b]`. -/
def slice (l : List ℚ) (a b : ℕ) : List ℚ := (l.drop a).take (b - a)

/-- `struct.unpack_from("<%df" % n, blob, off)`. -/
def unpackFloats (n : ℕ) (blob : Bytes) (off : ℕ) : List ℚ :=
  (List.range n).map fun k => floatValue (le32At (byteAt blob) (off + 4 * k))

/-- `sum(W[i][j] * v[j] for j in range(m)) + b[i]`. -/
def pyRow (W : List (List ℚ)) (b : List ℚ) (m : ℕ) (v : ℕ → ℚ) (i : ℕ) : ℚ :=
  ((List.range m).map fun j => (W.getD i []).getD j 0 * v j).sum + b.getD i 0

/-- The list `h` of `infer`: the rows `W1` and the biases `b1`, cut out of `w`. -/
def inferHidden (nIn nHid : ℕ) (w : List ℚ) (x : ℕ → ℚ) : List ℚ :=
  let W1 := (List.range nHid).map fun i => slice w (i * nIn) ((i + 1) * nIn)
  let b1 := slice w (nHid * nIn) (nHid * nIn + nHid)
  -- `max(0.0, a)`
  (List.range nHid).map fun i =>
    if pyRow W1 b1 nIn x i > 0 then pyRow W1 b1 nIn x i else 0

/-- The list `o` of `infer`. -/
def inferOutput (nIn nHid nOut : ℕ) (w : List ℚ) (h : List ℚ) : List ℚ :=
  let o2 := nHid * nIn + nHid
  let W2 := (List.range nOut).map fun i => slice w (o2 + i * nHid) (o2 + (i + 1) * nHid)
  let b2 := w.drop (o2 + nOut * nHid)
  (List.range nOut).map fun i => pyRow W2 b2 nHid (fun j => h.getD j 0) i

/-- `infer(blob, x)`. -/
def infer (blob : Bytes) (x : ℕ → ℚ) : ℕ :=
  let nIn := (byteAt blob 8).toNat
  let nHid := (byteAt blob 9).toNat
  let nOut := (byteAt blob 10).toNat
  let n := nHid * nIn + nHid + nOut * nHid + nOut
  let w := unpackFloats n blob 64
  let h := inferHidden nIn nHid w x
  let o := inferOutput nIn nHid nOut w h
  o.idxOf (listMax 0 o)

/-! ## Rows of the weights section -/

theorem getD_range_map {α : Type} (f : ℕ → α) (d : α) {n i : ℕ} (hi : i < n) :
    ((List.range n).map f).getD i d = f i := by
  simp [List.getD, hi]

theorem getD_slice (l : List ℚ) {a b j : ℕ} (hj : a + j < b) :
    (slice l a b).getD j 0 = l.getD (a + j) 0 := by
  have hj' : j < b - a := by omega
  simp [slice, List.getD, hj']

/-- Element `j` of row `i`, when the rows of length `m` lie behind one another from `a` on. -/
theorem getD_rows (l : List ℚ) (a m : ℕ) {n i j : ℕ} (hi : i < n) (hj : j < m) :
    (((List.range n).map fun i => slice l (a + i * m) (a + (i + 1) * m)).getD i []).getD j 0 =
      l.getD (a + i * m + j) 0 := by
  rw [getD_range_map _ _ hi, getD_slice]
  calc a + i * m + j < a + i * m + m := by omega
    _ = a + (i + 1) * m := by rw [Nat.succ_mul, Nat.add_assoc]

/-- The loop that accumulates is a sum. -/
theorem accumulate_exact (a : ℚ) (n : ℕ) (w v : ℕ → ℚ) :
    accumulate exactArith a n w v = ((List.range n).map fun j => w j * v j).sum + a := by
  induction n with
  | zero => simp [accumulate]
  | succ n ih =>
      calc accumulate exactArith a (n + 1) w v
          = accumulate exactArith a n w v + w n * v n := by
            rw [accumulate, List.range_succ, List.foldl_append]
            rfl
        _ = ((List.range n).map fun j => w j * v j).sum + a + w n * v n := by rw [ih]
        _ = ((List.range (n + 1)).map fun j => w j * v j).sum + a := by
            rw [List.range_succ, List.map_append, List.sum_append]
            simp only [List.map_cons, List.map_nil, List.sum_cons, List.sum_nil]
            ring

/-- An index into the rows of a matrix of `n` rows of length `m`. -/
theorem rowIndex_lt {n m i j : ℕ} (hi : i < n) (hj : j < m) : i * m + j < n * m :=
  calc i * m + j < i * m + m := by omega
    _ = (i + 1) * m := by rw [Nat.succ_mul]
    _ ≤ n * m := Nat.mul_le_mul_right m hi

section Reference

variable (blob : Bytes) (x : ℕ → ℚ)

/-- The weights that `infer` unpacks. -/
def pyWeights : List ℚ := unpackFloats (modelHdr (byteAt blob)).weights blob 64

/-- The weights that `infer` unpacks are those that the engine reads. -/
theorem pyWeights_getD {k : ℕ} (hk : k < (modelHdr (byteAt blob)).weights) :
    (pyWeights blob).getD k 0 = weightAt exactArith (byteAt blob) k := getD_range_map _ _ hk

/-- A row of the reference is the loop of the engine, when both read the same weights. -/
theorem pyRow_eq {a m n i k : ℕ} {b : List ℚ} {v v' : ℕ → ℚ} (hi : i < n)
    (hrow : a + n * m ≤ (modelHdr (byteAt blob)).weights)
    (hb : b.getD i 0 = weightAt exactArith (byteAt blob) k) (hv : ∀ j, j < m → v j = v' j) :
    pyRow ((List.range n).map fun i => slice (pyWeights blob) (a + i * m) (a + (i + 1) * m)) b
        m v i =
      accumulate exactArith (weightAt exactArith (byteAt blob) k) m
        (fun j => weightAt exactArith (byteAt blob) (a + i * m + j)) v' := by
  rw [accumulate_exact, pyRow, hb]
  congr 2
  refine List.map_congr_left fun j hj => ?_
  have hjm := List.mem_range.mp hj
  have hidx := rowIndex_lt hi hjm
  rw [getD_rows _ _ _ hi hjm, pyWeights_getD _ (by omega), hv j hjm]

/-- The hidden units of the reference are those of the engine. -/
theorem inferHidden_eq (h : ModelHdr) (hh : modelHdr (byteAt blob) = h) :
    inferHidden h.nIn.toNat h.nHid.toNat (pyWeights blob) x =
      (List.range h.nHid.toNat).map (hiddenAt exactArith (byteAt blob) x) := by
  have hweights : h.weights = h.b1 + h.nHid.toNat + h.nOut.toNat * h.nHid.toNat + h.nOut.toNat :=
    rfl
  refine List.map_congr_left fun i hi => ?_
  have hilt := List.mem_range.mp hi
  have hbias : (slice (pyWeights blob) h.b1 (h.b1 + h.nHid.toNat)).getD i 0 =
      weightAt exactArith (byteAt blob) (h.b1 + i) := by
    rw [getD_slice _ (by omega), pyWeights_getD _ (by rw [hh]; omega)]
  have hrow : 0 + h.nHid.toNat * h.nIn.toNat ≤ (modelHdr (byteAt blob)).weights := by
    rw [hh, hweights, ModelHdr.b1]
    omega
  have ha := pyRow_eq blob hilt hrow hbias (fun j _ => rfl : ∀ j, j < h.nIn.toNat → x j = x j)
  simp only [Nat.zero_add] at ha
  unfold hiddenAt
  rw [hh]
  dsimp only
  rw [← ha]
  simp [exactArith, ModelHdr.b1]

/-- The outputs of the reference are those of the engine. -/
theorem inferOutput_eq (h : ModelHdr) (hh : modelHdr (byteAt blob) = h) :
    inferOutput h.nIn.toNat h.nHid.toNat h.nOut.toNat (pyWeights blob)
        ((List.range h.nHid.toNat).map (hiddenAt exactArith (byteAt blob) x)) =
      (List.range h.nOut.toNat).map (outputAt exactArith (byteAt blob) x) := by
  have hweights : h.weights = h.b2 + h.nOut.toNat := rfl
  refine List.map_congr_left fun i hi => ?_
  have hilt := List.mem_range.mp hi
  have hbias : ((pyWeights blob).drop h.b2).getD i 0 =
      weightAt exactArith (byteAt blob) (h.b2 + i) := by
    rw [← pyWeights_getD _ (by rw [hh]; omega)]
    simp [List.getD]
  have hrow : h.w2 + h.nOut.toNat * h.nHid.toNat ≤ (modelHdr (byteAt blob)).weights := by
    rw [hh, hweights, ModelHdr.b2]
    omega
  unfold outputAt
  rw [hh]
  exact pyRow_eq blob hilt hrow hbias fun j hj => getD_range_map _ _ hj

/-- The fields of the header are the bytes that `infer` takes the dimensions from. -/
theorem infer_eq (h : ModelHdr) (hh : modelHdr (byteAt blob) = h) : infer blob x =
    (inferOutput h.nIn.toNat h.nHid.toNat h.nOut.toNat (pyWeights blob)
      (inferHidden h.nIn.toNat h.nHid.toNat (pyWeights blob) x)).idxOf
        (listMax 0 (inferOutput h.nIn.toNat h.nHid.toNat h.nOut.toNat (pyWeights blob)
          (inferHidden h.nIn.toNat h.nHid.toNat (pyWeights blob) x))) := by
  subst hh
  rfl

end Reference

/-- **The device infers what the reference infers**: on a valid model with finite weights and any
input, with exact arithmetic, the class index of `model_infer` is that of `infer`. -/
theorem device_infers_reference (m : FiniteModel) (x : ℕ → ℚ) :
    modelInfer exactArith (byteAt m.blob) x = infer m.blob x := by
  obtain ⟨-, -, hout, -⟩ := ModelHdr.dims_bounds m.valid.dims
  generalize hh : modelHdr (byteAt m.blob) = h at hout
  rw [infer_eq m.blob x h hh, inferHidden_eq m.blob x h hh, inferOutput_eq m.blob x h hh,
    modelInfer, hh]
  exact runningArgmax_eq_idxOf 0 _ hout

/-- 30 degrees and 10 % light: the built-in model finds it dark, its class 0. -/
theorem device_infers_dark :
    modelInfer exactArith (byteAt modelBuiltin) warmAndDark = infer modelBuiltin warmAndDark ∧
      infer modelBuiltin warmAndDark = 0 :=
  ⟨device_infers_reference finiteBuiltin warmAndDark, by decide +kernel⟩

end IotcDemos.Iotm
