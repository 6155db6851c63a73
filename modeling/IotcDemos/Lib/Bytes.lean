import Mathlib.Tactic

set_option autoImplicit false

/-! # Byte strings, fields and counters

Byte strings are lists of `UInt8`. A field of a binary record is read through an accessor
`rd : ℕ → UInt8` (`rd i` is the byte at offset `i`), so that the same field readers serve a
record held in a list (`byteAt`) and a region of memory. `toLe16`, `toLe32` and `toBe32` are the
encoders; `le16At_eq` and `le32At_eq` say that reading back what was encoded returns it.
A 32-bit counter is compared with a count in `ℕ`; `toNat_succ` and `toNat_pred` hold where it
does not wrap, `ofNat_succ32` everywhere.
-/

namespace IotcDemos

abbrev Bytes := List UInt8

/-- The bytes of a C string literal. -/
def ascii (text : String) : Bytes := text.toList.map fun c => UInt8.ofNat c.toNat

/-! ## Counters -/

theorem ofNat_succ32 (k : ℕ) : UInt32.ofNat (k + 1) = UInt32.ofNat k + 1 := UInt32.ofNat_add k 1

theorem toNat_succ {x : UInt32} (h : x.toNat + 1 < 2 ^ 32) : (x + 1).toNat = x.toNat + 1 := by
  rw [UInt32.toNat_add, UInt32.toNat_one, Nat.mod_eq_of_lt h]

theorem toNat_pred {x : UInt32} {k : ℕ} (h : x.toNat = k + 1) : (x - 1).toNat = k := by
  have hlt := x.toNat_lt
  rw [UInt32.toNat_sub, h, UInt32.toNat_one]
  omega

/-! ## Fields -/

/-- The byte at offset `i`; past the end it is `0`. -/
def byteAt (b : Bytes) (i : ℕ) : UInt8 := b.getD i 0

def le16At (rd : ℕ → UInt8) (i : ℕ) : UInt16 :=
  UInt16.ofNat ((rd i).toNat + 256 * (rd (i + 1)).toNat)

def le32At (rd : ℕ → UInt8) (i : ℕ) : UInt32 :=
  UInt32.ofNat ((rd i).toNat + 256 * (rd (i + 1)).toNat + 65536 * (rd (i + 2)).toNat
    + 16777216 * (rd (i + 3)).toNat)

def toLe16 (x : UInt16) : Bytes := [UInt8.ofNat x.toNat, UInt8.ofNat (x.toNat / 256)]

def toLe32 (x : UInt32) : Bytes :=
  [UInt8.ofNat x.toNat, UInt8.ofNat (x.toNat / 256), UInt8.ofNat (x.toNat / 65536),
    UInt8.ofNat (x.toNat / 16777216)]

def toBe32 (x : UInt32) : Bytes :=
  [UInt8.ofNat (x.toNat / 16777216), UInt8.ofNat (x.toNat / 65536), UInt8.ofNat (x.toNat / 256),
    UInt8.ofNat x.toNat]

def be32At (rd : ℕ → UInt8) (i : ℕ) : UInt32 :=
  UInt32.ofNat (16777216 * (rd i).toNat + 65536 * (rd (i + 1)).toNat + 256 * (rd (i + 2)).toNat
    + (rd (i + 3)).toNat)

@[simp] theorem toLe16_length (x : UInt16) : (toLe16 x).length = 2 := rfl

@[simp] theorem toLe32_length (x : UInt32) : (toLe32 x).length = 4 := rfl

@[simp] theorem toBe32_length (x : UInt32) : (toBe32 x).length = 4 := rfl

/-- Two bytes encoding `x` read back as `x`. -/
theorem le16At_eq {rd : ℕ → UInt8} {i : ℕ} {x : UInt16}
    (h0 : rd i = UInt8.ofNat x.toNat) (h1 : rd (i + 1) = UInt8.ofNat (x.toNat / 256)) :
    le16At rd i = x := by
  apply UInt16.toNat_inj.mp
  have hx := x.toNat_lt
  rw [le16At, h0, h1, UInt16.toNat_ofNat', UInt8.toNat_ofNat', UInt8.toNat_ofNat']
  omega

/-- Four bytes encoding `x` read back as `x`. -/
theorem le32At_eq {rd : ℕ → UInt8} {i : ℕ} {x : UInt32}
    (h0 : rd i = UInt8.ofNat x.toNat) (h1 : rd (i + 1) = UInt8.ofNat (x.toNat / 256))
    (h2 : rd (i + 2) = UInt8.ofNat (x.toNat / 65536))
    (h3 : rd (i + 3) = UInt8.ofNat (x.toNat / 16777216)) :
    le32At rd i = x := by
  apply UInt32.toNat_inj.mp
  have hx := x.toNat_lt
  rw [le32At, h0, h1, h2, h3, UInt32.toNat_ofNat', UInt8.toNat_ofNat', UInt8.toNat_ofNat',
    UInt8.toNat_ofNat', UInt8.toNat_ofNat']
  omega

theorem be32At_eq {rd : ℕ → UInt8} {i : ℕ} {x : UInt32}
    (h0 : rd i = UInt8.ofNat (x.toNat / 16777216)) (h1 : rd (i + 1) = UInt8.ofNat (x.toNat / 65536))
    (h2 : rd (i + 2) = UInt8.ofNat (x.toNat / 256)) (h3 : rd (i + 3) = UInt8.ofNat x.toNat) :
    be32At rd i = x := by
  apply UInt32.toNat_inj.mp
  have hx := x.toNat_lt
  rw [be32At, h0, h1, h2, h3, UInt32.toNat_ofNat', UInt8.toNat_ofNat', UInt8.toNat_ofNat',
    UInt8.toNat_ofNat', UInt8.toNat_ofNat']
  omega

/-- A field read depends only on the bytes of the field. -/
theorem le16At_congr {rd rd' : ℕ → UInt8} {i : ℕ} (h : ∀ j, j < 2 → rd (i + j) = rd' (i + j)) :
    le16At rd i = le16At rd' i := by
  have h0 := h 0 (by omega)
  have h1 := h 1 (by omega)
  simp only [Nat.add_zero] at h0
  rw [le16At, le16At, h0, h1]

theorem le32At_congr {rd rd' : ℕ → UInt8} {i : ℕ} (h : ∀ j, j < 4 → rd (i + j) = rd' (i + j)) :
    le32At rd i = le32At rd' i := by
  have h0 := h 0 (by omega)
  have h1 := h 1 (by omega)
  have h2 := h 2 (by omega)
  have h3 := h 3 (by omega)
  simp only [Nat.add_zero] at h0
  rw [le32At, le32At, h0, h1, h2, h3]

/-- The bytes at the offsets `p, …, p + n - 1`. -/
def bytesAt (rd : ℕ → UInt8) (p n : ℕ) : Bytes := (List.range' p n).map rd

@[simp] theorem bytesAt_length (rd : ℕ → UInt8) (p n : ℕ) : (bytesAt rd p n).length = n := by
  simp [bytesAt]

theorem bytesAt_byteAt {b : Bytes} {p n : ℕ} (h : p + n ≤ b.length) :
    bytesAt (byteAt b) p n = (b.drop p).take n := by
  apply List.ext_getElem
  · simp
    omega
  · intro i hi hi'
    have hib : p + i < b.length := by simp at hi'; omega
    simp [bytesAt, byteAt, hib]

theorem byteAt_bytesAt (rd : ℕ → UInt8) (p : ℕ) {n i : ℕ} (h : i < n) :
    byteAt (bytesAt rd p n) i = rd (p + i) := by
  simp [bytesAt, byteAt, h]

theorem byteAt_append_right (a b : Bytes) (i : ℕ) :
    byteAt (a ++ b) (a.length + i) = byteAt b i := by
  simp [byteAt, List.getElem?_append_right]

/-- A word behind a prefix reads back. -/
theorem le32At_append (a : Bytes) (x : UInt32) (b : Bytes) :
    le32At (byteAt (a ++ (toLe32 x ++ b))) a.length = x := by
  refine le32At_eq ?_ ?_ ?_ ?_
  · exact byteAt_append_right a _ 0
  · exact byteAt_append_right a _ 1
  · exact byteAt_append_right a _ 2
  · exact byteAt_append_right a _ 3

theorem be32At_append (a : Bytes) (x : UInt32) (b : Bytes) :
    be32At (byteAt (a ++ (toBe32 x ++ b))) a.length = x := by
  refine be32At_eq ?_ ?_ ?_ ?_
  · exact byteAt_append_right a _ 0
  · exact byteAt_append_right a _ 1
  · exact byteAt_append_right a _ 2
  · exact byteAt_append_right a _ 3

/-- Word `k` of a list of words behind a prefix reads back. -/
theorem le32At_words (a : Bytes) {ws : List UInt32} {k : ℕ} {x : UInt32} (h : ws[k]? = some x) :
    le32At (byteAt (a ++ ws.flatMap toLe32)) (a.length + 4 * k) = x := by
  induction ws generalizing a k with
  | nil => cases h
  | cons w ws ih =>
      rw [List.flatMap_cons]
      cases k with
      | zero =>
          obtain rfl : w = x := by simpa using h
          exact le32At_append a w _
      | succ k =>
          rw [← List.append_assoc]
          have hnext := ih (a ++ toLe32 w) (by simpa using h)
          rw [List.length_append, toLe32_length] at hnext
          rw [← hnext]
          congr 1
          omega

/-- Pieces of one length have that length each. -/
theorem flatMap_const_length {α : Type} {l : List α} {f : α → Bytes} {n : ℕ}
    (hlen : ∀ y ∈ l, (f y).length = n) : (l.flatMap f).length = n * l.length := by
  induction l with
  | nil => simp
  | cons y l ih =>
      rw [List.flatMap_cons, List.length_append, hlen y List.mem_cons_self,
        ih fun z hz => hlen z (List.mem_cons_of_mem _ hz), List.length_cons]
      ring

/-- Pieces of one length lie at its multiples. -/
theorem flatMap_piece {α : Type} {l : List α} {f : α → Bytes} {n i : ℕ} {x : α} (rest : Bytes)
    (hlen : ∀ y ∈ l, (f y).length = n) (h : l[i]? = some x) :
    ((l.flatMap f ++ rest).drop (n * i)).take n = f x := by
  induction l generalizing i with
  | nil => cases h
  | cons y l ih =>
      have hy := hlen y List.mem_cons_self
      rw [List.flatMap_cons, List.append_assoc]
      cases i with
      | zero =>
          obtain rfl : y = x := by simpa using h
          rw [Nat.mul_zero, List.drop_zero, ← hy, List.take_left]
      | succ i =>
          have hdrop : n * (i + 1) = (f y).length + n * i := by rw [hy]; ring
          rw [hdrop, ← List.drop_drop, List.drop_left]
          exact ih (fun z hz => hlen z (List.mem_cons_of_mem _ hz)) (by simpa using h)

@[simp] theorem byteAt_append_left {a b : Bytes} {i : ℕ} (h : i < a.length) :
    byteAt (a ++ b) i = byteAt a i := by
  simp [byteAt, List.getElem?_append_left h]

/-! ## Copying -/

/-- `memcpy(dst + off, src, sizeof src)`. -/
def blit (dst : Bytes) (off : ℕ) (src : Bytes) : Bytes :=
  dst.take off ++ src ++ dst.drop (off + src.length)

theorem blit_length {dst src : Bytes} {off : ℕ} (h : off + src.length ≤ dst.length) :
    (blit dst off src).length = dst.length := by
  simp only [blit, List.length_append, List.length_take, List.length_drop]
  omega

/-- A copy right behind what has been written so far extends it. -/
theorem blit_take {dst src : Bytes} {off : ℕ} (h : off ≤ dst.length) :
    (blit dst off src).take (off + src.length) = dst.take off ++ src := by
  have hlen : (dst.take off ++ src).length = off + src.length := by
    rw [List.length_append, List.length_take, Nat.min_eq_left h]
  rw [blit, ← hlen, List.take_left]

theorem blit_zero_take (dst src : Bytes) : (blit dst 0 src).take src.length = src := by
  simp [blit]

/-! ## Memory

A region of memory is a function from the offsets; `patch` overwrites a part of it, and
`memcpyFrom` copies the first bytes of another one. -/

/-- `memcpy(m + off, b, sizeof b)`. -/
def patch (m : ℕ → UInt8) (off : ℕ) (b : Bytes) : ℕ → UInt8 := fun i =>
  if off ≤ i ∧ i < off + b.length then byteAt b (i - off) else m i

/-- `memcpy(dst, src, n)`. -/
def memcpyFrom (dst src : ℕ → UInt8) (n : ℕ) : ℕ → UInt8 := fun i => if i < n then src i else dst i

theorem patch_inside (m : ℕ → UInt8) (off : ℕ) {b : Bytes} {i : ℕ} (h : i < b.length) :
    patch m off b (off + i) = byteAt b i := by
  simp [patch, h]

theorem patch_outside {m : ℕ → UInt8} {off : ℕ} {b : Bytes} {i : ℕ}
    (h : i < off ∨ off + b.length ≤ i) : patch m off b i = m i := by
  unfold patch
  rw [if_neg (by omega)]

theorem bytesAt_congr {m m' : ℕ → UInt8} {p n : ℕ} (h : ∀ i, p ≤ i → i < p + n → m i = m' i) :
    bytesAt m p n = bytesAt m' p n := by
  refine List.map_congr_left fun i hi => ?_
  obtain ⟨hlo, hhi⟩ := List.mem_range'_1.mp hi
  exact h i hlo hhi

/-- What has been patched reads back. -/
theorem bytesAt_patch (m : ℕ → UInt8) (off : ℕ) (b : Bytes) :
    bytesAt (patch m off b) off b.length = b := by
  apply List.ext_getElem
  · simp
  · intro i hi hi'
    simp [bytesAt, patch, byteAt, hi']

/-- Bytes copied from another memory read back. -/
theorem bytesAt_patch_bytesAt (m m' : ℕ → UInt8) (off p n : ℕ) :
    bytesAt (patch m off (bytesAt m' p n)) off n = bytesAt m' p n := by
  have hread := bytesAt_patch m off (bytesAt m' p n)
  rwa [bytesAt_length] at hread

@[simp] theorem patch_nil (m : ℕ → UInt8) (off : ℕ) : patch m off [] = m := by
  funext i
  exact patch_outside (by simp only [List.length_nil]; omega)

/-- Two patches behind one another are one. -/
theorem patch_append (m : ℕ → UInt8) (off : ℕ) (a b : Bytes) :
    patch (patch m off a) (off + a.length) b = patch m off (a ++ b) := by
  funext i
  by_cases hb : off + a.length ≤ i ∧ i < off + a.length + b.length
  · obtain ⟨k, rfl⟩ := Nat.exists_eq_add_of_le hb.1
    have hin : a.length + k < (a ++ b).length := by
      rw [List.length_append]
      omega
    rw [patch_inside _ _ (by omega), Nat.add_assoc, patch_inside m off hin, byteAt_append_right]
  · rw [patch_outside (by omega)]
    by_cases ha : off ≤ i ∧ i < off + a.length
    · obtain ⟨k, rfl⟩ := Nat.exists_eq_add_of_le ha.1
      have hin : k < (a ++ b).length := by
        rw [List.length_append]
        omega
      rw [patch_inside m off (by omega), patch_inside m off hin, byteAt_append_left (by omega)]
    · rw [patch_outside (by omega), patch_outside (by rw [List.length_append]; omega)]

/-- What is patched over a part of a patch takes its place. -/
theorem patch_replace (m : ℕ → UInt8) (off : ℕ) {a x y b : Bytes} (h : x.length = y.length) :
    patch (patch m off (a ++ (x ++ b))) (off + a.length) y = patch m off (a ++ (y ++ b)) := by
  have hsame : patch (patch (patch m off (a ++ x)) (off + (a ++ x).length) b) (off + a.length) y =
      patch (patch m off (a ++ y)) (off + (a ++ y).length) b := by
    funext i
    rw [← patch_append m off a x, ← patch_append m off a y, List.length_append, List.length_append,
      h]
    unfold patch
    split_ifs <;> first | rfl | omega
  rw [← List.append_assoc, ← List.append_assoc, ← patch_append, hsame, patch_append]

/-- `memmove(m + dst, m + src, n)`. -/
def memmove (m : ℕ → UInt8) (dst src n : ℕ) : ℕ → UInt8 := fun i =>
  if dst ≤ i ∧ i < dst + n then m (src + (i - dst)) else m i

theorem bytesAt_memmove (m : ℕ → UInt8) (dst src n : ℕ) :
    bytesAt (memmove m dst src n) dst n = bytesAt m src n := by
  apply List.ext_getElem
  · simp
  · intro i hi hi'
    have hin : i < n := by simpa using hi
    simp [bytesAt, memmove, hin]

theorem bytesAt_append (m : ℕ → UInt8) (p a b : ℕ) :
    bytesAt m p (a + b) = bytesAt m p a ++ bytesAt m (p + a) b := by
  unfold bytesAt
  rw [← List.map_append, List.range'_append_1]

/-- Neighbouring bytes are a slice of more bytes. -/
theorem bytesAt_infix (m : ℕ → UInt8) {p n len : ℕ} (h : p + n ≤ len) :
    bytesAt m p n <:+: bytesAt m 0 len := by
  refine ⟨bytesAt m 0 p, bytesAt m (p + n) (len - (p + n)), ?_⟩
  have hlen : len = p + (n + (len - (p + n))) := by omega
  conv_rhs => rw [hlen, bytesAt_append, bytesAt_append, Nat.zero_add]
  rw [List.append_assoc]

/-! ## What lies in memory -/

/-- The bytes `b` lie at `p`. -/
def LiesAt (m : ℕ → UInt8) (p : ℕ) (b : Bytes) : Prop := bytesAt m p b.length = b

section LiesAt

variable {m : ℕ → UInt8} {p : ℕ} {a b : Bytes}

theorem liesAt_append : LiesAt m p (a ++ b) ↔ LiesAt m p a ∧ LiesAt m (p + a.length) b := by
  unfold LiesAt
  rw [List.length_append, bytesAt_append]
  constructor
  · intro h
    exact List.append_inj h (bytesAt_length m p a.length)
  · rintro ⟨ha, hb⟩
    rw [ha, hb]

theorem LiesAt.byte (h : LiesAt m p b) {i : ℕ} (hi : i < b.length) : m (p + i) = byteAt b i := by
  calc m (p + i) = byteAt (bytesAt m p b.length) i := (byteAt_bytesAt m p hi).symm
    _ = byteAt b i := congrArg (byteAt · i) h

/-- A part of what lies in memory. -/
theorem LiesAt.slice (h : LiesAt m p b) {i n : ℕ} (hin : i + n ≤ b.length) :
    bytesAt m (p + i) n = (b.drop i).take n := by
  rw [← bytesAt_byteAt hin]
  apply List.ext_getElem
  · simp
  · intro j hj hj'
    have hjn : j < n := by simpa using hj
    have hbyte := h.byte (i := i + j) (by omega)
    simpa [bytesAt, Nat.add_assoc] using hbyte

/-- A word that lies in memory is read. -/
theorem LiesAt.le16 {x : UInt16} (h : LiesAt m p (toLe16 x)) : le16At m p = x := by
  have hbyte := fun i (hi : i < 2) => h.byte (i := i) hi
  exact le16At_eq (hbyte 0 (by omega)) (hbyte 1 (by omega))

theorem LiesAt.le32 {x : UInt32} (h : LiesAt m p (toLe32 x)) : le32At m p = x := by
  have hbyte := fun i (hi : i < 4) => h.byte (i := i) hi
  exact le32At_eq (hbyte 0 (by omega)) (hbyte 1 (by omega)) (hbyte 2 (by omega))
    (hbyte 3 (by omega))

end LiesAt

end IotcDemos
