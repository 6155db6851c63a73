import IotcDemos.Lib.Bytes

set_option autoImplicit false

/-! # Byte queues of bounded capacity

`ByteRing cap` is a first-in first-out queue of at most `cap` bytes. `put` and `get` move as
many bytes as there is room for, or as there are. `frame b` is the record of `b` in such a
queue: a 16-bit length and the bytes; a queue that is a concatenation of records gives them back
one by one (`frame_len`, `frame_body`, `frame_rest`), or all of them (`unframe_frames`).
-/

namespace IotcDemos

structure ByteRing (cap : ℕ) where
  bytes : Bytes
  fits : bytes.length ≤ cap

namespace ByteRing

variable {cap : ℕ}

def empty : ByteRing cap := ⟨[], Nat.zero_le _⟩

def size (r : ByteRing cap) : ℕ := r.bytes.length

def space (r : ByteRing cap) : ℕ := cap - r.bytes.length

/-- Append as many of the bytes as there is room for; the number of bytes appended. -/
def put (data : Bytes) (r : ByteRing cap) : ℕ × ByteRing cap :=
  (min data.length r.space, ⟨r.bytes ++ data.take r.space, by
    have hfits := r.fits
    rw [List.length_append, List.length_take, space]
    omega⟩)

/-- Take the first `n` bytes, or as many as there are. -/
def get (n : ℕ) (r : ByteRing cap) : Bytes × ByteRing cap :=
  (r.bytes.take n, ⟨r.bytes.drop n, by
    have hfits := r.fits
    rw [List.length_drop]
    omega⟩)

theorem ext_bytes {r r' : ByteRing cap} (h : r.bytes = r'.bytes) : r = r' := by
  cases r
  cases r'
  congr

/-- What fits is appended whole. -/
theorem put_bytes {data : Bytes} {r : ByteRing cap} (h : data.length ≤ r.space) :
    (r.put data).2.bytes = r.bytes ++ data := by
  show r.bytes ++ data.take r.space = _
  rw [List.take_of_length_le h]

@[simp] theorem get_bytes (n : ℕ) (r : ByteRing cap) : (r.get n).2.bytes = r.bytes.drop n := rfl

@[simp] theorem get_data (n : ℕ) (r : ByteRing cap) : (r.get n).1 = r.bytes.take n := rfl

/-! ## Records -/

/-- The record of `b`: its length in 16 bits, and `b`. -/
def frame (b : Bytes) : Bytes := toLe16 (UInt16.ofNat b.length) ++ b

@[simp] theorem frame_length (b : Bytes) : (frame b).length = 2 + b.length := by
  rw [frame, List.length_append, toLe16_length]

/-- The length field of the first record. -/
theorem frame_len {b rest : Bytes} (hb : b.length < 2 ^ 16) :
    (le16At (byteAt ((frame b ++ rest).take 2)) 0).toNat = b.length := by
  have htake : (frame b ++ rest).take 2 = toLe16 (UInt16.ofNat b.length) := by
    rw [frame, List.append_assoc, List.take_left']
    rfl
  have hval : le16At (byteAt (toLe16 (UInt16.ofNat b.length))) 0 = UInt16.ofNat b.length :=
    le16At_eq rfl rfl
  rw [htake, hval, UInt16.toNat_ofNat', Nat.mod_eq_of_lt hb]

theorem frame_body (b rest : Bytes) : ((frame b ++ rest).drop 2).take b.length = b := by
  rw [frame, List.append_assoc, List.drop_left' (toLe16_length _), List.take_left]

theorem frame_rest (b rest : Bytes) : ((frame b ++ rest).drop 2).drop b.length = rest := by
  rw [frame, List.append_assoc, List.drop_left' (toLe16_length _), List.drop_left]

/-- The first `n` records that the bytes begin with. -/
def unframe : (n : ℕ) → Bytes → List Bytes
  | 0, _ => []
  | n + 1, b =>
      if b.length < 2 then []
      else
        let len := (le16At (byteAt (b.take 2)) 0).toNat
        (b.drop 2).take len :: unframe n ((b.drop 2).drop len)

theorem unframe_frames {queue : List Bytes} {n : ℕ} (hn : queue.length ≤ n)
    (hlen : ∀ b ∈ queue, b.length < 2 ^ 16) : unframe n (queue.flatMap frame) = queue := by
  induction queue generalizing n with
  | nil => cases n <;> rfl
  | cons b queue ih =>
      cases n with
      | zero => cases hn
      | succ n =>
          have hb := hlen b List.mem_cons_self
          have hsize : ¬ (frame b ++ queue.flatMap frame).length < 2 := by
            rw [List.length_append, frame_length]
            omega
          rw [List.flatMap_cons, unframe, if_neg hsize, frame_len hb]
          dsimp only
          rw [frame_body, frame_rest, ih (Nat.le_of_succ_le_succ hn)
            fun x hx => hlen x (List.mem_cons_of_mem _ hx)]

theorem frames_length_le (queue : List Bytes) : queue.length ≤ (queue.flatMap frame).length := by
  induction queue with
  | nil => exact Nat.le_refl _
  | cons b queue ih =>
      rw [List.flatMap_cons, List.length_append, frame_length, List.length_cons]
      omega

end ByteRing

end IotcDemos
