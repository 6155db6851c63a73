import IotcDemos.Lib.Bytes

set_option autoImplicit false

/-! # Base64

`encode` writes three bytes as four characters, with padding at the end. `decode` reads such texts
back, and no other ones.
-/

namespace IotcDemos.Base64

def alphabet : List Char :=
  "ABCDEFGHIJKLMNOPQRSTUVWXYZabcdefghijklmnopqrstuvwxyz0123456789+/".toList

def sextet (n : ℕ) : Char := alphabet.getD n '='

def encode : Bytes → List Char
  | a :: b :: c :: rest =>
      let n := a.toNat * 65536 + b.toNat * 256 + c.toNat
      sextet (n / 262144) :: sextet (n / 4096 % 64) :: sextet (n / 64 % 64) :: sextet (n % 64) ::
        encode rest
  | [a, b] =>
      let n := a.toNat * 1024 + b.toNat * 4
      [sextet (n / 4096), sextet (n / 64 % 64), sextet (n % 64), '=']
  | [a] =>
      let n := a.toNat * 16
      [sextet (n / 64), sextet (n % 64), '=', '=']
  | [] => []

def value (c : Char) : Option ℕ := alphabet.idxOf? c

/-- The bytes of the last four characters. -/
def decodeLast (c0 c1 c2 : Char) : Option Bytes :=
  (value c0).bind fun v0 => (value c1).bind fun v1 =>
    if c2 = '=' then some [UInt8.ofNat ((v0 * 64 + v1) / 16)]
    else (value c2).map fun v2 =>
      let n := v0 * 4096 + v1 * 64 + v2
      [UInt8.ofNat (n / 1024), UInt8.ofNat (n / 4 % 256)]

def decode : List Char → Option Bytes
  | c0 :: c1 :: c2 :: c3 :: rest =>
      if c3 = '=' then if rest = [] then decodeLast c0 c1 c2 else none
      else (value c0).bind fun v0 => (value c1).bind fun v1 => (value c2).bind fun v2 =>
        (value c3).bind fun v3 =>
          let n := v0 * 262144 + v1 * 4096 + v2 * 64 + v3
          (decode rest).map fun bytes =>
            UInt8.ofNat (n / 65536) :: UInt8.ofNat (n / 256 % 256) :: UInt8.ofNat (n % 256) :: bytes
  | [] => some []
  | _ => none

/-! ## The round trip -/

theorem value_sextet {n : ℕ} (hn : n < 64) : value (sextet n) = some n := by
  have hall : ∀ n < 64, value (sextet n) = some n := by decide
  exact hall n hn

theorem sextet_mem {n : ℕ} (hn : n < 64) : sextet n ∈ alphabet := by
  have hall : ∀ n < 64, sextet n ∈ alphabet := by decide
  exact hall n hn

theorem sextet_ne {n : ℕ} (hn : n < 64) : sextet n ≠ '=' := by
  have hpad : '=' ∉ alphabet := by decide
  exact fun h => hpad (h ▸ sextet_mem hn)

/-- **What is encoded decodes.** -/
theorem decode_encode (data : Bytes) : decode (encode data) = some data := by
  fun_induction encode data with
  | case1 a b c rest n ih =>
      have ha := a.toNat_lt
      have hb := b.toNat_lt
      have hc := c.toNat_lt
      -- the four sextets make up the 24 bits again
      have hn : n / 262144 * 262144 + n / 4096 % 64 * 4096 + n / 64 % 64 * 64 + n % 64 = n := by
        omega
      rw [decode, if_neg (sextet_ne (by omega)), value_sextet (by omega), value_sextet (by omega),
        value_sextet (by omega), value_sextet (by omega), ih]
      simp only [Option.bind_some, Option.map_some, hn]
      have h0 : n / 65536 = a.toNat := by omega
      have h1 : n / 256 % 256 = b.toNat := by omega
      have h2 : n % 256 = c.toNat := by omega
      rw [h0, h1, h2, UInt8.ofNat_toNat, UInt8.ofNat_toNat, UInt8.ofNat_toNat]
  | case2 a b n =>
      have ha := a.toNat_lt
      have hb := b.toNat_lt
      have hn : n / 4096 * 4096 + n / 64 % 64 * 64 + n % 64 = n := by omega
      -- the third character is no padding
      have hne : sextet (n % 64) ≠ '=' := sextet_ne (by omega)
      rw [decode, if_pos rfl, if_pos rfl, decodeLast, value_sextet (by omega),
        value_sextet (by omega), value_sextet (by omega)]
      simp only [Option.bind_some, Option.map_some, if_neg hne, hn]
      have h0 : n / 1024 = a.toNat := by omega
      have h1 : n / 4 % 256 = b.toNat := by omega
      rw [h0, h1, UInt8.ofNat_toNat, UInt8.ofNat_toNat]
  | case3 a n =>
      have ha := a.toNat_lt
      have hn : n / 64 * 64 + n % 64 = n := by omega
      rw [decode, if_pos rfl, if_pos rfl, decodeLast, value_sextet (by omega),
        value_sextet (by omega)]
      simp only [Option.bind_some, if_true, hn]
      have h0 : n / 16 = a.toNat := by omega
      rw [h0, UInt8.ofNat_toNat]
  | case4 => rfl

theorem encode_length (data : Bytes) : (encode data).length = (data.length + 2) / 3 * 4 := by
  fun_induction encode data with
  | case1 a b c rest n ih =>
      simp only [List.length_cons, ih]
      omega
  | case2 a b n => simp only [List.length_cons, List.length_nil]
  | case3 a n => simp only [List.length_cons, List.length_nil]
  | case4 => rfl

end IotcDemos.Base64
