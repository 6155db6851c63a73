import IotcDemos.Lib.Bytes

set_option autoImplicit false

/-! # Numbers and words in C strings

C strings are their bytes without the terminator. `atoi` and `atof` read a number at the start of a
string and stop where it ends; `atof` gives its exact value.
-/

namespace IotcDemos

def tolower (c : UInt8) : UInt8 := if 65 ≤ c ∧ c ≤ 90 then c + 32 else c

/-- `strpbrk(s, accept) ?: ""`. -/
def strpbrk (s accept : Bytes) : Bytes := s.dropWhile fun c => c ∉ accept

/-- `atoi`; the callers refuse what does not fit an `int`. -/
def atoi (s : Bytes) : ℤ :=
  let digits := fun ds : Bytes =>
    (ds.takeWhile fun c => 48 ≤ c ∧ c ≤ 57).foldl (fun v c => 10 * v + ((c.toNat : ℤ) - 48)) 0
  match s.dropWhile fun c => c = 32 ∨ (9 ≤ c ∧ c ≤ 13) with
  | 45 :: ds => -digits ds
  | 43 :: ds => digits ds
  | ds => digits ds

/-! ## Floating point numbers -/

/-- The value of a digit; other bytes have one that no base allows. -/
def digitValue (c : UInt8) : ℕ :=
  if 48 ≤ c ∧ c ≤ 57 then c.toNat - 48
  else if 97 ≤ tolower c ∧ tolower c ≤ 122 then (tolower c).toNat - 87
  else 36

def digitsOf (base : ℕ) (s : Bytes) : Bytes := s.takeWhile fun c => digitValue c < base

def digitsValue (base : ℕ) (ds : Bytes) : ℕ := ds.foldl (fun v c => base * v + digitValue c) 0

/-- The digits at the start, with those behind a point, and what follows them. -/
def scanMantissa (base : ℕ) (s : Bytes) : ℚ × Bytes :=
  let int := digitsOf base s
  match s.drop int.length with
  | 46 :: rest =>
      let frac := digitsOf base rest
      ((digitsValue base (int ++ frac) : ℚ) / base ^ frac.length, rest.drop frac.length)
  | rest => (digitsValue base int, rest)

/-- The exponent behind `mark`, if there is one. -/
def scanExponent (mark : UInt8) (s : Bytes) : ℤ :=
  match s with
  | [] => 0
  | c :: rest =>
      if tolower c ≠ mark then 0
      else
        match rest with
        | 45 :: ds => -(digitsValue 10 (digitsOf 10 ds) : ℤ)
        | 43 :: ds => digitsValue 10 (digitsOf 10 ds)
        | ds => digitsValue 10 (digitsOf 10 ds)

/-- Behind a leading `0` there is a hexadecimal number. -/
def isHexTail : Bytes → Bool
  | x :: 46 :: c :: _ => tolower x = 120 && digitValue c < 16
  | x :: c :: _ => tolower x = 120 && digitValue c < 16
  | _ => false

/-- `atof`, on a string that is empty or begins with a digit. -/
def atof (s : Bytes) : ℚ :=
  if s.head? = some 48 ∧ isHexTail s.tail then
    let (m, rest) := scanMantissa 16 (s.drop 2)
    m * 2 ^ scanExponent (112 : UInt8) rest
  else
    let (m, rest) := scanMantissa 10 s
    m * 10 ^ scanExponent (101 : UInt8) rest

example : atof (ascii "0.35 g") = 7 / 20 := by decide +kernel

example : atof (ascii "2.5e-3") = 1 / 400 := by decide +kernel

example : atof (ascii "0x1.8p2") = 6 := by decide +kernel

end IotcDemos
