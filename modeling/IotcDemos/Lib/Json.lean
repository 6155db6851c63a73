import IotcDemos.Lib.Bytes

set_option autoImplicit false

/-! # JSON trees over C strings

Trees as a C parser builds them: strings and member names are C strings, the members of an
object keep their order, and a name may occur twice. `getObjectItem` finds the first member whose
name is the given one up to the case of ASCII letters; on a tree that is not an object it finds
nothing. `detachItem` takes out the member that `getObjectItem` finds (`detachItem_fst`). Numbers
are of any type `N`.
-/

namespace IotcDemos

/-- A C string: the bytes before the terminator. -/
structure CStr where
  bytes : Bytes
  noNul : 0 ∉ bytes
  deriving DecidableEq

inductive Json (N : Type) where
  | null
  | bool (b : Bool)
  | num (n : N)
  | str (s : CStr)
  | arr (elems : List (Json N))
  | obj (members : List (CStr × Json N))

/-- The byte in lower case. -/
def lowerByte (c : UInt8) : UInt8 := if 65 ≤ c ∧ c ≤ 90 then c + 32 else c

/-- The names are equal up to the case of ASCII letters. -/
def CStr.sameName (a b : CStr) : Bool := a.bytes.map lowerByte == b.bytes.map lowerByte

namespace Json

variable {N : Type}

/-- The first member of the name, and the members without it. -/
def takeMember (name : CStr) :
    List (CStr × Json N) → Option (Json N × List (CStr × Json N))
  | [] => none
  | (key, v) :: ms =>
      if name.sameName key then some (v, ms)
      else (takeMember name ms).map fun (w, rest) => (w, (key, v) :: rest)

def findMember (name : CStr) : List (CStr × Json N) → Option (Json N)
  | [] => none
  | (key, v) :: ms => if name.sameName key then some v else findMember name ms

/-- `cJSON_GetObjectItem` -/
def getObjectItem (name : CStr) : Json N → Option (Json N)
  | obj ms => findMember name ms
  | _ => none

/-- `cJSON_DetachItemFromObject`: the item, and the object that is left. -/
def detachItem (name : CStr) : Json N → Option (Json N × Json N)
  | obj ms => (takeMember name ms).map fun (v, rest) => (v, obj rest)
  | _ => none

def isObject : Json N → Bool
  | obj _ => true
  | _ => false

def isArray : Json N → Bool
  | arr _ => true
  | _ => false

/-- `cJSON_GetArraySize`: the number of children. -/
def getArraySize : Json N → ℕ
  | arr elems => elems.length
  | obj ms => ms.length
  | _ => 0

/-- `cJSON_GetArrayItem`: the child at an index. -/
def getArrayItem (i : ℕ) : Json N → Option (Json N)
  | arr elems => elems[i]?
  | obj ms => ms[i]?.map Prod.snd
  | _ => none

def getStringValue : Json N → Option CStr
  | str s => some s
  | _ => none

/-- `cJSON_AddItemToObject`: the item becomes the last member. -/
def addItem (j : Json N) (name : CStr) (item : Json N) : Json N :=
  match j with
  | obj ms => obj (ms ++ [(name, item)])
  | j => j

def addString (j : Json N) (name s : CStr) : Json N := j.addItem name (str s)

@[simp] theorem addItem_obj (name : CStr) (item : Json N) (ms : List (CStr × Json N)) :
    (obj ms).addItem name item = obj (ms ++ [(name, item)]) := rfl

@[simp] theorem addString_obj (name s : CStr) (ms : List (CStr × Json N)) :
    (obj ms).addString name s = obj (ms ++ [(name, str s)]) := rfl

theorem isObject_iff {j : Json N} : j.isObject = true ↔ ∃ ms, j = obj ms := by
  cases j <;> simp [isObject]

/-- What is found in an array's place: nothing, or an array with a first element. -/
theorem nonempty_array_iff {j : Json N} :
    (j.isArray = true ∧ 0 < j.getArraySize) ↔ ∃ item rest, j = arr (item :: rest) := by
  cases j with
  | arr elems => cases elems <;> simp [isArray, getArraySize]
  | _ => simp [isArray]

theorem takeMember_fst (name : CStr) (ms : List (CStr × Json N)) :
    (takeMember name ms).map Prod.fst = findMember name ms := by
  induction ms with
  | nil => rfl
  | cons m ms ih =>
    obtain ⟨key, v⟩ := m
    rw [takeMember, findMember]
    split
    · rfl
    · rw [Option.map_map, ← ih]
      rfl

/-- The detached item is the one that is found. -/
theorem detachItem_fst (name : CStr) (j : Json N) :
    (j.detachItem name).map Prod.fst = j.getObjectItem name := by
  cases j with
  | obj ms =>
    rw [detachItem, getObjectItem, Option.map_map, ← takeMember_fst]
    rfl
  | _ => rfl

end Json

end IotcDemos
