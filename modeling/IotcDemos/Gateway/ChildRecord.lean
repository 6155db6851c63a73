import IotcDemos.Gateway.Main
import IotcDemos.Lib.Json

set_option autoImplicit false

/-! # Child records (`demos/gateway/src/main.c`)

`buildChildRecord` wraps a line from a UART link as the record of a child device. The line is an
envelope `{"d":[{"d":{...}}]}` or a bare object; the record holds the object unchanged, under an
identifier that comes from the object's own `board` member (`childIdFromBoard`) or else from the
link. cJSON's parser and printer and the clock are parameters.

The unsigned bound of `childIdFromBoard` does not wrap for a buffer of three bytes or more, and
the identifier with its terminator then fits the buffer (`childIdFromBoard_fits`).
-/

namespace IotcDemos

/-! ## The identifier -/

def isLetterOrDigit (c : UInt8) : Bool :=
  (97 ≤ c && c ≤ 122) || (65 ≤ c && c ≤ 90) || (48 ≤ c && c ≤ 57)

/-- The loop over the board's name; `out` holds the characters stored so far. -/
def childIdLoop (outSize : UInt32) : Bytes → Bytes → Bytes
  | [], out => out
  | c :: board, out =>
      -- the bound is checked before each character, kept or not
      if out.length < (outSize - 3).toNat then
        childIdLoop outSize board (if isLetterOrDigit c then out ++ [c] else out)
      else out

/-- The loop keeps the letters and digits, up to its bound. -/
theorem childIdLoop_eq (outSize : UInt32) (board out : Bytes)
    (hout : out.length ≤ (outSize - 3).toNat) :
    childIdLoop outSize board out
      = out ++ (board.filter isLetterOrDigit).take ((outSize - 3).toNat - out.length) := by
  induction board generalizing out with
  | nil => rw [childIdLoop, List.filter_nil, List.take_nil, List.append_nil]
  | cons c board ih =>
    rw [childIdLoop]
    by_cases hroom : out.length < (outSize - 3).toNat
    · rw [if_pos hroom]
      by_cases hc : isLetterOrDigit c = true
      · rw [if_pos hc, List.filter_cons_of_pos hc, ih]
        · -- there is room for one more
          obtain ⟨k, hk⟩ : ∃ k, (outSize - 3).toNat - out.length = k + 1 :=
            ⟨_, (Nat.sub_one_add_one (by omega)).symm⟩
          have hk' : (outSize - 3).toNat - (out ++ [c]).length = k := by
            rw [List.length_append, List.length_singleton]
            omega
          rw [hk, hk', List.take_succ_cons, List.append_assoc, List.singleton_append]
        · rw [List.length_append, List.length_singleton]
          exact hroom
      · rw [if_neg hc, List.filter_cons_of_neg hc, ih out hout]
    · rw [if_neg hroom, Nat.sub_eq_zero_of_le (Nat.le_of_not_lt hroom), List.take_zero,
        List.append_nil]

/-- The characters of an identifier. -/
def childIdBytes (outSize : UInt32) (board : Bytes) : Bytes :=
  childIdLoop outSize board [] ++ ascii "01"

theorem childIdBytes_eq (outSize : UInt32) (board : Bytes) :
    childIdBytes outSize board
      = (board.filter isLetterOrDigit).take (outSize - 3).toNat ++ ascii "01" := by
  rw [childIdBytes, childIdLoop_eq outSize board [] (Nat.zero_le _), List.nil_append,
    List.length_nil, Nat.sub_zero]

theorem childIdBytes_noNul (outSize : UInt32) (board : Bytes) :
    0 ∉ childIdBytes outSize board := by
  rw [childIdBytes_eq, List.mem_append, not_or]
  constructor
  · intro hmem
    have hkept := (List.mem_filter.mp (List.mem_of_mem_take hmem)).2
    exact absurd hkept (by decide)
  · decide

/-- `child_id_from_board` -/
def childIdFromBoard (board : CStr) (outSize : UInt32) : CStr :=
  ⟨childIdBytes outSize board.bytes, childIdBytes_noNul outSize board.bytes⟩

theorem childIdFromBoard_fits (board : CStr) {outSize : UInt32} (h : 3 ≤ outSize.toNat) :
    (childIdFromBoard board outSize).bytes.length + 1 ≤ outSize.toNat := by
  have hsub : (outSize - 3).toNat = outSize.toNat - 3 := by
    apply UInt32.toNat_sub_of_le
    exact h
  calc (childIdFromBoard board outSize).bytes.length + 1
      = ((board.bytes.filter isLetterOrDigit).take (outSize - 3).toNat).length + 2 + 1 := by
        show (childIdBytes outSize board.bytes).length + 1 = _
        rw [childIdBytes_eq, List.length_append]
        rfl
    _ ≤ (outSize - 3).toNat + 2 + 1 := by
        have := List.length_take_le (outSize - 3).toNat (board.bytes.filter isLetterOrDigit)
        omega
    _ ≤ outSize.toNat := by omega

example : childIdBytes 48 (ascii "frdm_mcxe31b") = ascii "frdmmcxe31b01" := by decide

/-! ## The record -/

def keyD : CStr := ⟨ascii "d", by decide⟩

def keyBoard : CStr := ⟨ascii "board", by decide⟩

def keyId : CStr := ⟨ascii "id", by decide⟩

def keyTg : CStr := ⟨ascii "tg", by decide⟩

def keyDt : CStr := ⟨ascii "dt", by decide⟩

/-- An entry of `link_map`. -/
structure LinkEntry where
  childId : CStr
  tag : CStr

/-- `cJSON_Parse` and `cJSON_PrintUnformatted` -/
structure CJson (N : Type) where
  parse : Bytes → Option (Json N)
  printUnformatted : Json N → Bytes

variable {N : Type}

/-- The data object in the member `d` of an envelope, detached from the array's first element. -/
def innerData (arr : Json N) : Option (Json N) :=
  -- an array with at least one element, whose member `d` is an object
  if arr.isArray ∧ 0 < arr.getArraySize then
    match arr.getArrayItem 0 with
    | some item0 =>
        match item0.getObjectItem keyD with
        | some inner => if inner.isObject then (item0.detachItem keyD).map Prod.fst else none
        | none => none
    | none => none
  else none

/-- The inner data object of a source tree, or the whole of a bare object. -/
def locateData (src : Json N) : Option (Json N) :=
  if src.isObject then
    match src.getObjectItem keyD with
    | some arr => innerData arr
    | none => some src
  else none

/-- `sizeof(derived_id)` -/
def derivedIdSize : UInt32 := 48

/-- The `id` of the record of a link's data. -/
def childIdOf (link : LinkEntry) (data : Json N) : CStr :=
  match (data.getObjectItem keyBoard).bind Json.getStringValue with
  | some board =>
      -- an empty name counts as none
      if board.bytes ≠ [] then childIdFromBoard board derivedIdSize else link.childId
  | none => link.childId

/-- The record's tree; `ts` is the time stamp, if there is one. -/
def childTree (link : LinkEntry) (ts : Option CStr) (data : Json N) : Json N :=
  let item := (Json.obj []).addString keyId (childIdOf link data)
  let item := if link.tag.bytes ≠ [] then item.addString keyTg link.tag else item
  let item :=
    match ts with
    | some ts => item.addString keyDt ts
    | none => item
  let item := item.addItem keyD data
  (Json.obj []).addItem keyD (.arr [item])

/-- `build_child_record`; `isoTimestampNow` is what `iotcl_iso_timestamp_now` stores, if it
returns 0. -/
def buildChildRecord (cjson : CJson N) (linkMap : Fin ingestMaxLinks → LinkEntry)
    (isoTimestampNow : Option CStr) (link : Fin ingestMaxLinks) (srcJson : Bytes) :
    Option Bytes :=
  match cjson.parse srcJson with
  | none => none
  | some src =>
      match locateData src with
      | none => none
      | some data =>
          some (cjson.printUnformatted (childTree (linkMap link) isoTimestampNow data))

/-! ## What is wrapped -/

/-- A member `d` as an envelope has it: an array whose first element holds a data object. -/
def Envelope (v : Json N) (inner : List (CStr × Json N)) : Prop :=
  ∃ item0 rest, v = .arr (item0 :: rest) ∧ item0.getObjectItem keyD = some (.obj inner)

theorem innerData_envelope {v : Json N} {inner : List (CStr × Json N)} (hv : Envelope v inner) :
    innerData v = some (.obj inner) := by
  obtain ⟨item0, rest, rfl, hinner⟩ := hv
  rw [innerData, if_pos (Json.nonempty_array_iff.mpr ⟨item0, rest, rfl⟩)]
  calc (match item0.getObjectItem keyD with
        | some inner => if inner.isObject then (item0.detachItem keyD).map Prod.fst else none
        | none => none)
      = (item0.detachItem keyD).map Prod.fst := by
        rw [hinner]
        rfl
    _ = some (.obj inner) := by rw [Json.detachItem_fst, hinner]

/-- A member `d` of another shape has no data. -/
theorem innerData_malformed {v : Json N} (hv : ¬ ∃ inner, Envelope v inner) :
    innerData v = none := by
  rw [innerData]
  by_cases hshape : v.isArray = true ∧ 0 < v.getArraySize
  · obtain ⟨item0, rest, rfl⟩ := Json.nonempty_array_iff.mp hshape
    rw [if_pos hshape]
    show (match item0.getObjectItem keyD with
      | some inner => if inner.isObject then (item0.detachItem keyD).map Prod.fst else none
      | none => none) = none
    cases hitem : item0.getObjectItem keyD with
    | none => rfl
    | some inner =>
      apply if_neg
      intro hobj
      obtain ⟨members, rfl⟩ := Json.isObject_iff.mp hobj
      exact hv ⟨members, item0, rest, rfl, hitem⟩
  · rw [if_neg hshape]

theorem locateData_bare {ms : List (CStr × Json N)}
    (h : (Json.obj ms).getObjectItem keyD = none) : locateData (.obj ms) = some (.obj ms) := by
  simp only [locateData, h]
  rfl

theorem locateData_member {ms : List (CStr × Json N)} {v : Json N}
    (h : (Json.obj ms).getObjectItem keyD = some v) : locateData (.obj ms) = innerData v := by
  simp only [locateData, h]
  rfl

theorem locateData_other {src : Json N} (h : ∀ ms, src ≠ .obj ms) : locateData src = none := by
  apply if_neg
  intro hobj
  obtain ⟨ms, rfl⟩ := Json.isObject_iff.mp hobj
  exact h ms rfl

/-- A tree has no data exactly when it is no object, or its member `d` is not an envelope's. -/
theorem locateData_none_iff {src : Json N} : locateData src = none ↔ (∀ ms, src ≠ .obj ms) ∨
    ∃ ms v, src = .obj ms ∧ (Json.obj ms).getObjectItem keyD = some v
      ∧ ¬ ∃ inner, Envelope v inner := by
  constructor
  · intro hnone
    by_cases hobj : ∃ ms, src = .obj ms
    · obtain ⟨ms, rfl⟩ := hobj
      right
      cases hd : (Json.obj ms).getObjectItem keyD with
      | none =>
        rw [locateData_bare hd] at hnone
        cases hnone
      | some v =>
        refine ⟨ms, v, rfl, hd, ?_⟩
        intro ⟨inner, hv⟩
        rw [locateData_member hd, innerData_envelope hv] at hnone
        cases hnone
    · left
      exact fun ms heq => hobj ⟨ms, heq⟩
  · rintro (hother | ⟨ms, v, rfl, hd, hv⟩)
    · exact locateData_other hother
    · rw [locateData_member hd]
      exact innerData_malformed hv

/-- A line gives no record exactly when it has no tree, or its tree has no data. -/
theorem buildChildRecord_none_iff (cjson : CJson N) (linkMap : Fin ingestMaxLinks → LinkEntry)
    (ts : Option CStr) (link : Fin ingestMaxLinks) (line : Bytes) :
    buildChildRecord cjson linkMap ts link line = none
      ↔ ∀ src, cjson.parse line = some src → locateData src = none := by
  rw [buildChildRecord]
  cases cjson.parse line with
  | none => simp
  | some src => cases hdata : locateData src <;> simp [hdata]

/-- The members before the data: the identifier, then the tag and the time stamp if any. -/
def stamps (link : LinkEntry) (ts : Option CStr) : List (CStr × Json N) :=
  (if link.tag.bytes = [] then [] else [(keyTg, .str link.tag)])
    ++ ts.toList.map fun s => (keyDt, .str s)

theorem childTree_eq (link : LinkEntry) (ts : Option CStr) (data : Json N) :
    childTree link ts data = .obj [(keyD, .arr [.obj ((keyId, .str (childIdOf link data))
      :: (stamps link ts ++ [(keyD, data)]))])] := by
  by_cases htag : link.tag.bytes = [] <;> cases ts <;> simp [childTree, stamps, htag]

/-- The identifier comes from a `board` member that is a string and not empty. -/
theorem childIdOf_board {link : LinkEntry} {data : Json N} {board : CStr}
    (h : data.getObjectItem keyBoard = some (.str board)) (hne : board.bytes ≠ []) :
    childIdOf link data = childIdFromBoard board derivedIdSize := by
  simp only [childIdOf, h, Option.bind_some, Json.getStringValue]
  exact if_pos hne

theorem childIdOf_default {link : LinkEntry} {data : Json N}
    (h : ¬ ∃ board : CStr, data.getObjectItem keyBoard = some (.str board) ∧ board.bytes ≠ []) :
    childIdOf link data = link.childId := by
  rw [childIdOf]
  cases hitem : data.getObjectItem keyBoard with
  | none => rfl
  | some v =>
    cases v with
    | str board =>
      apply if_neg
      intro hne
      exact h ⟨board, hitem, hne⟩
    | _ => rfl

/-- Wrapping keeps the data. A line gives no record exactly when it is not a JSON object, or has
a member `d` that is not an envelope's. Otherwise the record's tree is `{"d":[{"id":..}]}` with
the optional tag and time stamp and, as its last member, the data object: the inner one of the
envelope or the whole bare object, with its members as they were. The identifier is the link's,
or it is made of the first 45 letters and digits of `board` and fits the buffer. -/
theorem child_wrapping_preserves (cjson : CJson N) (linkMap : Fin ingestMaxLinks → LinkEntry)
    (ts : Option CStr) (link : Fin ingestMaxLinks) (line : Bytes) :
    (buildChildRecord cjson linkMap ts link line = none ↔
        (∀ ms, cjson.parse line ≠ some (.obj ms)) ∨
        ∃ ms v, cjson.parse line = some (.obj ms) ∧ (Json.obj ms).getObjectItem keyD = some v
          ∧ ¬ ∃ inner, Envelope v inner)
      ∧ ∀ ms data, cjson.parse line = some (.obj ms) →
          ((Json.obj ms).getObjectItem keyD = none ∧ data = ms
            ∨ ∃ v, (Json.obj ms).getObjectItem keyD = some v ∧ Envelope v data) →
          ∃ childId : CStr,
            buildChildRecord cjson linkMap ts link line = some (cjson.printUnformatted
              (.obj [(keyD, .arr [.obj ((keyId, .str childId)
                :: (if (linkMap link).tag.bytes = [] then []
                    else [(keyTg, .str (linkMap link).tag)])
                ++ (ts.toList.map fun s => (keyDt, .str s))
                ++ [(keyD, .obj data)])])]))
            ∧ ((¬ ∃ board : CStr, (Json.obj data).getObjectItem keyBoard = some (.str board)
                  ∧ board.bytes ≠ []) → childId = (linkMap link).childId)
            ∧ ∀ board : CStr, (Json.obj data).getObjectItem keyBoard = some (.str board) →
                board.bytes ≠ [] →
                childId.bytes = (board.bytes.filter isLetterOrDigit).take 45 ++ ascii "01"
                  ∧ childId.bytes.length + 1 ≤ 48 := by
  constructor
  · rw [buildChildRecord_none_iff]
    cases hparse : cjson.parse line with
    | none => simp
    | some src =>
      simp only [Option.some.injEq, forall_eq', ne_eq]
      exact locateData_none_iff
  · intro ms data hparse hform
    have hdata : locateData (.obj ms) = some (.obj data) := by
      rcases hform with ⟨hd, rfl⟩ | ⟨v, hd, hv⟩
      · exact locateData_bare hd
      · rw [locateData_member hd]
        exact innerData_envelope hv
    refine ⟨childIdOf (linkMap link) (.obj data), ?_, childIdOf_default, ?_⟩
    · simp only [buildChildRecord, hparse, hdata, childTree_eq, stamps, List.cons_append,
        List.append_assoc]
    · intro board hboard hne
      rw [childIdOf_board hboard hne]
      exact ⟨childIdBytes_eq derivedIdSize board.bytes, childIdFromBoard_fits board (by decide)⟩

end IotcDemos
