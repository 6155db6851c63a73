import IotcDemos.Lib.Excerpt
import IotcDemos.Lib.PyText
import IotcDemos.Vibration.Commands
import Mathlib.Data.Bool.AllAny

set_option autoImplicit false

/-! # Captures of the vibration demo

In capture mode the demo cycles through the motor states and prints a line for each reading
(`main.c`). `tss_convert.py` sorts the readings of a log into a file for each state. Floating-point
numbers have any type, and `fmt` is the conversion `%.4f`. A log is the console's text or an excerpt
of it.
-/

namespace IotcDemos.Vibration

/-! ## The firmware -/

/-- `STATE_MS`. -/
def stateMs : ℕ := 4000

def VibState.name : VibState → List Char
  | .idle => "idle".toList
  | .balanced => "balanced".toList
  | .unbalanced => "unbalanced".toList
  | .both => "both".toList

/-- `(t / STATE_MS) % ST_COUNT`. -/
def captureState (t : ℕ) : VibState :=
  match t / stateMs % 4 with
  | 0 => .idle
  | 1 => .balanced
  | 2 => .unbalanced
  | _ => .both

/-- The fields of a line that the tool keeps. -/
structure VibRow where
  state : List Char
  ax : List Char
  ay : List Char
  az : List Char
  deriving DecidableEq

/-- `"VIB,%lld,%s,%.4f,%.4f,%.4f"`. -/
def vibLine (t : List Char) (row : VibRow) : List Char :=
  "VIB".toList ++ [t, row.state, row.ax, row.ay, row.az].flatMap (',' :: ·)

def captureBanner : List (List Char) :=
  ["".toList, "=== eIQ PdM vibration capture (FXLS8974 + onboard motors) ===".toList,
    "Labeled motor-state cycle @~100 Hz. CSV: VIB,t_ms,state,ax,ay,az".toList, "".toList]

def headerRow : VibRow := ⟨"state".toList, "ax_g".toList, "ay_g".toList, "az_g".toList⟩

def captureHeader : List Char := vibLine "t_ms".toList headerRow

section Firmware

variable {G : Type} (fmt : G → List Char)

/-- A reading: the uptime, and what `read_accel` yields. -/
abbrev Tick (G : Type) : Type := ℕ × Option (G × G × G)

def rowOf (t : ℕ) (g : G × G × G) : VibRow :=
  ⟨(captureState t).name, fmt g.1, fmt g.2.1, fmt g.2.2⟩

/-- The lines that the main loop prints. -/
def captureLoop : (last : Option VibState) → List (Tick G) → List (List Char)
  | _, [] => []
  | last, (t, reading) :: ticks =>
      let st := captureState t
      -- a comment line when the state changes
      (if some st ≠ last then ["# state -> ".toList ++ st.name] else []) ++
        -- a reading that fails prints nothing
        (reading.map fun g => vibLine (Nat.toDigits 10 t) (rowOf fmt t g)).toList ++
          captureLoop (some st) ticks

/-- The readings, as they are printed. -/
def readings (ticks : List (Tick G)) : List VibRow :=
  ticks.filterMap fun (t, reading) => reading.map (rowOf fmt t)

/-- Lines on the console. -/
def consoleText (eol : List Char) (lines : List (List Char)) : List Char :=
  lines.flatMap (· ++ eol)

end Firmware

/-! ## The tool -/

/-- What the loop of `main` makes of a line. -/
def vibRow (line : List Char) : Option VibRow :=
  let line := strip isPySpace line
  if "VIB,".toList <+: line then
    match line.splitOnP (· == ',') with
    -- further fields are ignored
    | _ :: _ :: state :: ax :: ay :: az :: _ => some ⟨state, ax, ay, az⟩
    | _ => none
  else none

def vibRows (log : List Char) : List VibRow :=
  ((universalNewlines log).splitOnP (· == '\n')).filterMap vibRow

/-- `by_state[state].append(row)`. -/
def appendRow : List (List Char × List VibRow) → VibRow → List (List Char × List VibRow)
  | [], row => [(row.state, [row])]
  | (state, rows) :: files, row =>
      if state = row.state then (state, rows ++ [row]) :: files
      else (state, rows) :: appendRow files row

/-- `f"{ax} {ay} {az}\n"`. -/
def rowText (row : VibRow) : List Char := row.ax ++ ' ' :: row.ay ++ ' ' :: row.az ++ ['\n']

/-- The files, by name. The order in which they are written does not matter. -/
def tssConvert (log : List Char) : List (List Char × List Char) :=
  ((vibRows log).foldl appendRow []).map fun (state, rows) =>
    (state ++ ".csv".toList, rows.flatMap rowText)

/-! ## Reading a line -/

/-- What stands between the commas of a line. -/
def Plain (x : List Char) : Prop := ∀ c ∈ x, c ≠ ',' ∧ c ≠ 'V' ∧ isPySpace c = false

theorem splitOnP_fields {x : List Char} {fields : List (List Char)} (hx : ∀ c ∈ x, c ≠ ',')
    (hfields : ∀ y ∈ fields, ∀ c ∈ y, c ≠ ',') :
    (x ++ fields.flatMap (',' :: ·)).splitOnP (· == ',') = x :: fields := by
  have hwhole : x.splitOnP (· == ',') = [x] :=
    List.splitOnP_eq_singleton fun c hc => beq_false_of_ne (hx c hc)
  induction fields generalizing x with
  | nil => rwa [List.flatMap_nil, List.append_nil]
  | cons y fields ih =>
      have hy := hfields y List.mem_cons_self
      rw [List.flatMap_cons, List.cons_append,
        List.splitOnP_append_cons (p := (· == ',')) _ _ (beq_self_eq_true ','), hwhole,
        ih hy (fun z hz => hfields z (List.mem_cons_of_mem _ hz))
          (List.splitOnP_eq_singleton fun c hc => beq_false_of_ne (hy c hc))]
      rfl

/-- A row as `%lld`, `%s` and `%.4f` print it. -/
def VibRow.Plain (row : VibRow) : Prop :=
  Vibration.Plain row.state ∧ Vibration.Plain row.ax ∧ Vibration.Plain row.ay ∧
    Vibration.Plain row.az

theorem fields_plain {t : List Char} {row : VibRow} (ht : Plain t) (hrow : row.Plain) :
    ∀ y ∈ [t, row.state, row.ax, row.ay, row.az], Plain y := by
  obtain ⟨hstate, hax, hay, haz⟩ := hrow
  simp only [List.forall_mem_cons]
  exact ⟨ht, hstate, hax, hay, haz, nofun⟩

/-- Only the first character of a line is a `V`, and there is no white space in it. -/
theorem vibLine_chars {t : List Char} {row : VibRow} (ht : Plain t) (hrow : row.Plain) :
    ∃ rest, vibLine t row = 'V' :: rest ∧ ∀ c ∈ rest, c ≠ 'V' ∧ isPySpace c = false := by
  refine ⟨['I', 'B'] ++ [t, row.state, row.ax, row.ay, row.az].flatMap (',' :: ·), rfl, ?_⟩
  intro c hc
  rcases List.mem_append.mp hc with hc | hc
  · rcases List.mem_pair.mp hc with rfl | rfl
    · decide
    · decide
  · obtain ⟨y, hy, hc⟩ := List.mem_flatMap.mp hc
    rcases List.mem_cons.mp hc with rfl | hc
    · decide
    · exact (fields_plain ht hrow y hy c hc).2

theorem vibRow_fields {fields : List (List Char)} (h : ∀ y ∈ fields, Plain y) (hne : fields ≠ []) :
    vibRow ("VIB".toList ++ fields.flatMap (',' :: ·)) =
      match fields with
      | _ :: state :: ax :: ay :: az :: _ => some ⟨state, ax, ay, az⟩
      | _ => none := by
  -- there is nothing to strip
  have hspace : ∀ c ∈ "VIB".toList ++ fields.flatMap (',' :: ·), isPySpace c = false := by
    intro c hc
    rcases List.mem_append.mp hc with hc | hc
    · have hvib : ∀ d ∈ "VIB".toList, isPySpace d = false := List.all_iff_forall_prop.mp (by decide)
      exact hvib c hc
    · obtain ⟨y, hy, hc⟩ := List.mem_flatMap.mp hc
      rcases List.mem_cons.mp hc with rfl | hc
      · decide
      · exact (h y hy c hc).2.2
  have hstart : "VIB,".toList <+: "VIB".toList ++ fields.flatMap (',' :: ·) := by
    obtain ⟨y, ys, rfl⟩ := List.exists_cons_of_ne_nil hne
    exact ⟨y ++ ys.flatMap (',' :: ·), rfl⟩
  have hcomma : ∀ c ∈ "VIB".toList, c ≠ ',' := List.all_iff_forall_prop.mp (by decide)
  rw [vibRow, strip_eq_self hspace, if_pos hstart,
    splitOnP_fields hcomma fun y hy c hc => (h y hy c hc).1]
  rcases fields with - | ⟨t, - | ⟨state, - | ⟨ax, - | ⟨ay, - | ⟨az, rest⟩⟩⟩⟩⟩ <;> rfl

theorem vibRow_line {t : List Char} {row : VibRow} (ht : Plain t) (hrow : row.Plain) :
    vibRow (vibLine t row) = some row :=
  vibRow_fields (fields_plain ht hrow) (List.cons_ne_nil _ _)

/-- Where there is no `V`, there is no row. -/
theorem vibRow_none {x : List Char} (h : 'V' ∉ x) : vibRow x = none := by
  have hstart : ¬ "VIB,".toList <+: strip isPySpace x := by
    intro hpre
    have hmem : 'V' ∈ strip isPySpace x := hpre.subset (by decide)
    have hsub : (strip isPySpace x).Sublist x :=
      (List.rdropWhile_prefix _ _).sublist.trans (List.dropWhile_suffix _).sublist
    exact h (hsub.subset hmem)
  rw [vibRow, if_neg hstart]

/-! ## Reading a log -/

theorem vibRows_eq (log : List Char) : vibRows log = (log.splitOnP isLineEnd).filterMap vibRow := by
  obtain ⟨part, parts, parts', h, h', heq⟩ := universalNewlines_parts (f := vibRow) (by decide) log
  rw [vibRows, h, h', List.filterMap_cons, List.filterMap_cons, heq]

/-! ## The lines of a log -/

/-- A line of the log: a comment or a row. -/
def LogLine (l : List Char) : Prop :=
  ('V' ∉ l ∧ ∀ c ∈ l, isLineEnd c = false) ∨ ∃ t row, Plain t ∧ row.Plain ∧ l = vibLine t row

theorem LogLine.eol {l : List Char} (h : LogLine l) : ∀ c ∈ l, isLineEnd c = false := by
  rcases h with ⟨-, h⟩ | ⟨t, row, ht, hrow, rfl⟩
  · exact h
  · obtain ⟨rest, hline, hchars⟩ := vibLine_chars ht hrow
    rw [hline]
    intro c hc
    rcases List.mem_cons.mp hc with rfl | hc
    · decide
    · exact isLineEnd_false (hchars c hc).2

theorem LogLine.inner {l : List Char} (h : LogLine l) (a x b : List Char) (hl : l = a ++ x ++ b)
    (ha : a ≠ []) : vibRow x = none := by
  apply vibRow_none
  rcases h with ⟨hV, -⟩ | ⟨t, row, ht, hrow, rfl⟩
  · exact fun hx => hV (hl ▸ List.mem_append_left _ (List.mem_append_right _ hx))
  · obtain ⟨rest, hline, hchars⟩ := vibLine_chars ht hrow
    -- the `V` of the line lies in `a`
    obtain ⟨c, a, rfl⟩ := List.exists_cons_of_ne_nil ha
    rw [hline, List.cons_append, List.cons_append] at hl
    obtain ⟨-, rfl⟩ := List.cons.inj hl
    exact fun hx => (hchars _ (List.mem_append_left _ (List.mem_append_right _ hx))).1 rfl

/-- What `printf` makes of a number: no comma, no white space and no capital. -/
def PrintsNumbers {G : Type} (fmt : G → List Char) : Prop :=
  ∀ g, ∀ c ∈ fmt g, c.isDigit = true ∨ c = '.' ∨ c = '-' ∨ c.isLower = true

theorem plain_char {c : Char} (h : c.isDigit = true ∨ c = '.' ∨ c = '-' ∨ c.isLower = true) :
    c ≠ ',' ∧ c ≠ 'V' ∧ isPySpace c = false := by
  have hbounds : 45 ≤ c.toNat ∧ c.toNat ≤ 57 ∨ 97 ≤ c.toNat ∧ c.toNat ≤ 122 := by
    rcases h with h | rfl | rfl | h
    · left
      simp only [Char.isDigit, Bool.and_eq_true, decide_eq_true_eq] at h
      have hlo : 48 ≤ c.toNat := UInt32.le_iff_toNat_le.mp h.1
      have hhi : c.toNat ≤ 57 := UInt32.le_iff_toNat_le.mp h.2
      omega
    · decide
    · decide
    · right
      obtain ⟨hlo, hhi⟩ := Bool.and_eq_true_iff.mp h
      exact ⟨UInt32.le_iff_toNat_le.mp (of_decide_eq_true hlo),
        UInt32.le_iff_toNat_le.mp (of_decide_eq_true hhi)⟩
  refine ⟨?_, ?_, ?_⟩
  · rintro rfl
    revert hbounds
    decide
  · rintro rfl
    revert hbounds
    decide
  · simp only [isPySpace, decide_eq_false_iff_not, List.mem_cons, List.not_mem_nil, or_false]
    omega

theorem plain_digits (t : ℕ) : Plain (Nat.toDigits 10 t) := fun _ hc =>
  plain_char (Or.inl (Nat.isDigit_of_mem_toDigits (by decide) (by decide) hc))

theorem plain_name (st : VibState) : Plain st.name := by
  cases st <;> exact List.all_iff_forall_prop.mp (by decide)

theorem headerRow_plain : headerRow.Plain :=
  ⟨List.all_iff_forall_prop.mp (by decide), List.all_iff_forall_prop.mp (by decide),
    List.all_iff_forall_prop.mp (by decide), List.all_iff_forall_prop.mp (by decide)⟩

theorem plain_t_ms : Plain "t_ms".toList := List.all_iff_forall_prop.mp (by decide)

section Log

variable {G : Type} {fmt : G → List Char}

theorem rowOf_plain (hfmt : PrintsNumbers fmt) (t : ℕ) (g : G × G × G) : (rowOf fmt t g).Plain :=
  ⟨plain_name _, fun c hc => plain_char (hfmt _ c hc), fun c hc => plain_char (hfmt _ c hc),
    fun c hc => plain_char (hfmt _ c hc)⟩

theorem captureLoop_lines (hfmt : PrintsNumbers fmt) (last : Option VibState)
    (ticks : List (Tick G)) : ∀ l ∈ captureLoop fmt last ticks, LogLine l := by
  induction ticks generalizing last with
  | nil => exact nofun
  | cons tick ticks ih =>
      obtain ⟨t, reading⟩ := tick
      intro l hl
      rw [captureLoop] at hl
      rcases List.mem_append.mp hl with hl | hl
      · rcases List.mem_append.mp hl with hl | hl
        · -- the comment about the state has no `V`
          left
          split_ifs at hl
          · rw [List.mem_singleton.mp hl]
            cases captureState t <;>
              exact ⟨by decide, List.all_iff_forall_prop.mp (by decide)⟩
          · cases hl
        · right
          cases reading with
          | none => cases hl
          | some g =>
              rw [List.mem_singleton.mp hl]
              exact ⟨_, _, plain_digits t, rowOf_plain hfmt t g, rfl⟩
      · exact ih _ l hl

/-- The rows of the log are the readings, in order. -/
theorem captureLoop_rows (hfmt : PrintsNumbers fmt) (last : Option VibState)
    (ticks : List (Tick G)) :
    (captureLoop fmt last ticks).filterMap vibRow = readings fmt ticks := by
  induction ticks generalizing last with
  | nil => rfl
  | cons tick ticks ih =>
      obtain ⟨t, reading⟩ := tick
      have hnote : (if some (captureState t) ≠ last then
          ["# state -> ".toList ++ (captureState t).name] else []).filterMap vibRow = [] := by
        split_ifs
        · rw [List.filterMap_cons_none (vibRow_none (by cases captureState t <;> decide)),
            List.filterMap_nil]
        · rfl
      rw [captureLoop, List.filterMap_append, List.filterMap_append, hnote, ih, readings,
        List.nil_append]
      cases reading with
      | none => rfl
      | some g =>
          show ([vibLine (Nat.toDigits 10 t) (rowOf fmt t g)].filterMap vibRow) ++ _ =
            rowOf fmt t g :: readings fmt ticks
          rw [List.filterMap_cons_some (vibRow_line (plain_digits t) (rowOf_plain hfmt t g))]
          rfl

/-- What the demo prints from the header on. -/
def captureLines (fmt : G → List Char) (ticks : List (Tick G)) : List (List Char) :=
  captureHeader :: captureLoop fmt none ticks

theorem captureLines_lines (hfmt : PrintsNumbers fmt) (ticks : List (Tick G)) :
    ∀ l ∈ captureLines fmt ticks, LogLine l := by
  intro l hl
  rcases List.mem_cons.mp hl with rfl | hl
  · exact Or.inr ⟨_, _, plain_t_ms, headerRow_plain, rfl⟩
  · exact captureLoop_lines hfmt none ticks l hl

theorem captureLines_rows (hfmt : PrintsNumbers fmt) (ticks : List (Tick G)) :
    (captureLines fmt ticks).filterMap vibRow = headerRow :: readings fmt ticks := by
  have hheader : vibRow captureHeader = some headerRow := vibRow_line plain_t_ms headerRow_plain
  rw [captureLines, List.filterMap_cons_some hheader, captureLoop_rows hfmt]

theorem eol_spec {eol : List Char} (heol : eol = ['\n'] ∨ eol = ['\r', '\n']) :
    eol ≠ [] ∧ ∀ c ∈ eol, isLineEnd c = true := by
  rcases heol with rfl | rfl
  · exact ⟨by decide, List.all_iff_forall_prop.mp (by decide)⟩
  · exact ⟨by decide, List.all_iff_forall_prop.mp (by decide)⟩

/-- `%.4f` of `n / 10000`. -/
def fmt4 (n : ℤ) : List Char :=
  (if n < 0 then ['-'] else []) ++ Nat.toDigits 10 (n.natAbs / 10000) ++
    '.' :: (Nat.toDigits 10 (10000 + n.natAbs % 10000)).tail

theorem fmt4_prints : PrintsNumbers fmt4 := by
  intro n c hc
  have hdigit : ∀ m, c ∈ Nat.toDigits 10 m → c.isDigit = true :=
    fun m h => Nat.isDigit_of_mem_toDigits (by decide) (by decide) h
  rw [fmt4] at hc
  rcases List.mem_append.mp hc with hc | hc
  · rcases List.mem_append.mp hc with hc | hc
    · split_ifs at hc
      · exact Or.inr (Or.inr (Or.inl (List.mem_singleton.mp hc)))
      · cases hc
    · exact Or.inl (hdigit _ hc)
  · rcases List.mem_cons.mp hc with hc | hc
    · exact Or.inr (Or.inl hc)
    · exact Or.inl (hdigit _ (List.mem_of_mem_tail hc))

/-- Two readings around the end of the first state. -/
def twoTicks : List (Tick ℤ) := [(3990, some (12, -3, 10041)), (4000, some (230, 118, 9876))]

end Log

/-! ## The files -/

theorem appendRow_lookup (files : List (List Char × List VibRow)) (row : VibRow)
    (name : List Char) :
    (appendRow files row).lookup name =
      if name = row.state then some ((files.lookup name).getD [] ++ [row])
      else files.lookup name := by
  induction files with
  | nil =>
      by_cases hname : name = row.state
      · simp [appendRow, hname]
      · simp [appendRow, List.lookup_cons, beq_false_of_ne hname, hname]
  | cons file files ih =>
      obtain ⟨state, rows⟩ := file
      -- the row goes into this file, or on to the others
      by_cases hstate : state = row.state
      · rw [appendRow, if_pos hstate]
        by_cases hname : name = state
        · simp [hname, hstate]
        · have hrow : name ≠ row.state := hstate ▸ hname
          simp [List.lookup_cons, beq_false_of_ne hname, hrow]
      · rw [appendRow, if_neg hstate]
        by_cases hname : name = state
        · simp [hname, hstate]
        · simp [List.lookup_cons, beq_false_of_ne hname, ih]

/-- The rows of a state come in order. -/
theorem foldl_appendRow_lookup (rows : List VibRow) (files : List (List Char × List VibRow))
    (name : List Char) :
    (rows.foldl appendRow files).lookup name =
      if rows.filter (·.state = name) = [] then files.lookup name
      else some ((files.lookup name).getD [] ++ rows.filter (·.state = name)) := by
  induction rows generalizing files with
  | nil => rfl
  | cons row rows ih =>
      rw [List.foldl_cons, ih, appendRow_lookup]
      by_cases hname : name = row.state
      · subst hname
        rw [List.filter_cons_of_pos (by simp), if_pos rfl, if_neg (List.cons_ne_nil _ _)]
        split_ifs with hrest
        · rw [hrest]
        · rw [Option.getD_some, List.append_assoc]
          rfl
      · rw [List.filter_cons_of_neg (by simpa using fun h => hname h.symm), if_neg hname]

theorem lookup_map {κ κ' α β : Type} [BEq κ] [LawfulBEq κ] [BEq κ'] [LawfulBEq κ'] {f : κ → κ'}
    (hf : f.Injective) (g : α → β) (l : List (κ × α)) (k : κ) :
    (l.map fun (k, a) => (f k, g a)).lookup (f k) = (l.lookup k).map g := by
  induction l with
  | nil => rfl
  | cons p l ih =>
      obtain ⟨k', a⟩ := p
      by_cases hk : k = k'
      · simp [hk]
      · simp [List.lookup_cons, beq_false_of_ne hk, beq_false_of_ne fun h => hk (hf h), ih]

theorem mem_appendRow {files : List (List Char × List VibRow)} {row : VibRow}
    {file : List Char × List VibRow} (h : file ∈ appendRow files row) :
    file.1 = row.state ∨ ∃ file' ∈ files, file'.1 = file.1 := by
  induction files with
  | nil =>
      left
      rw [List.mem_singleton.mp h]
  | cons file' files ih =>
      obtain ⟨state, rows⟩ := file'
      rw [appendRow] at h
      split_ifs at h with hstate
      · rcases List.mem_cons.mp h with rfl | h
        · exact Or.inl hstate
        · exact Or.inr ⟨file, List.mem_cons_of_mem _ h, rfl⟩
      · rcases List.mem_cons.mp h with rfl | h
        · exact Or.inr ⟨_, List.mem_cons_self, rfl⟩
        · refine (ih h).imp_right ?_
          rintro ⟨file', hfile', heq⟩
          exact ⟨file', List.mem_cons_of_mem _ hfile', heq⟩

theorem mem_foldl_appendRow {rows : List VibRow} {files : List (List Char × List VibRow)}
    {file : List Char × List VibRow} (h : file ∈ rows.foldl appendRow files) :
    (∃ row ∈ rows, file.1 = row.state) ∨ ∃ file' ∈ files, file'.1 = file.1 := by
  induction rows generalizing files with
  | nil => exact Or.inr ⟨file, h, rfl⟩
  | cons row rows ih =>
      rcases ih h with ⟨row', hrow', heq⟩ | ⟨file', hfile', heq⟩
      · exact Or.inl ⟨row', List.mem_cons_of_mem _ hrow', heq⟩
      · rcases mem_appendRow hfile' with hrow | ⟨file'', hfile'', heq'⟩
        · exact Or.inl ⟨row, List.mem_cons_self, heq ▸ hrow⟩
        · exact Or.inr ⟨file'', hfile'', heq'.trans heq⟩

section Files

variable {G : Type} {fmt : G → List Char}

theorem name_injective : Function.Injective VibState.name := by
  intro st st' h
  cases st <;> cases st' <;> first | rfl | exact absurd h (by decide)

/-- The rows of a state are the readings taken in it. -/
theorem readings_filter (ticks : List (Tick G)) (st : VibState) :
    (readings fmt ticks).filter (·.state = st.name) =
      readings fmt (ticks.filter fun tick => captureState tick.1 = st) := by
  induction ticks with
  | nil => rfl
  | cons tick ticks ih =>
      obtain ⟨t, reading⟩ := tick
      by_cases hst : captureState t = st
      · rw [List.filter_cons_of_pos (by simpa using hst)]
        cases reading with
        | none => exact ih
        | some g =>
            show ((rowOf fmt t g) :: readings fmt ticks).filter _ = rowOf fmt t g :: readings fmt _
            rw [List.filter_cons_of_pos (by simp [rowOf, hst]), ih]
      · rw [List.filter_cons_of_neg (by simpa using hst)]
        cases reading with
        | none => exact ih
        | some g =>
            show ((rowOf fmt t g) :: readings fmt ticks).filter _ = readings fmt _
            have hname : (rowOf fmt t g).state ≠ st.name := fun h => hst (name_injective h)
            rw [List.filter_cons_of_neg (by simpa using hname), ih]

/-- **The files of a capture.** There is a file for each state in which a reading was taken, with
exactly the readings taken in it, in order. And there is a file for a state named `state`, which is
the header. -/
theorem capture_files (hfmt : PrintsNumbers fmt) (ticks : List (Tick G)) {eol : List Char}
    (heol : eol = ['\n'] ∨ eol = ['\r', '\n']) :
    let files := tssConvert (consoleText eol (captureBanner ++ captureLines fmt ticks))
    (∀ st : VibState, files.lookup (st.name ++ ".csv".toList) =
      let rows := readings fmt (ticks.filter fun tick => captureState tick.1 = st)
      if rows = [] then none else some (rows.flatMap rowText)) ∧
    files.lookup "state.csv".toList = some "ax_g ay_g az_g\n".toList ∧
    ∀ file ∈ files, file.1 = "state.csv".toList ∨
      ∃ st : VibState, file.1 = st.name ++ ".csv".toList := by
  intro files
  -- the tool reads the header line as a row, and the readings
  have hrows : vibRows (consoleText eol (captureBanner ++ captureLines fmt ticks)) =
      headerRow :: readings fmt ticks := by
    obtain ⟨hne, hsep⟩ := eol_spec heol
    have hall : captureBanner.all fun l => l.all fun c => isLineEnd c = false := by decide
    have hbanner : ∀ l ∈ captureBanner, ∀ c ∈ l, isLineEnd c = false := fun l hl =>
      List.all_iff_forall_prop.mp (List.all_eq_true.mp hall l hl)
    have heach : ∀ l ∈ captureBanner ++ captureLines fmt ticks, ∀ c ∈ l, isLineEnd c = false := by
      intro l hl
      rcases List.mem_append.mp hl with hl | hl
      · exact hbanner l hl
      · exact (captureLines_lines hfmt ticks l hl).eol
    have hread := filterMap_lines (f := vibRow) (by decide) hne hsep heach []
    have hnone : captureBanner.filterMap vibRow = [] := by decide
    rw [List.append_nil, filterMap_empty (by decide), List.append_nil, List.filterMap_append, hnone,
      captureLines_rows hfmt, List.nil_append] at hread
    rw [vibRows_eq, consoleText, hread]
  -- each name has the rows of that state
  have hlookup : ∀ name, files.lookup (name ++ ".csv".toList) =
      let rows := (headerRow :: readings fmt ticks).filter (·.state = name)
      if rows = [] then none else some (rows.flatMap rowText) := by
    intro name
    have hinj : Function.Injective fun state : List Char => state ++ ".csv".toList :=
      fun _ _ h => List.append_cancel_right h
    have hmap := lookup_map hinj (List.flatMap rowText)
      ((headerRow :: readings fmt ticks).foldl appendRow []) name
    rw [foldl_appendRow_lookup] at hmap
    show (tssConvert _).lookup _ = _
    rw [tssConvert, hrows]
    refine hmap.trans ?_
    dsimp only
    split_ifs <;> rfl
  -- no motor state is named `state`
  have hheader : ∀ st : VibState, ¬ headerRow.state = st.name := by
    intro st
    cases st <;> decide
  refine ⟨fun st => ?_, ?_, fun file hfile => ?_⟩
  · rw [hlookup, List.filter_cons_of_neg (by simpa using hheader st), readings_filter]
  · have hnone : (readings fmt ticks).filter (·.state = "state".toList) = [] := by
      rw [List.filter_eq_nil_iff]
      intro row hrow
      obtain ⟨tick, -, hsome⟩ := List.mem_filterMap.mp hrow
      obtain ⟨g, -, rfl⟩ := Option.map_eq_some_iff.mp hsome
      have hname : ¬ (rowOf fmt tick.1 g).state = "state".toList := fun h => hheader _ h.symm
      simpa using hname
    have hstate := hlookup "state".toList
    rw [List.filter_cons_of_pos (by decide), hnone] at hstate
    exact hstate
  · rw [show files = tssConvert _ from rfl, tssConvert, hrows] at hfile
    obtain ⟨file', hfile', rfl⟩ := List.mem_map.mp hfile
    rcases mem_foldl_appendRow hfile' with ⟨row, hrow, heq⟩ | ⟨_, hnil, -⟩
    · rcases List.mem_cons.mp hrow with rfl | hrow
      · left
        show file'.1 ++ _ = _
        rw [heq]
        rfl
      · right
        obtain ⟨tick, -, hsome⟩ := List.mem_filterMap.mp hrow
        obtain ⟨g, -, rfl⟩ := Option.map_eq_some_iff.mp hsome
        refine ⟨captureState tick.1, ?_⟩
        show file'.1 ++ _ = _
        rw [heq]
        rfl
    · cases hnil

theorem capture_files_two :
    (tssConvert (consoleText ['\n'] (captureBanner ++ captureLines fmt4 twoTicks))).lookup
      "state.csv".toList = some "ax_g ay_g az_g\n".toList :=
  (capture_files fmt4_prints twoTicks (Or.inl rfl)).2.1

end Files

end IotcDemos.Vibration
