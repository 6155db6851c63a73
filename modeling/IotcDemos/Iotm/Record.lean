import IotcDemos.Iotm.Infer
import IotcDemos.Iotm.Valid

set_option autoImplicit false

/-! # One record, one model

The main thread takes a model's class, label, version and source in separate steps: the first three
under `model_lock`, each in a section of its own, the last one without. The C2D thread may install
a model between any two of them; its install is two steps here, as the source is written after the
blob. `liveStep` interleaves the two threads, and answers with the record of an iteration that ends.
-/

namespace IotcDemos.Iotm

/-- What an iteration of the main loop tells about the model: the class of the input `x`, its label
and LED state (in the mode where the model drives the LED), and the version and source, if the
iteration publishes. -/
structure Record (F : Type) where
  x : ℕ → F
  cls : ℕ
  label : Bytes
  led : Option Bool
  published : Option (UInt16 × ModelSrc)

/-- Where the main thread is in an iteration. -/
inductive MainPc (F : Type) where
  | idle
  | inferred (x : ℕ → F) (publish : Bool) (cls : ℕ)
  | labelled (r : Record F)
  | versioned (r : Record F) (ver : UInt16)

/-- The memory that the threads share; `installing` is the source that an install has still to
write, while it holds the lock. -/
structure Live (F : Type) where
  blob : Bytes
  src : ModelSrc
  installing : Option ModelSrc
  main : MainPc F

/-- The text of `h->labels[cls]` in a buffer of 13 characters. -/
def labelAt (blob : Bytes) (cls : ℕ) : Bytes :=
  (bytesAt (byteAt blob) (12 + 12 * cls) 12).takeWhile (· ≠ 0)

/-- `(h->led_mask >> cls) & 1`. -/
def ledAt (blob : Bytes) (cls : ℕ) : Bool := (modelHdr (byteAt blob)).ledMask.toNat.testBit cls

/-- The steps of the two threads: an install copies the blob and then writes the source; an
iteration infers, reads the label, the version and the source. -/
inductive LiveEvent (F : Type) where
  | copy (blob : Bytes) (src : ModelSrc)
  | unlock
  | infer (x : ℕ → F) (publish : Bool)
  | label (mode : LedMode)
  | version
  | source

section Threads

variable {F : Type} (A : FloatArith F)

/-- A step that its thread is not at, or that waits for the lock, changes nothing. -/
def liveStep : LiveEvent F → Live F → Option (Record F) × Live F
  | .copy blob src, s =>
      if s.installing = none ∧ modelValidate blob = none then
        (none, { s with blob := blit s.blob 0 blob, installing := some src })
      else (none, s)
  | .unlock, s =>
      match s.installing with
      | some src => (none, { s with src := src, installing := none })
      | none => (none, s)
  | .infer x publish, s =>
      match s.main, s.installing with
      | .idle, none =>
          (none, { s with main := .inferred x publish (modelInfer A (byteAt s.blob) x) })
      | _, _ => (none, s)
  | .label mode, s =>
      match s.main, s.installing with
      | .inferred x publish cls, none =>
          let led := if mode = .auto then some (ledAt s.blob cls) else none
          let r : Record F := ⟨x, cls, labelAt s.blob cls, led, none⟩
          if publish then (none, { s with main := .labelled r })
          else (some r, { s with main := .idle })
      | _, _ => (none, s)
  | .version, s =>
      match s.main, s.installing with
      | .labelled r, none =>
          (none, { s with main := .versioned r (modelHdr (byteAt s.blob)).modelVer })
      | _, _ => (none, s)
  | .source, s =>
      match s.main with
      -- `model_src` is read without the lock
      | .versioned r ver =>
          (some { r with published := some (ver, s.src) }, { s with main := .idle })
      | _ => (none, s)

/-- An install is none of the main thread's steps. -/
theorem liveStep_copy_main (blob : Bytes) (src : ModelSrc) (s : Live F) :
    (liveStep A (.copy blob src) s).2.main = s.main := by
  simp only [liveStep]
  split <;> rfl

/-- The two steps of an install do what `model_install` does. -/
theorem install_in_two_steps {blob : Bytes} (h : ModelValid blob) (src : ModelSrc) (s : Live F)
    (d : Device) (hfree : s.installing = none) (hblob : d.modelBlob = s.blob) :
    (liveStep A .unlock (liveStep A (.copy blob src) s).2).2.blob =
        (modelInstall blob src false 0 d).2.modelBlob ∧
      (liveStep A .unlock (liveStep A (.copy blob src) s).2).2.src =
        (modelInstall blob src false 0 d).2.modelSrc := by
  have hcopy : (liveStep A (.copy blob src) s).2 =
      { s with blob := blit s.blob 0 blob, installing := some src } := by
    simp [liveStep, hfree, modelValidate_eq_none.mpr h]
  rw [hcopy]
  simp [liveStep, modelInstall, modelValidate_eq_none.mpr h, hblob]

/-- The record tells about one model: that in `blob`, with the source `src`. -/
structure Describes (blob : Bytes) (src : ModelSrc) (r : Record F) : Prop where
  cls : r.cls = modelInfer A (byteAt blob) r.x
  label : r.label = labelAt blob r.cls
  led : ∀ on, r.led = some on → on = ledAt blob r.cls
  published : ∀ v, r.published = some v → v = ((modelHdr (byteAt blob)).modelVer, src)

/-- Every record of a run tells about one model that was installed at some time. -/
def RecordsConsistent (es : List (LiveEvent F)) (s₀ : Live F) : Prop :=
  ∀ p ∈ trace (liveStep A) es s₀, ∀ r, (liveStep A p.1 p.2).1 = some r →
    ∃ q ∈ trace (liveStep A) es s₀, q.2.installing = none ∧ Describes A q.2.blob q.2.src r

/-- No step of an install falls into an iteration. A blob that `model_validate` refuses is not
copied. -/
def Quiet (e : LiveEvent F) (s : Live F) : Prop :=
  match e with
  | .copy blob _ => s.installing = none → ModelValid blob → s.main = .idle
  | .unlock => s.installing ≠ none → s.main = .idle
  | _ => True

/-- What the main thread has taken so far is of the model that is in place. -/
def Uniform (s : Live F) : Prop :=
  match s.main with
  | .idle => True
  | .inferred x _ cls => s.installing = none ∧ cls = modelInfer A (byteAt s.blob) x
  | .labelled r => s.installing = none ∧ r.published = none ∧ Describes A s.blob s.src r
  | .versioned r ver => s.installing = none ∧ ver = (modelHdr (byteAt s.blob)).modelVer ∧
      Describes A s.blob s.src r

/-- An iteration with the install of another model behind its inference. -/
def swapInIteration (x : ℕ → F) (blob : Bytes) (src : ModelSrc) : List (LiveEvent F) :=
  [.infer x true, .copy blob src, .unlock, .label .auto, .version]

/-- Its record has the class of the model before, and all else from the new one. -/
theorem swapInIteration_record {blob : Bytes} (hblob : ModelValid blob) (src : ModelSrc)
    (x : ℕ → F) (s : Live F) (hidle : s.main = .idle) (hfree : s.installing = none) :
    let cls := modelInfer A (byteAt s.blob) x
    let after := blit s.blob 0 blob
    (liveStep A .source (runState (liveStep A) (swapInIteration x blob src) s)).1 =
      some ⟨x, cls, labelAt after cls, some (ledAt after cls),
        some ((modelHdr (byteAt after)).modelVer, src)⟩ := by
  simp [swapInIteration, liveStep, hidle, hfree, modelValidate_eq_none.mpr hblob]

variable {A}

/-- The record of the last step of a consistent run. -/
theorem RecordsConsistent.last {es : List (LiveEvent F)} {e : LiveEvent F} {s₀ : Live F}
    {r : Record F} (h : RecordsConsistent A (es ++ [e]) s₀)
    (hr : (liveStep A e (runState (liveStep A) es s₀)).1 = some r) :
    ∃ q ∈ trace (liveStep A) (es ++ [e]) s₀, Describes A q.2.blob q.2.src r := by
  have hlast : (e, runState (liveStep A) es s₀) ∈ trace (liveStep A) (es ++ [e]) s₀ := by
    rw [trace_snoc]
    exact List.mem_append_right _ (List.mem_singleton_self _)
  obtain ⟨q, hq, -, hdescribes⟩ := h _ hlast r hr
  exact ⟨q, hq, hdescribes⟩

/-- A quiet step keeps what the main thread has taken uniform, and its records are. -/
theorem liveStep_uniform {e : LiveEvent F} {s : Live F} (hquiet : Quiet e s)
    (hs : Uniform A s) : Uniform A (liveStep A e s).2 ∧
      ∀ r, (liveStep A e s).1 = some r → s.installing = none ∧ Describes A s.blob s.src r := by
  cases e with
  | copy blob src =>
      simp only [liveStep]
      split
      · next hcopied =>
          have hidle := hquiet hcopied.1 (modelValidate_eq_none.mp hcopied.2)
          exact ⟨by simp [Uniform, hidle], by simp⟩
      · exact ⟨hs, by simp⟩
  | unlock =>
      simp only [liveStep]
      split
      · next src hinstalling =>
          have hidle := hquiet (by simp [hinstalling])
          exact ⟨by simp [Uniform, hidle], by simp⟩
      · exact ⟨hs, by simp⟩
  | infer x publish =>
      simp only [liveStep]
      split
      · next hfree => exact ⟨⟨hfree, rfl⟩, by simp⟩
      · exact ⟨hs, by simp⟩
  | label mode =>
      simp only [liveStep]
      split
      · next x publish cls hmain hfree =>
          rw [Uniform, hmain] at hs
          have hr : Describes A s.blob s.src ⟨x, cls, labelAt s.blob cls,
              if mode = .auto then some (ledAt s.blob cls) else none, none⟩ := by
            refine ⟨hs.2, rfl, ?_, by simp⟩
            intro on hon
            split at hon
            · exact (Option.some.inj hon).symm
            · cases hon
          split
          · exact ⟨⟨hfree, rfl, hr⟩, by simp⟩
          · refine ⟨trivial, ?_⟩
            intro r hanswer
            obtain rfl := Option.some.inj hanswer
            exact ⟨hfree, hr⟩
      · exact ⟨hs, by simp⟩
  | version =>
      simp only [liveStep]
      split
      · next r hmain hfree =>
          rw [Uniform, hmain] at hs
          exact ⟨⟨hfree, rfl, hs.2.2⟩, by simp⟩
      · exact ⟨hs, by simp⟩
  | source =>
      simp only [liveStep]
      split
      · next r ver hmain =>
          rw [Uniform, hmain] at hs
          obtain ⟨hfree, rfl, hr⟩ := hs
          refine ⟨trivial, ?_⟩
          intro r' hanswer
          obtain rfl := Option.some.inj hanswer
          refine ⟨hfree, hr.cls, hr.label, hr.led, ?_⟩
          intro v hv
          exact (Option.some.inj hv).symm
      · exact ⟨hs, by simp⟩

end Threads

/-- **One record, one model.** In a run in which no step of an install falls between the inference
of an iteration and its last read, the class, the label, the LED state, the version and the source
of every record are those of one model, the one that is in place when the record is made. -/
theorem records_consistent {F : Type} (A : FloatArith F) (es : List (LiveEvent F)) (s₀ : Live F)
    (hidle : s₀.main = .idle) (hquiet : Along (liveStep A) Quiet es s₀) :
    RecordsConsistent A es s₀ := by
  have hstart : Uniform A s₀ := by simp [Uniform, hidle]
  have hstep : ∀ e s, Quiet e s → Uniform A s → Uniform A (liveStep A e s).2 :=
    fun e s hq hs => (liveStep_uniform hq hs).1
  obtain ⟨htrace, -⟩ := trace_inv_along hstep hquiet hstart
  intro p hp r hr
  obtain ⟨hq, hs⟩ := htrace p hp
  obtain ⟨hfree, hdescribes⟩ := (liveStep_uniform hq hs).2 r hr
  exact ⟨p, hp, hfree, hdescribes⟩

/-- The device after a boot with the built-in model. -/
def liveBuiltin : Live ℚ where
  blob := blit (List.replicate modelMaxBlob 0) 0 modelBuiltin
  src := .builtin
  installing := none
  main := .idle

/-- An iteration behind an install is quiet. -/
theorem records_consistent_after_install :
    RecordsConsistent exactArith [.copy modelComfort .cloud, .unlock, .infer warmAndDark true,
      .label .auto, .version, .source] liveBuiltin := by
  refine records_consistent exactArith _ liveBuiltin rfl ⟨fun _ _ => rfl, fun _ => ?_, trivial,
    trivial, trivial, trivial, trivial⟩
  show (liveStep exactArith (.copy modelComfort .cloud) liveBuiltin).2.main = .idle
  rw [liveStep_copy_main]
  rfl

/-- The built-in model finds the light `"dark"`, its class 0; the record then tells of class 0 of
the comfort model, `"cool"`, which that model does not give at 30 degrees. -/
theorem record_of_two_models : ¬ RecordsConsistent exactArith
    (swapInIteration warmAndDark modelComfort .cloud ++ [.source]) liveBuiltin := by
  -- the only models of the run are these two
  have hblobs : ∀ q ∈ trace (liveStep exactArith)
      (swapInIteration warmAndDark modelComfort .cloud ++ [.source]) liveBuiltin,
      q.2.blob = liveBuiltin.blob ∨ q.2.blob = blit liveBuiltin.blob 0 modelComfort := by
    decide +kernel
  have hbuiltin : modelInfer exactArith (byteAt liveBuiltin.blob) warmAndDark = 0 := by
    decide +kernel
  have hcomfort : modelInfer exactArith (byteAt (blit liveBuiltin.blob 0 modelComfort))
      warmAndDark = 2 := by
    decide +kernel
  have hlabels : labelAt (blit liveBuiltin.blob 0 modelComfort) 0 ≠ labelAt liveBuiltin.blob 0 := by
    decide +kernel
  have hrecord := swapInIteration_record exactArith modelComfort_valid .cloud warmAndDark
    liveBuiltin rfl rfl
  dsimp only at hrecord
  rw [hbuiltin] at hrecord
  intro h
  obtain ⟨q, hq, hdescribes⟩ := h.last hrecord
  rcases hblobs q hq with hq | hq
  · have hlabel := hdescribes.label
    rw [hq] at hlabel
    exact hlabels hlabel
  · have hcls := hdescribes.cls
    rw [hq, hcomfort] at hcls
    cases hcls

end IotcDemos.Iotm
