import IotcDemos.Lib.Run

set_option autoImplicit false

/-! # The buffers between display and inference (convert.c)

The main loop converts each slice into a buffer of the pool, shows it and hands it to the inference
thread, which takes the newest one, gives the others back and then that one too. Where
`convdisp_fifo_in` is empty, `convdisp` takes back a buffer that waits in `inf_fifo`. A step is one
operation on a fifo and what its thread does up to the next one; the threads may interleave in any
way. `k_fifo_alloc_put` fails where its heap is exhausted, and then the buffer is lost.
-/

namespace IotcDemos.FaceDetect

/-- What the main loop does next. -/
inductive MainPc (β : Type) where
  /-- `k_fifo_get` of `convdisp_fifo_in`, without waiting. -/
  | get
  /-- `k_fifo_get` of `inf_fifo`, with `K_FOREVER`. -/
  | wait
  /-- The buffer with slice `n` has been shown; it is put into a fifo. -/
  | put (b : β) (n : ℕ)
  deriving DecidableEq

/-- What the inference thread does next. -/
inductive InfPc (β : Type) where
  | notStarted
  /-- `k_fifo_get` with `K_FOREVER`. -/
  | get
  /-- `k_fifo_get` with `K_NO_WAIT`, in the loop. -/
  | drain (b : β) (n : ℕ)
  /-- The older buffer goes back, `next` is kept. -/
  | release (b : β) (n : ℕ) (next : β × ℕ)
  /-- `face_det` is running; then the buffer goes back. -/
  | detect (b : β) (n : ℕ)
  deriving DecidableEq

structure Pipe (β : Type) where
  /-- `convdisp_fifo_in`. -/
  free : List β
  /-- `inf_fifo`, each buffer with the slice that was converted into it. -/
  infFifo : List (β × ℕ)
  main : MainPc β
  inf : InfPc β
  inferenceEnabled : Bool
  infFrameCount : ℕ
  /-- How many slices have been converted. -/
  slices : ℕ
  /-- The slices on which inference ran. No step depends on it. -/
  inferred : List ℕ
  deriving DecidableEq

/-- A step of one of the threads; `ok` says whether its `k_fifo_alloc_put`, if any, succeeds. -/
inductive PipeAct where
  | main (ok : Bool)
  | inf (ok : Bool)
  deriving DecidableEq

section Step

variable {β : Type}

/-- After `convdisp_init`. -/
def Pipe.start (bufs : List β) : Pipe β where
  free := bufs
  infFifo := []
  main := .get
  inf := .notStarted
  inferenceEnabled := false
  infFrameCount := 0
  slices := 0
  inferred := []

/-- `k_fifo_alloc_put`. -/
def allocPut {α : Type} (ok : Bool) (x : α) (fifo : List α) : List α :=
  if ok then fifo ++ [x] else fifo

/-- What the main loop does with a buffer that has been shown. -/
def putAct (slicesPerFrame : ℕ) (ok : Bool) (b : β) (n : ℕ) (s : Pipe β) : Pipe β :=
  if s.inferenceEnabled then
    { s with infFifo := allocPut ok (b, n) s.infFifo, main := .get }
  else if s.infFrameCount ≥ slicesPerFrame then
    -- the first full frame has been shown: the thread is started
    { s with infFifo := allocPut ok (b, n) s.infFifo, main := .get, inf := .get,
             inferenceEnabled := true }
  else
    { s with infFrameCount := s.infFrameCount + 1, free := allocPut ok b s.free, main := .get }

def mainAct (slicesPerFrame : ℕ) (ok : Bool) (s : Pipe β) : Pipe β :=
  match s.main with
  | .get =>
      match s.free with
      | b :: free => { s with free := free, main := .put b s.slices, slices := s.slices + 1 }
      | [] => { s with main := .wait }
  | .wait =>
      match s.infFifo with
      | f :: infFifo =>
          { s with infFifo := infFifo, main := .put f.1 s.slices, slices := s.slices + 1 }
      | [] => s
  | .put b n => putAct slicesPerFrame ok b n s

def infAct (ok : Bool) (s : Pipe β) : Pipe β :=
  match s.inf with
  | .notStarted => s
  | .get =>
      match s.infFifo with
      | f :: infFifo => { s with infFifo := infFifo, inf := .drain f.1 f.2 }
      | [] => s
  | .drain b n =>
      match s.infFifo with
      | f :: infFifo => { s with infFifo := infFifo, inf := .release b n f }
      | [] => { s with inf := .detect b n, inferred := s.inferred ++ [n] }
  | .release b _ next => { s with free := allocPut ok b s.free, inf := .drain next.1 next.2 }
  | .detect b _ => { s with free := allocPut ok b s.free, inf := .get }

def pipeStep (slicesPerFrame : ℕ) : PipeAct → Pipe β → Unit × Pipe β
  | .main ok, s => ((), mainAct slicesPerFrame ok s)
  | .inf ok, s => ((), infAct ok s)

end Step

/-! ## Every buffer has one place -/

section Places

variable {β : Type}

def MainPc.holds : MainPc β → List β
  | .put b _ => [b]
  | _ => []

def InfPc.holds : InfPc β → List β
  | .drain b _ => [b]
  | .release b _ next => [b, next.1]
  | .detect b _ => [b]
  | _ => []

/-- Where the buffers are. -/
def Pipe.places (s : Pipe β) : List β :=
  s.free ++ s.infFifo.map Prod.fst ++ s.main.holds ++ s.inf.holds

/-- The thread is not started before inference is enabled. -/
def Pipe.Started (s : Pipe β) : Prop := s.inferenceEnabled = false → s.inf = .notStarted

def PipeAct.Succeeds : PipeAct → Prop
  | .main ok => ok = true
  | .inf ok => ok = true

section Count

variable [DecidableEq β]

end Count

/-- What a run has kept of the buffers it started with. -/
structure Pipe.Kept [DecidableEq β] (bufs : List β) (s : Pipe β) : Prop where
  started : s.Started
  count : ∀ x, s.places.count x ≤ bufs.count x

/-- No buffer has been lost. -/
def Pipe.Whole (bufs : List β) (s : Pipe β) : Prop := s.Started ∧ s.places.Perm bufs

end Places

/-! ## The slices go through in order -/

section Order

variable {β : Type}

def MainPc.slice : MainPc β → List ℕ
  | .put _ n => [n]
  | _ => []

/-- The slices that the inference thread has taken and not yet run on. -/
def InfPc.slice : InfPc β → List ℕ
  | .drain _ n => [n]
  | .release _ n next => [n, next.2]
  | _ => []

/-- The slices that inference has run on, and those that are on their way to it. -/
def Pipe.line (s : Pipe β) : List ℕ :=
  s.inferred ++ (s.inf.slice ++ (s.infFifo.map Prod.snd ++ s.main.slice))

end Order

/-! ## A main loop that waits -/

section Wait

variable {β : Type}

/-- The inference thread does not run between the two `k_fifo_get` of `convdisp`. -/
def Uninterrupted (a : PipeAct) (s : Pipe β) : Prop :=
  s.main = .wait → ∃ ok, a = .main ok

theorem length_holds (inf : InfPc β) : inf.holds.length ≤ 2 := by
  cases inf with
  | notStarted => exact Nat.zero_le 2
  | get => exact Nat.zero_le 2
  | drain b n => exact Nat.le_succ 1
  | release b n next => exact le_refl 2
  | detect b n => exact Nat.le_succ 1

theorem infAct_main (ok : Bool) (s : Pipe β) : (infAct ok s).main = s.main := by
  unfold infAct
  split
  · rfl
  · split <;> rfl
  · split <;> rfl
  · rfl
  · rfl

/-- The main loop does not wait in vain. -/
def Pipe.Served (s : Pipe β) : Prop := s.main = .wait → s.infFifo ≠ []

theorem served_step {bufs : List β} (hbufs : 3 ≤ bufs.length) {slicesPerFrame : ℕ} (a : PipeAct)
    {s : Pipe β} (ha : Uninterrupted a s) (hwhole : s.Whole bufs) (h : s.Served) :
    (pipeStep slicesPerFrame a s).2.Served := by
  cases a with
  | main ok =>
      obtain ⟨free, infFifo, main, inf, enabled, count, slices, inferred⟩ := s
      cases main with
      | get =>
          cases free with
          | nil =>
              -- What is not in `convdisp_fifo_in` is in `inf_fifo`, or one of two with inference.
              rintro - rfl
              have hlen := hwhole.2.length_eq
              have hinf := length_holds inf
              simp only [Pipe.places, MainPc.holds, List.map_nil, List.nil_append] at hlen
              omega
          | cons b free => exact nofun
      | wait =>
          cases infFifo with
          | nil => exact absurd rfl (h rfl)
          | cons f infFifo => exact nofun
      | put b n =>
          simp only [pipeStep, mainAct, putAct]
          split_ifs <;> exact nofun
  | inf ok =>
      -- the condition excludes this
      intro hwait
      obtain ⟨ok', hact⟩ := ha ((infAct_main ok s).symm.trans hwait)
      cases hact

/-- Three buffers, of which inference takes two and the main loop the third. -/
def threeInUse : List PipeAct :=
  List.replicate 6 (.main true) ++ [.inf true, .inf true, .main true]

instance (a : PipeAct) (s : Pipe ℕ) : Decidable (Uninterrupted a s) :=
  match hmain : s.main, a with
  | .wait, .main ok => isTrue fun _ => ⟨ok, rfl⟩
  | .wait, .inf _ => isFalse fun h => nomatch h hmain
  | .get, _ => isTrue fun h => nomatch hmain.symm.trans h
  | .put _ _, _ => isTrue fun h => nomatch hmain.symm.trans h

instance (a : PipeAct) : Decidable a.Succeeds :=
  match a with
  | .main ok => inferInstanceAs (Decidable (ok = true))
  | .inf ok => inferInstanceAs (Decidable (ok = true))

/-- A main loop that waits in vain does so for ever: nobody else puts anything into
`inf_fifo`. -/
theorem starved_run {slicesPerFrame : ℕ} {s : Pipe β} (hmain : s.main = .wait)
    (hfifo : s.infFifo = []) (acts : List PipeAct) :
    (runState (pipeStep slicesPerFrame) acts s).main = .wait ∧
      (runState (pipeStep slicesPerFrame) acts s).infFifo = [] := by
  refine run_inv (P := fun t : Pipe β => t.main = .wait ∧ t.infFifo = []) ?_ ⟨hmain, hfifo⟩
  rintro a - t ⟨hwait, hempty⟩
  obtain ⟨free, infFifo, main, inf, enabled, count, slices, inferred⟩ := t
  obtain rfl : main = .wait := hwait
  obtain rfl : infFifo = [] := hempty
  cases a with
  | main ok => exact ⟨rfl, rfl⟩
  | inf ok => cases inf <;> exact ⟨rfl, rfl⟩

/-- Two buffers are too few. -/
theorem two_buffers_starve (acts : List PipeAct) :
    (runState (pipeStep 1) (threeInUse ++ acts) (Pipe.start [10, 11])).main = .wait ∧
      (runState (pipeStep 1) (threeInUse ++ acts) (Pipe.start [10, 11])).infFifo = [] := by
  rw [runState_append]
  exact starved_run (by decide) (by decide) acts

/-- Three are too few where inference takes them all between the two `k_fifo_get`. -/
theorem interrupted_starves (acts : List PipeAct) :
    let waiting := List.replicate 9 (.main true) ++ List.replicate 6 (.inf true)
    (runState (pipeStep 1) (waiting ++ acts) (Pipe.start [10, 11, 12])).main = .wait ∧
      (runState (pipeStep 1) (waiting ++ acts) (Pipe.start [10, 11, 12])).infFifo = [] := by
  intro waiting
  rw [runState_append]
  exact starved_run (by decide) (by decide) acts

end Wait

end IotcDemos.FaceDetect
