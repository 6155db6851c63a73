import IotcDemos.Lib.Errno
import IotcDemos.Lib.Run

set_option autoImplicit false

/-! # The buffers of the camera (vision_camera.c)

The drain thread takes full buffers from the driver and keeps the newest one as `latest`, from which
`vision_camera_capture` converts. A step is one call of the driver, one operation on `latest_lock`
or one access to `latest`; a conversion lasts from the step that starts it to the next one of its
thread. The buffers have any type, and so have the threads that capture.
-/

namespace IotcDemos.Vision

/-- `NUM_BUFS`. -/
def numBufs : ℕ := 3

section Init

variable {β : Type}

/-- The loop of `vision_camera_init` over the first `n` buffers: its return value, and the buffers
that the driver has got. -/
def enqueueBuffers (alloc : ℕ → Option β) (enqueue : ℕ → ℤ) : (n : ℕ) → ℤ × List β
  | 0 => (0, [])
  | i + 1 =>
      let (ret, driver) := enqueueBuffers alloc enqueue i
      if ret ≠ 0 then (ret, driver)
      else
        match alloc i with
        | none => (-ENOMEM, driver)
        | some vbuf => if enqueue i < 0 then (enqueue i, driver) else (0, driver ++ [vbuf])

/-- Where the loop gets to its end, the driver has what was allocated. -/
theorem enqueueBuffers_eq {alloc : ℕ → Option β} {enqueue : ℕ → ℤ} {n : ℕ} {bufs : List β}
    (h : enqueueBuffers alloc enqueue n = (0, bufs)) :
    bufs.map some = (List.range n).map alloc := by
  induction n generalizing bufs with
  | zero =>
      obtain rfl : bufs = [] := (Prod.ext_iff.mp h).2.symm
      rfl
  | succ i ih =>
      rw [enqueueBuffers] at h
      cases hloop : enqueueBuffers alloc enqueue i with
      | mk ret driver =>
          rw [hloop] at h
          dsimp only at h
          by_cases hret : ret ≠ 0
          · rw [if_pos hret] at h
            exact absurd (Prod.ext_iff.mp h).1 hret
          · rw [if_neg hret] at h
            rw [not_not] at hret
            rw [hret] at hloop
            have hbefore := ih hloop
            cases halloc : alloc i with
            | none =>
                rw [halloc] at h
                have henomem : -ENOMEM = 0 := (Prod.ext_iff.mp h).1
                exact absurd henomem (by decide)
            | some vbuf =>
                simp only [halloc] at h
                split_ifs at h with hneg
                · have hzero : enqueue i = 0 := (Prod.ext_iff.mp h).1
                  rw [hzero] at hneg
                  exact absurd hneg (lt_irrefl 0)
                · obtain rfl : driver ++ [vbuf] = bufs := (Prod.ext_iff.mp h).2
                  rw [List.map_append, hbefore, List.range_succ, List.map_append,
                    List.map_singleton, List.map_singleton, halloc]

/-- The buffers that `vision_camera_init` has allocated: a buffer that is in use is not allocated
again. -/
structure Pool (β : Type) where
  bufs : List β
  length : bufs.length = numBufs
  nodup : bufs.Nodup

/-- The pool of a `vision_camera_init` that gets as far as the drain thread. -/
def initPool (alloc : ℕ → Option β) (enqueue : ℕ → ℤ)
    (halloc : ∀ i j b, alloc i = some b → alloc j = some b → i = j) {bufs : List β}
    (h : enqueueBuffers alloc enqueue numBufs = (0, bufs)) : Pool β where
  bufs := bufs
  length := by
    have hlen := congrArg List.length (enqueueBuffers_eq h)
    rwa [List.length_map, List.length_map, List.length_range] at hlen
  nodup := by
    have hmap := enqueueBuffers_eq h
    have hsome : ∀ i ∈ List.range numBufs, ∃ b, alloc i = some b := by
      intro i hi
      have hmem : alloc i ∈ bufs.map some := by
        rw [hmap]
        exact List.mem_map_of_mem hi
      obtain ⟨b, -, hb⟩ := List.mem_map.mp hmem
      exact ⟨b, hb.symm⟩
    have hnodup : ((List.range numBufs).map alloc).Nodup := by
      refine List.Nodup.map_on ?_ List.nodup_range
      intro i hi j hj heq
      obtain ⟨b, hb⟩ := hsome i hi
      exact halloc i j b hb (heq ▸ hb)
    rw [← hmap] at hnodup
    exact List.Nodup.of_map some hnodup

end Init

/-! ## The threads -/

/-- What the drain thread does next. -/
inductive DrainPc (β : Type) where
  /-- The condition of the loop. -/
  | loop
  | dequeue
  | lock (vbuf : β)
  | swap (vbuf : β)
  | unlock (old : Option β)
  | enqueue (old : β)
  | exited

/-- What a thread does next in `vision_camera_capture`; `snap` says whether it asks for a
snapshot. -/
inductive CapturePc (β : Type) where
  | idle
  | lock (snap : Bool)
  | test (snap : Bool)
  /-- `frame_to_gray96` reads the buffer. -/
  | gray (b : β) (snap : Bool)
  /-- `frame_to_snapshot` reads the buffer. -/
  | snapshot (b : β)
  | unlock (snap found : Bool)
  | sleep (snap : Bool)

inductive LockOwner (κ : Type) where
  | drain
  | capture (c : κ)
  deriving DecidableEq

structure Cam (κ β : Type) where
  /-- The buffers that the driver owns. -/
  driver : List β
  latest : Option β
  /-- Who holds `latest_lock`. -/
  latestLock : Option (LockOwner κ)
  stopped : Bool
  drain : DrainPc β
  capture : κ → CapturePc β

inductive CamAct (κ β : Type) where
  /-- The next step of the drain thread, where it does not call the driver. -/
  | drain
  /-- `video_dequeue` gives a buffer, or times out. -/
  | dequeue (vbuf : Option β)
  | enqueue (ok : Bool)
  /-- `vision_camera_stop`. -/
  | stop
  /-- A call of `vision_camera_capture`. -/
  | call (c : κ) (snap : Bool)
  | capture (c : κ)
  /-- The condition of the loop of `vision_camera_capture`. -/
  | deadline (c : κ) (before : Bool)

/-- What a step shows to the outside. -/
inductive CamOut (κ : Type) where
  | returned (c : κ) (ret : ℤ)
  | silent

section Step

variable {κ β : Type}

def Cam.start (pool : Pool β) : Cam κ β where
  driver := pool.bufs
  latest := none
  latestLock := none
  stopped := false
  drain := .loop
  capture := fun _ => .idle

variable [DecidableEq κ]

def Cam.at (s : Cam κ β) (c : κ) (pc : CapturePc β) : Cam κ β :=
  { s with capture := Function.update s.capture c pc }

@[simp] theorem Cam.at_capture_self (s : Cam κ β) (c : κ) (pc : CapturePc β) :
    (s.at c pc).capture c = pc := by simp [Cam.at]

theorem Cam.at_capture_of_ne (s : Cam κ β) {c c' : κ} (pc : CapturePc β) (h : c' ≠ c) :
    (s.at c pc).capture c' = s.capture c' := by simp [Cam.at, h]

def drainAct (s : Cam κ β) : Cam κ β :=
  match s.drain with
  | .loop => { s with drain := if s.stopped then .exited else .dequeue }
  | .lock vbuf =>
      if s.latestLock.isSome then s
      else { s with latestLock := some .drain, drain := .swap vbuf }
  | .swap vbuf => { s with latest := some vbuf, drain := .unlock s.latest }
  | .unlock none => { s with latestLock := none, drain := .loop }
  | .unlock (some old) => { s with latestLock := none, drain := .enqueue old }
  | _ => s

variable [DecidableEq β]

/-- The driver gives a buffer that it owns. -/
def dequeueAct (vbuf : Option β) (s : Cam κ β) : Cam κ β :=
  match s.drain, vbuf with
  | .dequeue, none => { s with drain := .loop }
  | .dequeue, some vbuf =>
      if vbuf ∈ s.driver then { s with driver := s.driver.erase vbuf, drain := .lock vbuf } else s
  | _, _ => s

/-- A buffer that the driver does not take is lost. -/
def enqueueAct (ok : Bool) (s : Cam κ β) : Cam κ β :=
  match s.drain with
  | .enqueue old =>
      { s with driver := if ok then s.driver ++ [old] else s.driver, drain := .loop }
  | _ => s

def callCapture (c : κ) (snap : Bool) (s : Cam κ β) : Cam κ β :=
  match s.capture c with
  | .idle => s.at c (.lock snap)
  | _ => s

def captureAct (c : κ) (s : Cam κ β) : CamOut κ × Cam κ β :=
  match s.capture c with
  | .lock snap =>
      if s.latestLock.isSome then (.silent, s)
      else (.silent, { s.at c (.test snap) with latestLock := some (.capture c) })
  | .test snap =>
      match s.latest with
      | none => (.silent, s.at c (.unlock snap false))
      | some b => (.silent, s.at c (.gray b snap))
  | .gray _ snap =>
      -- `latest` is read again for the snapshot
      match snap, s.latest with
      | true, some b => (.silent, s.at c (.snapshot b))
      | _, _ => (.silent, s.at c (.unlock snap true))
  | .snapshot _ => (.silent, s.at c (.unlock true true))
  | .unlock snap found =>
      if found then (.returned c 0, { s.at c .idle with latestLock := none })
      else (.silent, { s.at c (.sleep snap) with latestLock := none })
  | _ => (.silent, s)

def deadlineAct (c : κ) (before : Bool) (s : Cam κ β) : CamOut κ × Cam κ β :=
  match s.capture c with
  | .sleep snap =>
      if before then (.silent, s.at c (.lock snap)) else (.returned c (-EAGAIN), s.at c .idle)
  | _ => (.silent, s)

def camStep : CamAct κ β → Cam κ β → CamOut κ × Cam κ β
  | .drain, s => (.silent, drainAct s)
  | .dequeue vbuf, s => (.silent, dequeueAct vbuf s)
  | .enqueue ok, s => (.silent, enqueueAct ok s)
  | .stop, s => (.silent, { s with stopped := true })
  | .call c snap, s => (.silent, callCapture c snap s)
  | .capture c, s => captureAct c s
  | .deadline c before, s => deadlineAct c before s

end Step

/-! ## Every buffer has one place -/

/-- The buffers that the drain thread has taken and not given back. -/
def DrainPc.hand {β : Type} : DrainPc β → List β
  | lock vbuf | swap vbuf => [vbuf]
  | unlock old => old.toList
  | enqueue old => [old]
  | loop | dequeue | exited => []

/-- The drain thread holds `latest_lock`. -/
def DrainPc.holds {β : Type} : DrainPc β → Bool
  | swap _ | unlock _ => true
  | loop | dequeue | lock _ | enqueue _ | exited => false

/-- The buffer that a conversion reads. -/
def CapturePc.reads {β : Type} : CapturePc β → Option β
  | gray b _ | snapshot b => some b
  | idle | lock _ | test _ | unlock _ _ | sleep _ => none

/-- The thread holds `latest_lock`. -/
def CapturePc.holds {β : Type} : CapturePc β → Bool
  | test _ | gray _ _ | snapshot _ | unlock _ _ => true
  | idle | lock _ | sleep _ => false

/-- Where the buffers are. -/
def Cam.places {κ β : Type} (s : Cam κ β) : List β := s.driver ++ s.drain.hand ++ s.latest.toList

/-- Every buffer of the pool has exactly one place, the driver keeps enough of them, and a
conversion reads a buffer that is `latest` and not with the driver. -/
structure Conserved {κ β : Type} (pool : Pool β) (s : Cam κ β) : Prop where
  places : s.places.Perm pool.bufs
  once : s.places.Nodup
  driver : numBufs - 2 ≤ s.driver.length
  reads : ∀ c b, (s.capture c).reads = some b → s.latest = some b ∧ b ∉ s.driver

structure CamInv {κ β : Type} (pool : Pool β) (s : Cam κ β) : Prop where
  places : s.places.Perm pool.bufs
  drainLock : s.drain.holds = true → s.latestLock = some .drain
  captureLock : ∀ c, (s.capture c).holds = true → s.latestLock = some (.capture c)
  reads : ∀ c b, (s.capture c).reads = some b → s.latest = some b

theorem CapturePc.holds_of_reads {β : Type} {pc : CapturePc β} {b : β} (h : pc.reads = some b) :
    pc.holds = true := by
  cases pc with
  | gray b snap => rfl
  | snapshot b => rfl
  | idle => cases h
  | lock snap => cases h
  | test snap => cases h
  | unlock snap found => cases h
  | sleep snap => cases h

theorem DrainPc.hand_length_le {β : Type} (pc : DrainPc β) : pc.hand.length ≤ 1 := by
  cases pc with
  | unlock old => exact Option.length_toList_le
  | loop => exact Nat.zero_le 1
  | dequeue => exact Nat.zero_le 1
  | lock vbuf => exact Nat.le_refl 1
  | swap vbuf => exact Nat.le_refl 1
  | enqueue old => exact Nat.le_refl 1
  | exited => exact Nat.zero_le 1

section Inv

variable {κ β : Type} {pool : Pool β} {s : Cam κ β}

theorem CamInv.conserved (h : CamInv pool s) : Conserved pool s := by
  have honce : s.places.Nodup := h.places.nodup_iff.mpr pool.nodup
  refine ⟨h.places, honce, ?_, fun c b hb => ?_⟩
  · have hlen := h.places.length_eq
    have hhand := s.drain.hand_length_le
    have hlatest : s.latest.toList.length ≤ 1 := Option.length_toList_le
    rw [pool.length, Cam.places, List.length_append, List.length_append] at hlen
    omega
  · have hlatest := h.reads c b hb
    refine ⟨hlatest, fun hmem => ?_⟩
    rw [Cam.places, hlatest] at honce
    exact (List.nodup_append.mp honce).2.2 b (List.mem_append_left _ hmem) b List.mem_cons_self rfl

/-- The drain thread goes on, without `latest_lock` and with what it has. -/
theorem CamInv.drain_goes_on (h : CamInv pool s) {pc : DrainPc β}
    (hhand : pc.hand = s.drain.hand) (hholds : pc.holds = false) :
    CamInv pool { s with drain := pc } where
  places := by
    show (s.driver ++ pc.hand ++ s.latest.toList).Perm pool.bufs
    rw [hhand]
    exact h.places
  drainLock := by
    intro hpc
    rw [hholds] at hpc
    cases hpc
  captureLock := h.captureLock
  reads := h.reads

/-- Who takes a free lock holds it alone. -/
theorem CamInv.nobody_holds (h : CamInv pool s) (hfree : s.latestLock = none) :
    s.drain.holds = false ∧ ∀ c, (s.capture c).holds = false := by
  constructor
  · by_contra hholds
    have hlock := h.drainLock (Bool.of_not_eq_false hholds)
    rw [hfree] at hlock
    cases hlock
  · intro c
    by_contra hholds
    have hlock := h.captureLock c (Bool.of_not_eq_false hholds)
    rw [hfree] at hlock
    cases hlock

/-- While the drain thread holds the lock, no other thread does. -/
theorem CamInv.captures_wait (h : CamInv pool s) (hdrain : s.drain.holds = true) (c : κ) :
    (s.capture c).holds = false := by
  by_contra hholds
  have hlock := h.captureLock c (Bool.of_not_eq_false hholds)
  rw [h.drainLock hdrain] at hlock
  cases hlock

/-- The drain thread gives the lock back. -/
theorem CamInv.drain_unlocks (h : CamInv pool s) (hdrain : s.drain.holds = true) {pc : DrainPc β}
    (hhand : pc.hand = s.drain.hand) (hholds : pc.holds = false) :
    CamInv pool { s with latestLock := none, drain := pc } where
  places := by
    show (s.driver ++ pc.hand ++ s.latest.toList).Perm pool.bufs
    rw [hhand]
    exact h.places
  drainLock := by
    intro hpc
    rw [hholds] at hpc
    cases hpc
  captureLock := by
    intro c hc
    rw [h.captures_wait hdrain c] at hc
    cases hc
  reads := h.reads

theorem CamInv.drainAct (h : CamInv pool s) : CamInv pool (drainAct s) := by
  unfold Vision.drainAct
  cases hpc : s.drain with
  | loop =>
      dsimp only
      split_ifs
      · exact h.drain_goes_on (by rw [hpc]; rfl) rfl
      · exact h.drain_goes_on (by rw [hpc]; rfl) rfl
  | lock vbuf =>
      dsimp only
      split_ifs with hlock
      · exact h
      · have hplaces := h.places
        have hnobody := (h.nobody_holds (Option.not_isSome_iff_eq_none.mp hlock)).2
        rw [Cam.places, hpc] at hplaces
        refine ⟨hplaces, fun _ => rfl, fun c hc => ?_, h.reads⟩
        rw [hnobody c] at hc
        cases hc
  | swap vbuf =>
      have hholds : s.drain.holds = true := by
        rw [hpc]
        rfl
      refine ⟨?_, fun _ => h.drainLock hholds, h.captureLock, fun c b hb => ?_⟩
      · have hplaces := h.places
        rw [Cam.places, hpc, List.append_assoc] at hplaces
        show (s.driver ++ s.latest.toList ++ [vbuf]).Perm pool.bufs
        rw [List.append_assoc]
        exact (List.perm_append_comm.append_left s.driver).trans hplaces
      · -- no conversion goes on while the drain thread has the lock
        have hreader := CapturePc.holds_of_reads hb
        rw [h.captures_wait hholds c] at hreader
        cases hreader
  | unlock old =>
      have hholds : s.drain.holds = true := by
        rw [hpc]
        rfl
      cases old with
      | none => exact h.drain_unlocks hholds (by rw [hpc]; rfl) rfl
      | some old => exact h.drain_unlocks hholds (by rw [hpc]; rfl) rfl
  | dequeue => exact h
  | enqueue old => exact h
  | exited => exact h

theorem CamInv.dequeueAct [DecidableEq β] (h : CamInv pool s) (vbuf : Option β) :
    CamInv pool (dequeueAct vbuf s) := by
  unfold Vision.dequeueAct
  split
  · next hpc => exact h.drain_goes_on (by rw [hpc]; rfl) rfl
  · next vbuf hpc =>
      split_ifs with hmem
      · refine ⟨?_, nofun, h.captureLock, h.reads⟩
        have hplaces := h.places
        rw [Cam.places, hpc] at hplaces
        have hmoved : (s.driver.erase vbuf ++ [vbuf]).Perm (s.driver ++ []) := by
          rw [List.append_nil]
          exact List.perm_append_comm.trans (List.perm_cons_erase hmem).symm
        exact (hmoved.append_right s.latest.toList).trans hplaces
      · exact h
  · exact h

/-- A buffer that the driver takes is with the driver. -/
theorem CamInv.enqueueAct (h : CamInv pool s) : CamInv pool (enqueueAct true s) := by
  unfold Vision.enqueueAct
  split
  · next old hpc =>
      refine ⟨?_, nofun, h.captureLock, h.reads⟩
      have hplaces := h.places
      rw [Cam.places, hpc] at hplaces
      show (s.driver ++ [old] ++ [] ++ s.latest.toList).Perm pool.bufs
      rw [List.append_nil]
      exact hplaces
  · exact h

theorem camInv_start (pool : Pool β) : CamInv pool (Cam.start pool : Cam κ β) where
  places := by
    show (pool.bufs ++ [] ++ []).Perm pool.bufs
    rw [List.append_nil, List.append_nil]
  drainLock := nofun
  captureLock := nofun
  reads := nofun

variable [DecidableEq κ]

/-- A step of one capturing thread, which may take the lock or give it back. -/
theorem CamInv.capture_step (h : CamInv pool s) {c : κ} {pc : CapturePc β}
    {lock : Option (LockOwner κ)} (hdrain : s.drain.holds = true → lock = some .drain)
    (hself : pc.holds = true → lock = some (.capture c))
    (hother : ∀ c', c' ≠ c → (s.capture c').holds = true → lock = some (.capture c'))
    (hreads : ∀ b, pc.reads = some b → s.latest = some b) :
    CamInv pool { s.at c pc with latestLock := lock } where
  places := h.places
  drainLock := hdrain
  captureLock := by
    intro c' hc'
    change ((s.at c pc).capture c').holds = true at hc'
    by_cases heq : c' = c
    · subst heq
      rw [Cam.at_capture_self] at hc'
      exact hself hc'
    · rw [Cam.at_capture_of_ne s pc heq] at hc'
      exact hother c' heq hc'
  reads := by
    intro c' b hb
    change ((s.at c pc).capture c').reads = some b at hb
    by_cases heq : c' = c
    · subst heq
      rw [Cam.at_capture_self] at hb
      exact hreads b hb
    · rw [Cam.at_capture_of_ne s pc heq] at hb
      exact h.reads c' b hb

/-- A capturing thread goes on, with or without the lock. -/
theorem CamInv.capture_goes_on (h : CamInv pool s) {c : κ} {pc : CapturePc β}
    (hholds : pc.holds = true → s.latestLock = some (.capture c))
    (hreads : ∀ b, pc.reads = some b → s.latest = some b) : CamInv pool (s.at c pc) := by
  have hstep : CamInv pool { s.at c pc with latestLock := s.latestLock } :=
    h.capture_step h.drainLock hholds (fun c' _ => h.captureLock c') hreads
  exact hstep

/-- A capturing thread takes the lock. -/
theorem CamInv.capture_locks (h : CamInv pool s) (hfree : s.latestLock = none) {c : κ}
    {pc : CapturePc β} (hreads : pc.reads = none) :
    CamInv pool { s.at c pc with latestLock := some (.capture c) } := by
  obtain ⟨hdrain, hcapture⟩ := h.nobody_holds hfree
  refine h.capture_step ?_ (fun _ => rfl) ?_ ?_
  · intro hholds
    rw [hdrain] at hholds
    cases hholds
  · intro c' _ hholds
    rw [hcapture c'] at hholds
    cases hholds
  · intro b hb
    rw [hreads] at hb
    cases hb

/-- A capturing thread gives the lock back. -/
theorem CamInv.capture_unlocks (h : CamInv pool s) {c : κ} (hc : (s.capture c).holds = true)
    {pc : CapturePc β} (hholds : pc.holds = false) (hreads : pc.reads = none) :
    CamInv pool { s.at c pc with latestLock := none } := by
  refine h.capture_step ?_ ?_ ?_ ?_
  · intro hdrain
    rw [h.captures_wait hdrain c] at hc
    cases hc
  · intro hpc
    rw [hholds] at hpc
    cases hpc
  · intro c' hne hc'
    have hsame := (h.captureLock c hc).symm.trans (h.captureLock c' hc')
    exact absurd (LockOwner.capture.inj (Option.some.inj hsame)).symm hne
  · intro b hb
    rw [hreads] at hb
    cases hb

theorem CamInv.captureAct (h : CamInv pool s) (c : κ) : CamInv pool (captureAct c s).2 := by
  unfold Vision.captureAct
  cases hpc : s.capture c with
  | idle => exact h
  | lock snap =>
      dsimp only
      split_ifs with hlock
      · exact h
      · exact h.capture_locks (Option.not_isSome_iff_eq_none.mp hlock) rfl
  | test snap =>
      have hlock := h.captureLock c (by rw [hpc]; rfl)
      cases hlatest : s.latest with
      | none => exact h.capture_goes_on (fun _ => hlock) nofun
      | some b =>
          refine h.capture_goes_on (fun _ => hlock) fun b' hb' => ?_
          rw [hlatest]
          exact hb'
  | gray b snap =>
      have hlock := h.captureLock c (by rw [hpc]; rfl)
      dsimp only
      split
      · next hlatest =>
          refine h.capture_goes_on (fun _ => hlock) fun b' hb' => ?_
          rw [hlatest]
          exact hb'
      · exact h.capture_goes_on (fun _ => hlock) nofun
  | snapshot b =>
      have hlock := h.captureLock c (by rw [hpc]; rfl)
      exact h.capture_goes_on (fun _ => hlock) nofun
  | unlock snap found =>
      have hholds : (s.capture c).holds = true := by
        rw [hpc]
        rfl
      dsimp only
      split_ifs
      · exact h.capture_unlocks hholds rfl rfl
      · exact h.capture_unlocks hholds rfl rfl
  | sleep snap => exact h

variable [DecidableEq β]

/-- The driver takes the buffers that it is given. -/
def CamAct.Succeeds : CamAct κ β → Prop
  | .enqueue ok => ok = true
  | _ => True

theorem CamInv.step (h : CamInv pool s) (a : CamAct κ β) (ha : a.Succeeds) :
    CamInv pool (camStep a s).2 := by
  cases a with
  | drain => exact h.drainAct
  | dequeue vbuf => exact h.dequeueAct vbuf
  | enqueue ok =>
      obtain rfl : ok = true := ha
      exact h.enqueueAct
  | stop => exact ⟨h.places, h.drainLock, h.captureLock, h.reads⟩
  | call c snap =>
      show CamInv pool (callCapture c snap s)
      unfold callCapture
      split
      · exact h.capture_goes_on nofun nofun
      · exact h
  | capture c => exact h.captureAct c
  | deadline c before =>
      show CamInv pool (deadlineAct c before s).2
      unfold deadlineAct
      split
      · split_ifs
        · exact h.capture_goes_on nofun nofun
        · exact h.capture_goes_on nofun nofun
      · exact h

end Inv

/-- **The buffers of the camera are conserved**, and no conversion reads one that the driver owns, in
every state of every run of the drain thread and any number of capturing threads. -/
theorem camera_buffers_conserved {κ β : Type} [DecidableEq κ] [DecidableEq β]
    (alloc : ℕ → Option β) (enqueue : ℕ → ℤ)
    (halloc : ∀ i j b, alloc i = some b → alloc j = some b → i = j) (bufs : List β)
    (hinit : enqueueBuffers alloc enqueue numBufs = (0, bufs)) (acts : List (CamAct κ β))
    (henqueue : ∀ a ∈ acts, a.Succeeds) :
    Conserved (initPool alloc enqueue halloc hinit)
      (runState camStep acts (.start (initPool alloc enqueue halloc hinit))) := by
  have hrun := run_inv (P := CamInv (κ := κ) (initPool alloc enqueue halloc hinit))
    (fun a ha s h => h.step a (henqueue a ha)) (camInv_start _)
  exact hrun.conserved

/-- An allocator for three buffers. -/
def allocThree (i : ℕ) : Option ℕ := if i < 3 then some i else none

theorem allocThree_inj : ∀ i j b, allocThree i = some b → allocThree j = some b → i = j := by
  intro i j b hi hj
  unfold allocThree at hi hj
  split_ifs at hi hj
  exact (Option.some.inj hi).trans (Option.some.inj hj).symm

/-- The first frame becomes `latest`, and a thread starts to convert it while the next one is
waited for. -/
def firstFrame : List (CamAct Unit ℕ) :=
  [.call () true, .drain, .dequeue (some 0), .drain, .drain, .drain, .capture (), .capture (),
    .drain, .dequeue (some 1), .drain]

theorem camera_buffers_conserved_first_frame :
    let pool := initPool allocThree (fun _ => 0) allocThree_inj rfl
    let s := runState camStep firstFrame (.start pool)
    Conserved pool s ∧ (s.capture ()).reads = some 0 ∧ s.driver = [2] := by
  intro pool s
  have hsucceeds : ∀ a ∈ firstFrame, a.Succeeds := by simp [firstFrame, CamAct.Succeeds]
  exact ⟨camera_buffers_conserved allocThree (fun _ => 0) allocThree_inj _ rfl firstFrame hsucceeds,
    rfl, rfl⟩

end IotcDemos.Vision
