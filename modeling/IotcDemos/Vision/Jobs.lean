import IotcDemos.Lib.Bytes
import IotcDemos.Lib.Errno
import IotcDemos.Lib.Fifo
import IotcDemos.Lib.Run

set_option autoImplicit false

/-! # Model jobs and their acknowledgements

The command thread queues download jobs, a worker carries them out, and the main loop sends the
acknowledgements while it is connected. Two message queues of two entries join the threads. A step
is one operation on a queue, so that a list of steps is an interleaving of the three threads.
-/

namespace IotcDemos.Vision

/-- The arguments of `queue_model_job`; `ack` may be `NULL`. -/
structure Request where
  host : Bytes
  res : Bytes
  ack : Option Bytes
  isOta : Bool
  deriving DecidableEq

/-- `struct model_job`. -/
structure ModelJob where
  host : Bytes
  res : Bytes
  ack : Bytes
  isOta : Bool
  deriving DecidableEq

/-- `struct model_result`. -/
structure ModelResult where
  ack : Bytes
  note : Bytes
  isOta : Bool
  ok : Bool
  deriving DecidableEq

/-- What the download and the installation of a job came to. -/
structure Outcome where
  ok : Bool
  note : Bytes
  deriving DecidableEq

inductive AckStatus where
  | otaDownloadDone
  | otaDownloadFailed
  | cmdSuccessWithAck
  | cmdFailed
  deriving DecidableEq

/-- An acknowledgement handed to the MQTT client. -/
structure Sent where
  ack : Bytes
  status : AckStatus
  note : Bytes
  deriving DecidableEq

/-- The number of entries of `model_jobq` and of `model_resq`. -/
def msgqLen : ℕ := 2

/-- The job that `queue_model_job` fills in; `snprintf` cuts each string to what its field holds
besides the terminator. -/
def Request.job (r : Request) : ModelJob where
  host := r.host.take 127
  res := r.res.take 1663
  ack := (r.ack.getD []).take 79
  isOta := r.isOta

/-- `queue_model_job`. -/
def queueModelJob (r : Request) (jobq : List ModelJob) : ℤ × List ModelJob :=
  if r.host.length ≥ 128 ∨ r.res.length ≥ 1664 then (-EINVAL, jobq)
  else
    let (taken, jobq') := Fifo.offer msgqLen r.job jobq
    (if taken then 0 else -EBUSY, jobq')

/-- The result that `model_worker` fills in. -/
def resultOf (job : ModelJob) (o : Outcome) : ModelResult where
  ack := job.ack
  note := o.note
  isOta := job.isOta
  ok := o.ok

/-- What `drain_model_results` sends for a result. -/
def ackOf (res : ModelResult) : Sent where
  ack := res.ack
  status :=
    if res.isOta then (if res.ok then .otaDownloadDone else .otaDownloadFailed)
    else (if res.ok then .cmdSuccessWithAck else .cmdFailed)
  note := res.note

/-- The queues, the job the worker is at, and whether the main loop is in its connected part. -/
structure Jobs where
  jobq : List ModelJob
  worker : Option ModelJob
  resq : List ModelResult
  connected : Bool
  deriving DecidableEq

def Jobs.start : Jobs where
  jobq := []
  worker := none
  resq := []
  connected := false

inductive JobAct where
  /-- The command thread, for `model-fetch` or a push. -/
  | queue (r : Request)
  /-- `k_msgq_get(&model_jobq, ..)` of the worker. -/
  | take
  /-- The job of the worker is done, and its result is put. -/
  | finish (o : Outcome)
  /-- The main loop enters or leaves its connected part. -/
  | connect
  | disconnect
  /-- One round of `drain_model_results`. -/
  | drain

/-- What a step shows to the outside. -/
inductive JobOut where
  | queued (r : Request) (ret : ℤ)
  | finished (job : ModelJob) (o : Outcome)
  | sent (m : Sent)
  | silent

def jobStep : JobAct → Jobs → JobOut × Jobs
  | .queue r, s =>
      let (ret, jobq) := queueModelJob r s.jobq
      (.queued r ret, { s with jobq := jobq })
  | .take, s =>
      match s.worker, s.jobq with
      | none, job :: jobq => (.silent, { s with worker := some job, jobq := jobq })
      | _, _ => (.silent, s)
  | .finish o, s =>
      match s.worker with
      -- the answer of the put is not looked at
      | some job => (.finished job o,
          { s with worker := none, resq := (Fifo.offer msgqLen (resultOf job o) s.resq).2 })
      | none => (.silent, s)
  | .connect, s => (.silent, { s with connected := true })
  | .disconnect, s => (.silent, { s with connected := false })
  | .drain, s =>
      match s.connected, s.resq with
      | true, res :: resq =>
          (if res.ack = [] then .silent else .sent (ackOf res), { s with resq := resq })
      | _, _ => (.silent, s)

/-! ## The accounts -/

/-- The jobs that `queue_model_job` returned 0 for. -/
def accepted (outs : List JobOut) : List Request :=
  outs.filterMap fun
    | .queued r ret => if ret = 0 then some r else none
    | _ => none

/-- The jobs that the worker has carried out, with their outcomes. -/
def finished (outs : List JobOut) : List (ModelJob × Outcome) :=
  outs.filterMap fun
    | .finished job o => some (job, o)
    | _ => none

/-- The acknowledgements that went out. -/
def sent (outs : List JobOut) : List Sent :=
  outs.filterMap fun
    | .sent m => some m
    | _ => none

/-- The acknowledgements that the outcomes of the finished jobs call for. -/
def dueAcks (outs : List JobOut) : List Sent :=
  (((finished outs).map fun p => resultOf p.1 p.2).filter fun res => res.ack ≠ []).map ackOf

/-- The ids among the `ack` fields of jobs; an empty one is none. -/
def ackIds (acks : List Bytes) : List Bytes := acks.filter fun a => a ≠ []

/-- Every accepted id has been acknowledged, with the outcome of its own job, or waits in one of
the three places, all of them in the order in which they were accepted. Ids shorter than 80
characters are not cut. -/
structure Accounted (outs : List JobOut) (s : Jobs) : Prop where
  ids : ackIds ((accepted outs).map fun r => r.job.ack) =
    (sent outs).map Sent.ack ++ ackIds (s.resq.map ModelResult.ack)
      ++ ackIds (s.worker.toList.map ModelJob.ack) ++ ackIds (s.jobq.map ModelJob.ack)
  own : sent outs <+: dueAcks outs
  whole : ∀ r ∈ accepted outs, ∀ id, r.ack = some id → id.length < 80 → r.job.ack = id

/-- A result with an id finds room in `model_resq`. -/
def ResultFits : JobAct → Jobs → Prop
  | .finish _, s => ∀ job, s.worker = some job → job.ack ≠ [] → s.resq.length < msgqLen
  | _, _ => True

/-- Accepted jobs are finished, in the worker or in `model_jobq`; what the finished ones call for
has gone out or waits in `model_resq`. -/
structure JobsInv (outs : List JobOut) (s : Jobs) : Prop where
  jobs : (accepted outs).map Request.job =
    (finished outs).map Prod.fst ++ s.worker.toList ++ s.jobq
  acks : dueAcks outs = sent outs ++ (s.resq.filter fun res => res.ack ≠ []).map ackOf

section Outs

variable (outs : List JobOut)

theorem accepted_snoc (out : JobOut) : accepted (outs ++ [out]) = accepted outs ++ accepted [out] :=
  List.filterMap_append

theorem finished_snoc (out : JobOut) : finished (outs ++ [out]) = finished outs ++ finished [out] :=
  List.filterMap_append

theorem sent_snoc (out : JobOut) : sent (outs ++ [out]) = sent outs ++ sent [out] :=
  List.filterMap_append

theorem dueAcks_snoc (out : JobOut) : dueAcks (outs ++ [out]) = dueAcks outs ++ dueAcks [out] := by
  simp only [dueAcks, finished_snoc, List.map_append, List.filter_append]

end Outs

/-- The queue of jobs grows exactly when `queue_model_job` returns 0. -/
theorem queueModelJob_cases (r : Request) (jobq : List ModelJob) :
    queueModelJob r jobq = (0, jobq ++ [r.job]) ∨
      ∃ ret, ret ≠ 0 ∧ queueModelJob r jobq = (ret, jobq) := by
  unfold queueModelJob
  split
  · exact Or.inr ⟨-EINVAL, by decide, rfl⟩
  · by_cases hroom : jobq.length < msgqLen
    · rw [Fifo.offer_room _ hroom]
      exact Or.inl rfl
    · rw [Fifo.offer_full _ hroom]
      exact Or.inr ⟨-EBUSY, by decide, rfl⟩

/-- A step that shows nothing and keeps the queues in their order keeps the accounts. -/
theorem JobsInv.silent {outs : List JobOut} {s s' : Jobs} (h : JobsInv outs s)
    (hjobs : s'.worker.toList ++ s'.jobq = s.worker.toList ++ s.jobq)
    (hacks : (s'.resq.filter fun res => res.ack ≠ []) = s.resq.filter fun res => res.ack ≠ []) :
    JobsInv (outs ++ [.silent]) s' where
  jobs := by
    have hacc : accepted (outs ++ [.silent]) = accepted outs := by simp [accepted]
    have hfin : finished (outs ++ [.silent]) = finished outs := by simp [finished]
    rw [hacc, hfin, h.jobs, List.append_assoc, List.append_assoc, hjobs]
  acks := by
    have hsent : sent (outs ++ [.silent]) = sent outs := by simp [sent]
    rw [dueAcks_snoc, hsent, h.acks, hacks]
    simp [dueAcks, finished]

/-- A step keeps the accounts, if it puts no result with an id into a full queue. -/
theorem jobStep_inv {a : JobAct} {outs : List JobOut} {s : Jobs} (hfits : ResultFits a s)
    (h : JobsInv outs s) : JobsInv (outs ++ [(jobStep a s).1]) (jobStep a s).2 := by
  obtain ⟨jobq, worker, resq, connected⟩ := s
  cases a with
  | queue r =>
      rcases queueModelJob_cases r jobq with hq | ⟨ret, hret, hq⟩
      · simp only [jobStep, hq]
        refine ⟨?_, ?_⟩
        · have hjobs := h.jobs
          simp only [accepted_snoc, finished_snoc, List.map_append] at hjobs ⊢
          rw [hjobs]
          simp [accepted, finished]
        · rw [dueAcks_snoc, sent_snoc, h.acks]
          simp [dueAcks, finished, sent]
      · simp only [jobStep, hq]
        refine ⟨?_, ?_⟩
        · rw [accepted_snoc, finished_snoc, List.map_append, h.jobs]
          simp [accepted, finished, hret]
        · rw [dueAcks_snoc, sent_snoc, h.acks]
          simp [dueAcks, finished, sent]
  | take =>
      cases worker with
      | some job => exact h.silent rfl rfl
      | none =>
          cases jobq with
          | nil => exact h.silent rfl rfl
          | cons job jobq => exact h.silent rfl rfl
  | finish o =>
      cases worker with
      | none => exact h.silent rfl rfl
      | some job =>
          refine ⟨?_, ?_⟩
          · have hjobs := h.jobs
            simp only [jobStep, accepted_snoc, finished_snoc, List.map_append] at hjobs ⊢
            rw [hjobs]
            simp [accepted, finished]
          · -- what the outcome calls for waits at the end of `model_resq`
            simp only [jobStep, dueAcks_snoc, sent_snoc, h.acks]
            by_cases hack : job.ack = []
            · -- nobody waits for this result, whether or not it is dropped
              have hskip : ∀ q : List ModelResult,
                  ((Fifo.offer msgqLen (resultOf job o) q).2.filter fun res => res.ack ≠ []) =
                    q.filter fun res => res.ack ≠ [] := by
                intro q
                unfold Fifo.offer
                split <;> simp [resultOf, hack]
              rw [hskip]
              simp [dueAcks, finished, sent, resultOf, hack]
            · rw [Fifo.offer_room _ (hfits job rfl hack)]
              simp [dueAcks, finished, sent, resultOf, hack]
  | connect => exact h.silent rfl rfl
  | disconnect => exact h.silent rfl rfl
  | drain =>
      cases connected with
      | false => exact h.silent rfl rfl
      | true =>
          cases resq with
          | nil => exact h.silent rfl rfl
          | cons res resq =>
              by_cases hack : res.ack = []
              · -- a result without an id is taken, and nothing is sent
                simp only [jobStep, hack, if_true]
                exact h.silent rfl (by simp [hack])
              · simp only [jobStep, hack, if_false]
                refine ⟨?_, ?_⟩
                · rw [accepted_snoc, finished_snoc, List.map_append, h.jobs]
                  simp [accepted, finished]
                · rw [dueAcks_snoc, sent_snoc, h.acks]
                  simp [dueAcks, finished, sent, hack]

/-- The accounts hold along a run in which every result with an id finds room. -/
theorem run_jobsInv {acts : List JobAct} (hfits : Along jobStep ResultFits acts Jobs.start) :
    JobsInv (run jobStep acts Jobs.start).1 (runState jobStep acts Jobs.start) := by
  have hstart : JobsInv [] Jobs.start := ⟨rfl, rfl⟩
  exact run_history_along (fun _ _ _ => jobStep_inv) hfits hstart

theorem dueAcks_ids (outs : List JobOut) :
    (dueAcks outs).map Sent.ack = ackIds ((finished outs).map fun p => p.1.ack) := by
  unfold dueAcks ackIds
  induction finished outs with
  | nil => rfl
  | cons p rest ih =>
      by_cases hack : p.1.ack = []
      · simpa [resultOf, hack] using ih
      · simpa [resultOf, ackOf, hack] using ih

theorem waiting_ids (resq : List ModelResult) :
    ((resq.filter fun res => res.ack ≠ []).map ackOf).map Sent.ack =
      ackIds (resq.map ModelResult.ack) := by
  unfold ackIds
  rw [List.filter_map, List.map_map]
  rfl

theorem JobsInv.accounted {outs : List JobOut} {s : Jobs} (h : JobsInv outs s) :
    Accounted outs s where
  ids := by
    calc ackIds ((accepted outs).map fun r => r.job.ack)
        = ackIds (((accepted outs).map Request.job).map ModelJob.ack) := by
          rw [List.map_map]
          rfl
      _ = ackIds ((finished outs).map fun p => p.1.ack)
            ++ ackIds (s.worker.toList.map ModelJob.ack) ++ ackIds (s.jobq.map ModelJob.ack) := by
          rw [h.jobs]
          simp only [ackIds, List.map_append, List.filter_append, List.map_map]
          rfl
      _ = _ := by rw [← dueAcks_ids, h.acks, List.map_append, waiting_ids]
  own := ⟨_, h.acks.symm⟩
  whole r _ id hid hlen := by
    show (r.ack.getD []).take 79 = id
    rw [hid, Option.getD_some, List.take_of_length_le (by omega)]

/-- A result with an id that finds no room is missing from the accounts. -/
theorem lost_not_accounted {outs : List JobOut} {s : Jobs} {job : ModelJob} (o : Outcome)
    (h : Accounted outs s) (hworker : s.worker = some job) (hack : job.ack ≠ [])
    (hfull : ¬ s.resq.length < msgqLen) :
    ¬ Accounted (outs ++ [(jobStep (.finish o) s).1]) (jobStep (.finish o) s).2 := by
  intro hafter
  -- an id is missing: the two lists have different lengths
  have hbefore := congrArg List.length h.ids
  have hids := congrArg List.length hafter.ids
  simp only [jobStep, hworker, Fifo.offer_full _ hfull, accepted_snoc, sent_snoc] at hids
  simp only [hworker] at hbefore
  simp [accepted, sent, ackIds, hack] at hids hbefore
  omega

/-- **Every accepted id is accounted for in every state of a run** exactly when no result with an
id meets a full `model_resq`. -/
theorem jobs_accounted_iff (acts : List JobAct) :
    (∀ pre, pre <+: acts →
      Accounted (run jobStep pre Jobs.start).1 (runState jobStep pre Jobs.start)) ↔
    Along jobStep ResultFits acts Jobs.start := by
  constructor
  · intro hall
    induction acts using List.reverseRecOn with
    | nil => exact trivial
    | append_singleton acts a ih =>
        have hbefore := hall acts (List.prefix_append acts [a])
        have hafter := hall (acts ++ [a]) List.prefix_rfl
        refine along_append.mpr ⟨?_, ?_, trivial⟩
        · exact ih fun pre hpre => hall pre (hpre.trans (List.prefix_append acts [a]))
        · rw [run_append, runState_append] at hafter
          cases a with
          | finish o =>
              intro job hworker hack
              -- the result would be lost
              by_contra hfull
              exact lost_not_accounted o hbefore hworker hack hfull hafter
          | queue r => exact trivial
          | take => exact trivial
          | connect => exact trivial
          | disconnect => exact trivial
          | drain => exact trivial
  · rintro hfits pre ⟨post, rfl⟩
    exact (run_jobsInv (along_append.mp hfits).1).accounted

/-- A `model-fetch` with an id of one character. -/
def fetchJob (id : UInt8) : Request where
  host := ascii "h"
  res := ascii "/m"
  ack := some [id]
  isOta := false

/-- Three jobs are queued, and all of them end before the main loop is connected again. -/
def threeJobs : List JobAct :=
  [.connect, .queue (fetchJob 1), .take, .queue (fetchJob 2), .queue (fetchJob 3), .disconnect,
    .finish ⟨true, []⟩, .take, .finish ⟨true, []⟩, .take, .finish ⟨true, []⟩,
    .connect, .drain, .drain]

/-- The third of them is never acknowledged. -/
theorem third_result_lost :
    accepted (run jobStep threeJobs Jobs.start).1 = [fetchJob 1, fetchJob 2, fetchJob 3] ∧
      (sent (run jobStep threeJobs Jobs.start).1).map Sent.ack = [[1], [2]] ∧
      runState jobStep threeJobs Jobs.start = { Jobs.start with connected := true } ∧
      ¬ Accounted (run jobStep threeJobs Jobs.start).1 (runState jobStep threeJobs Jobs.start) :=
  ⟨by decide, by decide, by decide, fun h => absurd h.ids (by decide)⟩

end IotcDemos.Vision
