import Mathlib.Data.List.TakeWhile
import IotcDemos.Vision.Jobs

set_option autoImplicit false

/-! # Where models are fetched from

A `model-fetch` command names a URL, and a push of the platform a host and a resource. Both end in
`queue_model_job`. The strings pass through fields of different sizes, by copies that cut them.
-/

namespace IotcDemos.Vision

def httpsPrefix : Bytes := ascii "https://"

/-- The byte `'/'`. -/
def slashByte : UInt8 := 47

/-- What follows the prefix, up to the first `'/'`. -/
def urlHost (url : Bytes) : Bytes := (url.drop 8).takeWhile (· ≠ slashByte)

/-- What starts with that `'/'`; it is empty if there is none. -/
def urlPath (url : Bytes) : Bytes := (url.drop 8).dropWhile (· ≠ slashByte)

/-- `parse_https_url`: the host and the resource, or `none` for `-EINVAL`. -/
def parseHttpsUrl (url : Bytes) (hostLen resLen : ℕ) : Option (Bytes × Bytes) :=
  if url.take 8 ≠ httpsPrefix then none
  else if urlPath url = [] ∨ urlHost url = [] ∨ (urlHost url).length ≥ hostLen then none
  else if (urlPath url).length ≥ resLen then none
  else some (urlHost url, (urlPath url).take (resLen - 1))

/-- What `on_command` does for `model-fetch`: the note of the acknowledgement, if it fails, and
`model_jobq`. -/
def modelFetch (arg : Bytes) (ack : Option Bytes) (jobq : List ModelJob) :
    Option Bytes × List ModelJob :=
  match parseHttpsUrl arg 128 1024 with
  | none => (some (ascii "need https://host/path"), jobq)
  | some (host, res) =>
      match queueModelJob ⟨host, res, ack, false⟩ jobq with
      | (0, jobq) => (none, jobq)
      | (_, jobq) => (some (ascii "model transfer busy"), jobq)

/-- What a push changes. -/
structure PushState where
  lastModelUrl : Bytes
  jobq : List ModelJob

/-- `on_model_push`, with the acknowledgement of a failure. -/
def onModelPush (host res ack : Option Bytes) (s : PushState) : Option Sent × PushState :=
  let failed := fun note => ack.map fun ack => (⟨ack, .otaDownloadFailed, note⟩ : Sent)
  -- the URL is noted before the job is queued
  let lastModelUrl :=
    match res with
    | some res => (httpsPrefix ++ host.getD [] ++ res).take 1599
    | none => s.lastModelUrl
  match host, res with
  | some host, some res =>
      match queueModelJob ⟨host, res, ack, true⟩ s.jobq with
      | (0, jobq) => (none, ⟨lastModelUrl, jobq⟩)
      | (_, jobq) => (failed (ascii "model transfer busy"), ⟨lastModelUrl, jobq⟩)
  | _, _ => (failed (ascii "no download URL in model push"), ⟨lastModelUrl, s.jobq⟩)

/-! ## Nothing is cut -/

theorem urlHost_append_urlPath {url : Bytes} (h : url.take 8 = httpsPrefix) :
    httpsPrefix ++ urlHost url ++ urlPath url = url := by
  rw [List.append_assoc, urlHost, urlPath, List.takeWhile_append_dropWhile, ← h]
  exact List.take_append_drop 8 url

theorem slash_not_mem_urlHost (url : Bytes) : slashByte ∉ urlHost url := by
  intro hmem
  have hne := List.mem_takeWhile_imp hmem
  simp at hne

theorem urlPath_head {url : Bytes} (h : urlPath url ≠ []) :
    (urlPath url).head? = some slashByte := by
  have hhead := List.head?_dropWhile_not (· ≠ slashByte) (url.drop 8)
  cases hpath : urlPath url with
  | nil => exact absurd hpath h
  | cons c path =>
      rw [← urlPath, hpath] at hhead
      simpa using hhead

/-- What `parse_https_url` checks. -/
structure Fetchable (hostLen resLen : ℕ) (url : Bytes) : Prop where
  scheme : url.take 8 = httpsPrefix
  path : urlPath url ≠ []
  host : urlHost url ≠ []
  hostFits : (urlHost url).length < hostLen
  pathFits : (urlPath url).length < resLen

/-- A URL is taken apart without a loss, or refused. -/
theorem parseHttpsUrl_eq (url : Bytes) (hostLen resLen : ℕ) :
    (Fetchable hostLen resLen url ∧
      parseHttpsUrl url hostLen resLen = some (urlHost url, urlPath url)) ∨
    (¬ Fetchable hostLen resLen url ∧ parseHttpsUrl url hostLen resLen = none) := by
  unfold parseHttpsUrl
  split_ifs with hscheme hhost hpath
  · exact Or.inr ⟨fun h => hscheme h.scheme, rfl⟩
  · refine Or.inr ⟨fun h => ?_, rfl⟩
    rcases hhost with hnone | hempty | hlong
    · exact h.path hnone
    · exact h.host hempty
    · exact absurd h.hostFits (Nat.not_lt.mpr hlong)
  · exact Or.inr ⟨fun h => absurd h.pathFits (Nat.not_lt.mpr hpath), rfl⟩
  · rw [not_or, not_or, Nat.not_le] at hhost
    -- the check was stricter than the copy
    rw [List.take_of_length_le (by omega)]
    exact Or.inl ⟨⟨not_not.mp hscheme, hhost.1, hhost.2.1, hhost.2.2, Nat.not_le.mp hpath⟩, rfl⟩

/-- The strings of a queued job are not cut, and the queue stays as it is otherwise. -/
theorem queueModelJob_whole (r : Request) (jobq : List ModelJob) :
    (r.host.length < 128 ∧ r.res.length < 1664 ∧ jobq.length < msgqLen ∧
      r.job.host = r.host ∧ r.job.res = r.res ∧ queueModelJob r jobq = (0, jobq ++ [r.job])) ∨
    (¬ (r.host.length < 128 ∧ r.res.length < 1664 ∧ jobq.length < msgqLen) ∧
      ∃ ret, ret ≠ 0 ∧ queueModelJob r jobq = (ret, jobq)) := by
  unfold queueModelJob
  split_ifs with hlong
  · exact Or.inr ⟨by omega, -EINVAL, by decide, rfl⟩
  · by_cases hroom : jobq.length < msgqLen
    · rw [Fifo.offer_room _ hroom]
      refine Or.inl ⟨by omega, by omega, hroom, ?_, ?_, rfl⟩
      · exact List.take_of_length_le (by omega)
      · exact List.take_of_length_le (by omega)
    · rw [Fifo.offer_full _ hroom]
      exact Or.inr ⟨fun h => hroom h.2.2, -EBUSY, by decide, rfl⟩

/-- The job fetches exactly `url`. -/
structure Carries (job : ModelJob) (url : Bytes) : Prop where
  whole : httpsPrefix ++ job.host ++ job.res = url
  host : job.host ≠ []
  noSlash : slashByte ∉ job.host
  path : job.res.head? = some slashByte

/-- A `model-fetch` queues a job for its whole argument, or fails and queues nothing. -/
theorem modelFetch_cases (arg : Bytes) (ack : Option Bytes) (jobq : List ModelJob) :
    (Fetchable 128 1024 arg ∧ jobq.length < msgqLen ∧
      ∃ job, modelFetch arg ack jobq = (none, jobq ++ [job]) ∧ Carries job arg) ∨
    (¬ (Fetchable 128 1024 arg ∧ jobq.length < msgqLen) ∧
      ∃ note, modelFetch arg ack jobq = (some note, jobq)) := by
  unfold modelFetch
  rcases parseHttpsUrl_eq arg 128 1024 with ⟨hurl, hparse⟩ | ⟨hurl, hparse⟩
  · rw [hparse]
    rcases queueModelJob_whole ⟨urlHost arg, urlPath arg, ack, false⟩ jobq with
      ⟨-, -, hroom, hhost, hres, hq⟩ | ⟨hfull, ret, hret, hq⟩
    · refine Or.inl ⟨hurl, hroom, Request.job ⟨urlHost arg, urlPath arg, ack, false⟩, ?_, ?_⟩
      · simp only [hq]
      · refine ⟨?_, ?_, ?_, ?_⟩
        · rw [hhost, hres]
          exact urlHost_append_urlPath hurl.scheme
        · rw [hhost]
          exact hurl.host
        · rw [hhost]
          exact slash_not_mem_urlHost arg
        · rw [hres]
          exact urlPath_head hurl.path
    · -- only a full queue refuses what `parse_https_url` lets through
      refine Or.inr ⟨fun h => hfull ⟨hurl.hostFits, ?_, h.2⟩, ascii "model transfer busy", ?_⟩
      · exact hurl.pathFits.trans (by decide)
      · simp only [hq]
  · rw [hparse]
    exact Or.inr ⟨fun h => hurl h.1, _, rfl⟩

theorem not_fetchable_iff (url : Bytes) (hostLen resLen : ℕ) :
    ¬ Fetchable hostLen resLen url ↔
      url.take 8 ≠ httpsPrefix ∨ urlHost url = [] ∨ hostLen ≤ (urlHost url).length ∨
        urlPath url = [] ∨ resLen ≤ (urlPath url).length := by
  constructor
  · intro h
    by_contra hnone
    simp only [not_or, not_not, Nat.not_le] at hnone
    obtain ⟨hscheme, hhost, hhostFits, hpath, hpathFits⟩ := hnone
    exact h ⟨hscheme, hpath, hhost, hhostFits, hpathFits⟩
  · rintro (hbad | hbad | hbad | hbad | hbad) h
    · exact hbad h.scheme
    · exact h.host hbad
    · exact absurd h.hostFits (Nat.not_lt.mpr hbad)
    · exact h.path hbad
    · exact absurd h.pathFits (Nat.not_lt.mpr hbad)

/-- A push queues a job with its host and its resource, or leaves the queue as it is. -/
theorem onModelPush_jobq (host res ack : Option Bytes) (s : PushState) :
    (onModelPush host res ack s).2.jobq = s.jobq ∨
      ∃ job, (onModelPush host res ack s).2.jobq = s.jobq ++ [job] ∧
        host = some job.host ∧ res = some job.res := by
  cases host with
  | none => exact Or.inl rfl
  | some host =>
      cases res with
      | none => exact Or.inl rfl
      | some res =>
          unfold onModelPush
          rcases queueModelJob_whole ⟨host, res, ack, true⟩ s.jobq with
            ⟨-, -, -, hhost, hres, hq⟩ | ⟨-, ret, hret, hq⟩
          · refine Or.inr ⟨Request.job ⟨host, res, ack, true⟩, ?_, ?_, ?_⟩
            · simp only [hq]
            · rw [hhost]
            · rw [hres]
          · left
            simp only [hq]

/-- **A model URL is fetched whole or refused**, and the refused ones are known. -/
theorem model_url_whole_or_refused :
    (∀ (arg : Bytes) (ack : Option Bytes) (jobq : List ModelJob),
      ((∃ job, modelFetch arg ack jobq = (none, jobq ++ [job]) ∧ Carries job arg) ∨
        ∃ note, modelFetch arg ack jobq = (some note, jobq)) ∧
      ((modelFetch arg ack jobq).1 ≠ none ↔
        arg.take 8 ≠ httpsPrefix ∨ urlHost arg = [] ∨ 127 < (urlHost arg).length ∨
          urlPath arg = [] ∨ 1023 < (urlPath arg).length ∨ msgqLen ≤ jobq.length)) ∧
    (∀ (host res ack : Option Bytes) (s : PushState),
      (onModelPush host res ack s).2.jobq = s.jobq ∨
        ∃ job, (onModelPush host res ack s).2.jobq = s.jobq ++ [job] ∧
          host = some job.host ∧ res = some job.res) := by
  refine ⟨fun arg ack jobq => ?_, onModelPush_jobq⟩
  have hbad : ¬ (Fetchable 128 1024 arg ∧ jobq.length < msgqLen) ↔
      arg.take 8 ≠ httpsPrefix ∨ urlHost arg = [] ∨ 127 < (urlHost arg).length ∨
        urlPath arg = [] ∨ 1023 < (urlPath arg).length ∨ msgqLen ≤ jobq.length := by
    rw [not_and_or, not_fetchable_iff, Nat.not_lt]
    simp only [or_assoc]
    rfl
  rw [← hbad]
  rcases modelFetch_cases arg ack jobq with ⟨hurl, hroom, job, heq, hjob⟩ | ⟨hfail, note, heq⟩
  · rw [heq]
    exact ⟨Or.inl ⟨job, rfl, hjob⟩, fun h => absurd rfl h, fun h => absurd ⟨hurl, hroom⟩ h⟩
  · rw [heq]
    exact ⟨Or.inr ⟨note, rfl⟩, fun _ => hfail, fun _ => Option.some_ne_none note⟩

end IotcDemos.Vision
