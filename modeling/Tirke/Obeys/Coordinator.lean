import Tirke.Obeys.Collecting
/-!
# `process_once` obeys the law

`Ready v r` is what the coordinator finds when it starts on a meeting: a readable record, a durable folder,
no submission of an attempt whose flag still says so, and a manifest that belongs to the record's job.
`_reconcile_pending_jobs` keeps it, `_advance` starts from it.
-/

set_option linter.unusedSectionVars false

namespace Tirke

open CrashProg CrashDisk

variable [Lib] [Home] [Weather] {A : Env host} [Forecast A] {v v' : View} {r r' : MeetingRecord} {job job' : JobRecord}

/-! ## Saving and failing -/

theorem does_saveHeld (hr : v.run readRecord = .ok r) (m : ∀ t, Move v r (r'.touch t))
    (ha : r'.meeting.attempt = r.meeting.attempt) (hact : coordinating v.log)
    (hp : r'.meeting.status.published = false) :
    Does A Legal (saveHeld r') v fun out v' => match out with
      | .ok r'' => ∃ t, r'' = r'.touch t ∧ v' = v.marked (r'.touch t)
      | .error (e, _) => e = .osError ∧ MayFail A := by
  refine Does.bind (R := fun out v' => v' = v ∧ ∃ t, out = .ok t) ?_ ?_ ?_
  · exact Does.held (Does.now (Q := fun out v' => v' = v ∧ ∃ t, out = .ok t) fun t _ => ⟨rfl, t, rfl⟩)
      (fun t _ h => ⟨h.1, t, rfl⟩) fun e v' ⟨_, t, ht⟩ => by cases ht
  · rintro t v ⟨rfl, _, ht⟩
    cases ht
    refine Does.bind (R := fun out v' => match out with
        | .ok _ => v' = v.marked (r'.touch t)
        | .error (e, _) => e = .osError ∧ MayFail A) ?_ ?_ ?_
    · refine Does.held (does_update hr (m t) ha hact.acts) ?_ ?_
      · rintro meeting v' h
        cases h
        rfl
      · rintro e v' h
        cases h with
        | refused _ hp' => exact absurd (hp.symm.trans hp') (by simp)
        | nothing hf | shown hf | synced hf => exact ⟨rfl, hf⟩
    · rintro meeting v' rfl
      exact .ret ⟨t, rfl, rfl⟩
    · rintro ⟨e, r₁⟩ v' h
      exact h
  · rintro e v' ⟨-, t, ht⟩
    cases ht

/-- What `_fail` leaves: the record is on disk, unless the file system fails. -/
def Failed (A : Env host) (v : View) (r : MeetingRecord) (code : FailureCode) (out : Except Exn Meeting) (v' : View) : Prop :=
  match out with
  | .ok m => ∃ t b, m = { ((r.failed code).touch t).meeting with sourceAvailable := b } ∧
      v' = v.marked ((r.failed code).touch t)
  | .error e => e = .osError ∧ MayFail A

theorem does_fail {code : FailureCode} (h : Failable v r code) : Does A Legal (fail r code) v (Failed A v r code) := by
  obtain ⟨old, hr, ha, hm⟩ := h.failable
  refine Does.bind (does_save hr hm ha h.acting.acts) ?_ ?_
  · rintro ⟨r₁, m⟩ v' ⟨t, b, hx, hv, -⟩
    cases hx
    exact .ret ⟨t, b, rfl, hv⟩
  · rintro e v' ⟨t, hu⟩
    cases hu with
    | refused _ hp => cases hp
    | nothing hf | shown hf | synced hf => exact ⟨rfl, hf⟩

/-- Failing the meeting leaves nothing to fail again. -/
theorem does_failHeld {code : FailureCode} (h : Failable v r code) :
    Does A Legal (failHeld r code) v fun out v' => match out with
      | .ok m => Failed A v r code (.ok m) v'
      | .error (e, _) => e = .osError ∧ MayFail A :=
  Does.held (does_fail h) (fun _ _ hq => hq) fun _ _ he => he

/-! ## A known remote job -/

theorem Quiet.marked : Quiet v.log (v.marked r).log :=
  ((Frame.put (S := (· = marker)) rfl).trans (.sync _) : Frame (· = marker) v (v.marked r)).log

/-- Why a known remote job got the meeting nowhere. -/
inductive Unbound (A : Env host) (v : View) (r : MeetingRecord) (remote : JobV1) : Exn → View → Prop where
  | fault (v' : View) (h : MayFail A) : Unbound A v r remote .osError v'
  | stage (h : ({ r.meeting with status := .processing } : Meeting).validStage = false) :
      Unbound A v r remote .validation v
  | uncollected (t : Time) (e : Exn) (v' : View) (hc : remote.status = .completed)
      (h : Uncollected A (v.marked (((r.polled remote).progressed remote).touch t))
        (((r.polled remote).progressed remote).touch t) remote e v') : Unbound A v r remote e v'

/-- What a known remote job leaves. -/
def Bounded (A : Env host) (v : View) (r : MeetingRecord) (remote : JobV1)
    (out : Except (Exn × MeetingRecord) Meeting) (v' : View) : Prop :=
  match out with
  | .ok m => remote.status = .completed → ∃ t, Collected A (v.marked (((r.polled remote).progressed remote).touch t))
      (((r.polled remote).progressed remote).touch t) remote (.ok m) v'
  | .error (e, r') => (∀ code, e.code = some code → Failable v' r' code) ∧ Unbound A v r remote e v'

theorem Bounded.advanced {remote : JobV1} {out : Except (Exn × MeetingRecord) Meeting}
    (h : Bounded A v r remote out v') : Advanced out v' := by
  cases out with
  | ok m => trivial
  | error e => exact h.1

theorem polled_job {remote : JobV1} (hj : r.job = some job) :
    ((r.polled remote).progressed remote).job = some (job.polled remote) :=
  (job_setJob (f := JobRecord.polled remote) fun _ => rfl).trans (congrArg (Option.map (JobRecord.polled remote)) hj)

theorem Heard.recently {log : List Event} {remote : JobV1} (h : Heard log r job remote) :
    ∃ q, Tirke.told (current log) q remote := by
  have hcons : ∀ {q : Request}, hears log q remote → ∃ q, Tirke.told (current log) q remote := by
    rintro q ⟨a, rest, rfl, hin⟩
    exact ⟨q, a, List.mem_cons_self, hin⟩
  cases h with
  | polled _ ht | looked _ ht => exact hcons ht
  | submitted _ _ _ _ ht => exact hcons ht

/-- The remote job is the one the record knows, if it knows one. -/
theorem Heard.same {log : List Event} {remote : JobV1} (h : Heard log r job remote) :
    job.jobId.all (· = remote.jobId) = true := by
  cases h with
  | polled hid => simp [hid]
  | looked hid | submitted hid => simp [hid]

/-- Only an export in progress keeps a published record from going back to `processing`. -/
theorem approved_of_stage (hok : r.ok = true)
    (h : ({ r.meeting with status := .processing } : Meeting).validStage = false) : r.meeting.status = .approved := by
  have hst : r.meeting.validStage = true := (meeting_valid_iff.1 (ok_iff.1 hok).1).2.2.2.2
  simp only [Meeting.validStage] at h hst
  cases hs : r.meeting.stage with
  | none => rw [hs] at h; cases h
  | some s =>
    rw [hs] at h hst
    by_cases he : s = .exporting
    · simpa [he] using hst
    · simp [he] at h

theorem does_bound {remote : JobV1} (hr : v.run readRecord = .ok r) (hj : r.job = some job')
    (hjob : job.jobId = job'.jobId) (hh : Heard v.log r job' remote) (hs : r.meeting.status ≠ .failed)
    (hman : v.run readManifest = .error .notReady) (hroot : v.Rooted .folder) (hact : coordinating v.log) :
    Does A Legal (bound r job remote) v (Bounded A v r remote) := by
  obtain ⟨q, ht⟩ := hh.recently
  have hpoll : ∀ code, Cause v r code → Failable v (r.polled remote) code := fun code hw =>
    ⟨⟨r, hr, rfl, fun t => .polledFailed job' remote code t hs hj hh hman hw.code_ne hw⟩, hact⟩
  have hfail : ∀ code, Cause v r code → remote.status ≠ .completed →
      Does A Legal (failHeld (r.polled remote) code) v (Bounded A v r remote) := by
    intro code hw hn
    refine (does_failHeld (hpoll code hw)).mono ?_
    rintro (⟨e, r₁⟩ | m) v' he
    · obtain ⟨rfl, hf⟩ := he
      exact ⟨nofun, .fault _ hf⟩
    · exact fun h => absurd h hn
  have hsame : job.jobId.all (· = remote.jobId) = true := by rw [hjob]; exact hh.same
  refine Does.bind (R := fun out v' => v' = v ∧ out = .ok ()) ?_ ?_ ?_
  · refine Does.held does_demand (fun _ _ h => ⟨h.1, rfl⟩) ?_
    rintro e _ ⟨rfl, -, hno⟩
    rw [hsame] at hno
    cases hno
  swap
  · rintro x _ ⟨-, h⟩
    cases h
  rintro ⟨⟩ v ⟨rfl, -⟩
  simp only []
  split
  · next he => exact hfail _ (.jobExpired q remote ht he) (by simp [he])
  split
  · next he => exact hfail _ (.jobFailed q remote ht he) (by simp [he])
  next hne hnf =>
  refine Does.bind (R := fun out v' => v' = v ∧ match out with
      | .ok () => True
      | .error (e, r₁) => e = .validation ∧ r₁ = r.polled remote ∧
          ({ r.meeting with status := .processing } : Meeting).validStage = false) ?_ ?_ ?_
  · refine Does.held does_demand (fun _ _ h => ⟨h.1, trivial⟩) ?_
    rintro e v ⟨rfl, rfl, h⟩
    exact ⟨rfl, rfl, rfl, h⟩
  swap
  · rintro ⟨e, r₁⟩ v ⟨rfl, rfl, rfl, h⟩
    refine ⟨fun code hcode => ?_, .stage h⟩
    cases hcode
    exact hpoll _ (.unmarked (approved_of_stage (readable_ok hr) h) hman)
  rintro ⟨⟩ v ⟨rfl, -⟩
  have hmove : ∀ t, Move v r (((r.polled remote).progressed remote).touch t) := fun t =>
    .progressed job' remote t hs hj hh hman ⟨hne, hnf⟩
  refine Does.bind (does_saveHeld hr hmove rfl hact rfl) ?_ ?_
  swap
  · rintro ⟨e, r₁⟩ v' ⟨rfl, hf⟩
    exact ⟨nofun, .fault _ hf⟩
  rintro r₁ v₁ ⟨t, rfl, rfl⟩
  have hmove : Move v r (((r.polled remote).progressed remote).touch t) :=
    .progressed job' remote t hs hj hh hman ⟨hne, hnf⟩
  have hr₁ := hmove.readable_marked hr
  have hm₁ : (v.marked (((r.polled remote).progressed remote).touch t)).run readManifest = .error .notReady :=
    (run_sync readOnly_readManifest).trans ((readResults_mark hr (hmove.readable hr) rfl).1.trans hman)
  have hroot₁ : (v.marked (((r.polled remote).progressed remote).touch t)).Rooted .folder :=
    rooted_sync (v := v.mark _) ⟨hroot.now, hroot.later⟩ _
  split
  · next hc =>
    have ht₁ : ∃ q, told (current (v.marked (((r.polled remote).progressed remote).touch t)).log) q remote := by
      obtain ⟨a, ha, hin⟩ := ht
      exact ⟨q, a, Quiet.marked.mem_current ha, hin⟩
    refine Does.held (does_collect hr₁ (polled_job hj) rfl ht₁ rfl hm₁ hroot₁ hact) (fun m v' h _ => ⟨t, h⟩) ?_
    rintro e v' he
    refine ⟨fun code hcode => ?_, .uncollected t e v' hc he⟩
    cases he with
    | fault | stale => cases hcode
    | refused _ _ _ _ _ hf => exact hf code hcode
    | mismatch _ _ _ _ _ _ hf | conflict _ _ _ _ _ _ hf =>
      cases hcode
      exact hf
  · next hc =>
    refine Does.held does_readMeeting (fun _ _ _ h => absurd h hc) ?_
    rintro e v' ⟨rfl, he⟩
    obtain ⟨rfl, hf⟩ := he.fault hr₁ rfl
    exact ⟨nofun, .fault _ hf⟩

/-! ## A job that is not known yet -/

/-- The attempt may be submitted: it never was, or its key was looked up in vain in this action. -/
structure Sendable (log : List Event) (key : UUID × Nat) : Prop where
  fresh : key.2 ∉ submissions log ∨ ∃ a, (key, a) ∈ lookups (current log)
  absent : ∀ l ∈ lookups (current log), notFound l.2
  once : submissions (current log) = []

theorem Sendable.quiet {log log' : List Event} {key : UUID × Nat} (h : Sendable log key) (hq : Quiet log log') :
    Sendable log' key := by
  refine ⟨?_, ?_, ?_⟩
  · rw [hq.submissions, hq.lookups]; exact h.fresh
  · rw [hq.lookups]; exact h.absent
  · rw [hq.submitted]; exact h.once

/-- The record in hand is on disk, being processed, and its attempt has no job. -/
structure Unjobbed (v : View) (r : MeetingRecord) (job : JobRecord) : Prop where
  readable : v.run readRecord = .ok r
  processing : r.meeting.status = .processing
  isJob : r.job = some job
  unbound : job.jobId = none
  unpublished : v.run readManifest = .error .notReady
  rooted : v.Rooted .folder
  acting : coordinating v.log

theorem Unjobbed.failable {code : FailureCode} (h : Unjobbed v r job) (hw : Cause v r code) : Failable v r code :=
  failable_of h.readable (by rw [h.processing]; decide) (unpublished_of h.unpublished) h.acting hw

theorem Unjobbed.asked (h : Unjobbed v r job) (q : Request) (a : Response) :
    Unjobbed (v.note (.asked q a)) r job :=
  ⟨(run_note readOnly_readRecord).trans h.readable, h.processing, h.isJob, h.unbound,
    (run_note readOnly_readManifest).trans h.unpublished, ⟨h.rooted.now, h.rooted.later⟩, h.acting⟩

theorem Unjobbed.marked (h : Unjobbed v r job) (m : Move v r r') (ha : r'.meeting.attempt = r.meeting.attempt)
    (hs : r'.meeting.status = .processing) (hj : r'.job = some job') (hid : job'.jobId = none) :
    Unjobbed (v.marked r') r' job' :=
  ⟨m.readable_marked h.readable, hs, hj, hid,
    (run_sync readOnly_readManifest).trans ((readResults_mark h.readable (m.readable h.readable) ha).1.trans h.unpublished),
    rooted_sync (v := v.mark r') ⟨h.rooted.now, h.rooted.later⟩ _, h.acting⟩

theorem flagged_job (hj : r.job = some job) : r.flagged.job = some { job with submitStarted := some true } :=
  (job_setJob (f := fun j => { j with submitStarted := some true }) fun _ => rfl).trans
    (congrArg (Option.map fun j : JobRecord => { j with submitStarted := some true }) hj)

/-- What `upload_path` tells `_advance` of the recording. -/
def Located (v : View) (r : MeetingRecord) : Option Path → Prop
  | some p => p = (.folder, .upload) ∧ r.timely
  | none => Cause v r .sourceExpired

/-- `try: upload_path() except FileNotFoundError: …`. -/
theorem does_uploadPath (hr : v.run readRecord = .ok r) (hp : r.meeting.status.published = false) :
    Does A Legal (orNone uploadPath .fileNotFound) v fun out v' => v' = v ∧ match out with
      | .ok p => Located v r p
      | .error e => e = .osError ∧ MayFail A := by
  refine Does.handle (R := fun out v' => v' = v ∧ match out with
      | .ok p => Located v r p
      | .error e => (e = .osError ∧ MayFail A) ∨ e = .fileNotFound ∧ Cause v r .sourceExpired) ?_ (fun _ _ h => h) ?_
  · refine Does.bind (R := fun out v' => v' = v ∧ match out with
        | .ok p => Located v r (some p)
        | .error e => (e = .osError ∧ MayFail A) ∨ e = .fileNotFound ∧ Cause v r .sourceExpired) ?_ ?_ fun _ _ h => h
    · refine Does.bind does_readMeeting ?_ ?_
      · rintro m v ⟨rfl, hm⟩
        refine Does.bind does_demand ?_ ?_
        · rintro ⟨⟩ v ⟨rfl, hyes⟩
          exact .ret ⟨rfl, rfl, ((hm.available hr hp).timely hyes).2⟩
        · rintro e v ⟨rfl, rfl, hno⟩
          exact ⟨rfl, .inr ⟨rfl, (hm.available hr hp).cause hno⟩⟩
      · rintro e v ⟨rfl, he⟩
        exact ⟨rfl, .inl (he.fault hr hp)⟩
    · rintro p v ⟨rfl, h⟩
      exact .ret ⟨rfl, h⟩
  · rintro e v ⟨rfl, ⟨rfl, hf⟩ | ⟨rfl, h⟩⟩
    · exact .raise ⟨rfl, rfl, hf⟩
    · exact .ret ⟨rfl, h⟩

theorem advanced_fail {code : FailureCode} (h : Failable v r code) : Does A Legal (failHeld r code) v Advanced := by
  refine (does_failHeld h).mono ?_
  rintro (⟨e, r₁⟩ | x) v' he
  · obtain ⟨rfl, -⟩ := he
    exact nofun
  · trivial

theorem context_valid {audioSha256 : Sha256} (hok : r.ok = true) :
    (r.context audioSha256).valid Lib.validTimezone = true := by
  obtain ⟨hmeta, hatt, -⟩ := meeting_valid_iff.1 (ok_iff.1 hok).1
  simp only [MeetingMetadata.valid, Bool.and_eq_true] at hmeta
  obtain ⟨⟨⟨⟨⟨-, hlen⟩, hnames⟩, hdup⟩, -⟩, hzone⟩ := hmeta
  simp only [GPUContextV1.valid, MeetingRecord.context, Bool.and_eq_true]
  exact ⟨⟨⟨⟨decide_eq_true hatt, hzone⟩, hlen⟩, hnames⟩, hdup⟩

theorem does_submitNew (h : Unjobbed v r job') (hid : job.jobId = none)
    (hsend : Sendable v.log (r.meeting.id, r.meeting.attempt)) : Does A Legal (submitNew r job) v Advanced := by
  have hfail : Cause v r .sourceExpired → Does A Legal (failHeld r .sourceExpired) v Advanced := fun hw =>
    advanced_fail (h.failable hw)
  unfold submitNew
  split
  · next hnone => exact hfail (.unhashed hnone)
  next audioSha256 haudio =>
  refine Does.bind (R := fun out v' => v' = v ∧ Outcome (Located v r) (fun x => x.1 = .osError ∧ MayFail A) out)
    ?_ ?_ ?_
  · exact Does.held (does_uploadPath h.readable (by rw [h.processing]; rfl)) (fun _ _ h => h) fun _ _ h => h
  swap
  · rintro ⟨e, r₁⟩ v' ⟨-, rfl, -⟩
    rintro _ ⟨⟩
  rintro path v ⟨rfl, hpath⟩
  cases path with
  | none => exact hfail hpath
  | some path =>
    obtain ⟨rfl, htimely⟩ := hpath
    simp only [demand, context_valid (readable_ok h.readable), if_true]
    change Does A Legal ((saveHeld r.flagged).bind _) v Advanced
    have hmove : ∀ t, Move v r (r.flagged.touch t) := fun t => .flagged job' t h.processing h.isJob h.unbound
    refine Does.bind (does_saveHeld h.readable hmove rfl h.acting (by
      show r.meeting.status.published = false
      rw [h.processing]; rfl)) ?_ ?_
    swap
    · rintro ⟨e, r₁⟩ v' ⟨rfl, -⟩
      rintro _ ⟨⟩
    rintro r₁ v₁ ⟨t, rfl, rfl⟩
    have h₁ : Unjobbed (v.marked (r.flagged.touch t)) (r.flagged.touch t) { job' with submitStarted := some true } :=
      h.marked (hmove t) rfl h.processing (flagged_job h.isJob) h.unbound
    have hdur : (v.marked (r.flagged.touch t)).img.dur marker = some (.record (r.flagged.touch t)) := by
      have hd : (v.marked (r.flagged.touch t)).img.dur marker = (v.marked (r.flagged.touch t)).img.vol marker :=
        dur_sync_self (q := marker)
      rw [hd]
      exact vol_of_look (readable_look h₁.readable)
    have hsend₁ : Sendable (v.marked (r.flagged.touch t)).log (r.meeting.id, r.meeting.attempt) := hsend.quiet .marked
    have hlaw : ∀ audio a, (v.marked (r.flagged.touch t)).look (.folder, .upload) = some audio →
        Legal (v.marked (r.flagged.touch t)) (.asked (.submit (r.meeting.id, r.meeting.attempt)
          ((r.flagged.touch t).context audioSha256) audio r.audioExtension) a) := fun audio a hu =>
      .submit _ _ audio _ a (r.flagged.touch t) _ audioSha256
        ⟨h₁.readable, hdur, h₁.isJob, h₁.unbound, rfl, haudio, hu, rfl, rfl, rfl, hsend₁.fresh, hsend₁.absent,
          hsend₁.once, htimely⟩
    generalize v.marked (r.flagged.touch t) = v₁ at *
    refine Does.bind (R := fun out v' => Outcome
        (fun remote => Unjobbed v' (r.flagged.touch t) { job' with submitStarted := some true } ∧
          Heard v'.log (r.flagged.touch t) { job' with submitStarted := some true } remote)
        (fun x => ∀ code, x.1.code = some code → Failable v' x.2 code) out) ?_ ?_ ?_
    · refine Does.held (does_submit (c := (r.flagged.touch t).context audioSha256) (fun audio a hu => hlaw audio a hu))
        ?_ ?_
      · rintro remote v' hs
        generalize hout : (Except.ok remote : Except Exn JobV1) = out at hs
        cases hs with
        | unsent _ => cases hout
        | sent audio a ha hu =>
          exact ⟨h₁.asked _ a, .submitted h.unbound _ audio _ ⟨a, _, rfl, hout.symm⟩⟩
      · rintro e v' hs code hcode
        generalize hout : (Except.error e : Except Exn JobV1) = out at hs
        cases hs with
        | unsent hu =>
          cases hout
          cases hcode
          rcases hu with hu | hu
          · exact h₁.failable (.absent hu)
          · exact h₁.failable (.unread hu.fails)
        | sent audio a ha hu =>
          refine (h₁.asked _ a).failable (.refused (a := a) List.mem_cons_self ?_ (fun _ _ _ => ?_) hcode)
          · exact hout.symm
          · rintro ⟨⟩
    · rintro remote v' ⟨h₂, hh⟩
      exact (does_bound h₂.readable h₂.isJob (hid.trans h₂.unbound.symm) hh (by rw [h₂.processing]; decide)
        h₂.unpublished h₂.rooted h₂.acting).mono fun _ _ => Bounded.advanced
    · rintro ⟨e, r₁⟩ v' hf
      exact hf

/-- What a lookup leaves. -/
inductive LookedUp (v : View) (r : MeetingRecord) (a : Response) : Except Exn Lookup → Prop where
  | pending (status : Nat) (h : jobIn 200 a = .error (.gpuDomain status .submissionPending)) :
      LookedUp v r a (.ok .pending)
  | absent (h : notFound a) : LookedUp v r a (.ok .absent)
  | found (remote : JobV1) (h : jobIn 200 a = .ok remote) : LookedUp v r a (.ok (.found remote))
  | failed (e : Exn) (h : jobIn 200 a = .error e) (hp : ∀ status, e ≠ .gpuDomain status .submissionPending)
      (hn : ∀ status, e ≠ .gpuDomain status .jobNotFound) : LookedUp v r a (.error e)

theorem does_lookup : Does A Legal (lookup r) v fun out v' =>
    ∃ a, MayAnswer A (.getJobByKey (r.meeting.id, r.meeting.attempt)) a ∧ LookedUp v r a out ∧
      v' = v.note (.asked (.getJobByKey (r.meeting.id, r.meeting.attempt)) a) := by
  refine Does.handle (R := fun out v' => ∃ a, MayAnswer A (.getJobByKey (r.meeting.id, r.meeting.attempt)) a ∧
    v' = v.note (.asked (.getJobByKey (r.meeting.id, r.meeting.attempt)) a) ∧ match out with
    | .ok found => ∃ remote, found = .found remote ∧ jobIn 200 a = .ok remote
    | .error e => jobIn 200 a = .error e) ?_ ?_ ?_
  · refine Does.bind does_getJobByKey ?_ ?_
    · rintro remote v' ⟨a, hmay, ha, rfl⟩
      exact .ret ⟨a, hmay, rfl, remote, rfl, ha.symm⟩
    · rintro e v' ⟨a, hmay, ha, rfl⟩
      exact ⟨a, hmay, rfl, ha.symm⟩
  · rintro found v' ⟨a, hmay, rfl, remote, rfl, ha⟩
    exact ⟨a, hmay, .found remote ha, rfl⟩
  · rintro e v' ⟨a, hmay, rfl, ha⟩
    split
    · exact .ret ⟨a, hmay, .pending _ ha, rfl⟩
    · exact .ret ⟨a, hmay, .absent ⟨_, ha⟩, rfl⟩
    · next hp hn => exact .raise ⟨a, hmay, .failed _ ha hp hn, rfl⟩

/-- Showing a record that is not published fails nothing. -/
theorem advanced_readMeeting (hr : v.run readRecord = .ok r) (hp : r.meeting.status.published = false) :
    Does A Legal (held r' readMeeting) v Advanced := by
  refine Does.held does_readMeeting (fun _ _ _ => trivial) ?_
  rintro e v ⟨rfl, he⟩
  obtain ⟨rfl, -⟩ := he.fault hr hp
  exact nofun

/-! ## `_advance` -/

structure Ready (v : View) (r : MeetingRecord) : Prop where
  readable : v.run readRecord = .ok r
  rooted : v.Rooted .folder
  acting : coordinating v.log
  unasked : lookups (current v.log) = []
  unsent : submissions (current v.log) = []
  fresh : ∀ job, r.job = some job → job.submitStarted = some false → r.meeting.attempt ∉ submissions v.log
  bound : ∀ m, v.run readManifest = .ok m → r.meeting.status ≠ .failed →
    r.meeting.status.published = true ∧ r.boundTo m

theorem does_advanceNew (h : Ready v r) (hs : r.meeting.status ≠ .failed) (hj : r.job = some job)
    (hid : job.jobId = none) (hman : v.run readManifest = .error .notReady) :
    Does A Legal (advanceNew r job) v Advanced := by
  refine Does.bind (R := fun out v' => v' = v ∧ match out with
      | .ok () => True
      | .error (e, r₁) => r₁ = r ∧ e = .validation ∧
          ({ r.meeting with status := .processing } : Meeting).validStage = false) ?_ ?_ ?_
  · exact Does.held does_demand (fun _ _ h => ⟨h.1, trivial⟩) fun _ _ h => ⟨h.1, rfl, h.2⟩
  swap
  · rintro ⟨e, r₁⟩ v ⟨rfl, rfl, rfl, hstage⟩ code hcode
    cases hcode
    exact failable_of h.readable hs (unpublished_of hman) h.acting
      (.unmarked (approved_of_stage (readable_ok h.readable) hstage) hman)
  rintro ⟨⟩ v ⟨rfl, -⟩
  have hmove : ∀ t, Move v r (r.begun.touch t) := fun t => .begun job t hs hj hid hman
  refine Does.bind (does_saveHeld h.readable hmove rfl h.acting rfl) ?_ ?_
  swap
  · rintro ⟨e, r₁⟩ v' ⟨rfl, -⟩
    exact nofun
  rintro r₁ v₁ ⟨t, rfl, rfl⟩
  have h₁ : Unjobbed (v.marked (r.begun.touch t)) (r.begun.touch t) job :=
    ⟨(hmove t).readable_marked h.readable, rfl, hj, hid, (run_sync readOnly_readManifest).trans
      ((readResults_mark h.readable ((hmove t).readable h.readable) rfl).1.trans hman),
      rooted_sync (v := v.mark _) ⟨h.rooted.now, h.rooted.later⟩ _, h.acting⟩
  have hq : Quiet v.log (v.marked (r.begun.touch t)).log := .marked
  split
  · next hflag =>
    refine does_submitNew h₁ hid ⟨.inl ?_, ?_, ?_⟩
    · rw [hq.submissions]; exact h.fresh job hj hflag
    · rw [hq.lookups, h.unasked]; simp
    · rw [hq.submitted]; exact h.unsent
  · refine Does.bind (R := fun out v' => ∃ a, v' = (v.marked (r.begun.touch t)).note
        (.asked (.getJobByKey ((r.begun.touch t).meeting.id, (r.begun.touch t).meeting.attempt)) a) ∧ match out with
      | .ok found => LookedUp (v.marked (r.begun.touch t)) (r.begun.touch t) a (.ok found)
      | .error (e, r₁) => r₁ = r.begun.touch t ∧ LookedUp (v.marked (r.begun.touch t)) (r.begun.touch t) a (.error e))
        ?_ ?_ ?_
    · exact Does.held does_lookup (fun _ _ ⟨a, _, ha, hv⟩ => ⟨a, hv, ha⟩) fun _ _ ⟨a, _, ha, hv⟩ => ⟨a, hv, rfl, ha⟩
    swap
    · rintro ⟨e, r₁⟩ v' ⟨a, rfl, rfl, hfailed⟩ code hcode
      cases hfailed with
      | failed e he hp =>
        refine (h₁.asked _ a).failable (.refused (a := a) List.mem_cons_self he (fun status key heq => ?_) hcode)
        exact absurd heq (hp status)
    rintro found v' ⟨a, rfl, hfound⟩
    have h₂ := h₁.asked (.getJobByKey ((r.begun.touch t).meeting.id, (r.begun.touch t).meeting.attempt)) a
    cases hfound with
    | pending => exact advanced_readMeeting h₂.readable rfl
    | absent hnf =>
      refine does_submitNew h₂ hid ⟨.inr ⟨a, List.mem_cons_self⟩, ?_, ?_⟩
      · intro l hl
        replace hl : l ∈ (((r.begun.touch t).meeting.id, (r.begun.touch t).meeting.attempt), a) ::
          lookups (current (v.marked (r.begun.touch t)).log) := hl
        rw [hq.lookups, h.unasked, List.mem_singleton] at hl
        exact hl ▸ hnf
      · exact (hq.submitted).trans h.unsent
    | found remote hin =>
      exact (does_bound h₂.readable h₂.isJob rfl (.looked hid ⟨a, _, rfl, hin⟩) nofun
        h₂.unpublished h₂.rooted h₂.acting).mono fun _ _ => Bounded.advanced

/-- What `read_manifest` tells `_advance`. -/
theorem does_orManifest : Does A Legal (orNone readManifest .notReady) v fun out v' => v' = v ∧ match out with
    | .ok (some m) => v.run readManifest = .ok m
    | .ok none => v.run readManifest = .error .notReady
    | .error e => v.run readManifest = .error e ∧ e ≠ .notReady ∨ e = .osError ∧ MayFail A := by
  refine Does.handle (R := fun out v' => v' = v ∧ (out = (v.run readManifest).map some ∨ out = .error .osError ∧ MayFail A))
    ?_ ?_ ?_
  · refine Does.readThen readOnly_readManifest (fun m hm => .ret ⟨rfl, .inl ?_⟩) (fun e he => ⟨rfl, .inl ?_⟩)
      fun hf => ⟨rfl, .inr ⟨rfl, hf⟩⟩
    · rw [hm]; rfl
    · rw [he]; rfl
  · rintro found v ⟨rfl, h | ⟨h, -⟩⟩
    · cases hm : v.run readManifest with
      | ok m => rw [hm] at h; cases h; exact ⟨rfl, rfl⟩
      | error e => rw [hm] at h; cases h
    · cases h
  · rintro e v ⟨rfl, h | ⟨h, hf⟩⟩
    · cases hm : v.run readManifest with
      | ok m => rw [hm] at h; cases h
      | error e' =>
        rw [hm] at h
        cases h
        split
        · next he => subst he; exact .ret ⟨rfl, rfl⟩
        · next he => exact .raise ⟨rfl, .inl ⟨rfl, he⟩⟩
    · cases h
      exact .raise ⟨rfl, .inr ⟨rfl, hf⟩⟩

theorem does_advance (h : Ready v r) : Does A Legal (advance r) v Advanced := by
  unfold advance
  split
  · next hs => exact advanced_readMeeting h.readable (by rw [hs]; rfl)
  next hs =>
  split
  · exact .raise (by rintro _ ⟨⟩)
  next job hj =>
  refine Does.bind (R := fun out v' => v' = v ∧ Outcome (fun m => v.run readManifest = m.elim (.error .notReady) .ok)
      (fun x => x.2 = r ∧ (v.run readManifest = .error x.1 ∧ x.1 ≠ .notReady ∨ x.1 = .osError ∧ MayFail A)) out)
    ?_ ?_ ?_
  · exact Does.held does_orManifest (fun m _ h => ⟨h.1, by cases m <;> exact h.2⟩) fun _ _ h => ⟨h.1, rfl, h.2⟩
  swap
  · rintro ⟨e, r₁⟩ v ⟨rfl, rfl, ⟨hman, -⟩ | ⟨rfl, -⟩⟩
    · intro code hcode
      have hres : v.run readResults = .error e := by rw [readResults, Prog.bind_eq, run_bind, hman]; rfl
      exact failable_of h.readable hs (unpublished_of hman) h.acting (.inconsistent hres hcode)
    · rintro _ ⟨⟩
  rintro (_ | m) v ⟨rfl, hman⟩
  · cases hid : job.jobId with
    | none => exact does_advanceNew h hs hj hid hman
    | some id =>
      simp only []
      refine Does.bind (R := fun out v' => ∃ a, v' = v.note (.asked (.getJob id) a) ∧
          Outcome (fun remote => heardJob id a = .ok remote) (fun x => x.2 = r ∧ heardJob id a = .error x.1) out)
        ?_ ?_ ?_
      · refine Does.held does_getJob ?_ ?_
        · rintro remote v' ⟨a, -, ha, hv⟩
          exact ⟨a, hv, ha.symm⟩
        · rintro e v' ⟨a, -, ha, hv⟩
          exact ⟨a, hv, rfl, ha.symm⟩
      swap
      · rintro ⟨e, r₁⟩ v' ⟨a, rfl, rfl, he⟩ code hcode
        have hact : coordinating (v.note (.asked (.getJob id) a)).log := h.acting
        refine failable_of ((run_note readOnly_readRecord).trans h.readable) hs
          (unpublished_of ((run_note readOnly_readManifest).trans hman)) hact ?_
        exact .refused (q := .getJob id) (a := a) List.mem_cons_self he (by simp) hcode
      rintro remote v' ⟨a, rfl, ha⟩
      obtain ⟨hin, hrid⟩ := heardJob_ok.1 ha
      subst hrid
      exact (does_bound ((run_note readOnly_readRecord).trans h.readable) hj rfl (.polled hid ⟨a, _, rfl, hin⟩)
        hs ((run_note readOnly_readManifest).trans hman) ⟨h.rooted.now, h.rooted.later⟩ h.acting).mono
          fun _ _ => Bounded.advanced
  · obtain ⟨hp, hb⟩ := h.bound m hman hs
    refine Does.held (does_resume h.readable hman hb hp h.rooted h.acting) (fun _ _ _ => trivial) ?_
    rintro e v' (⟨rfl, -⟩ | ⟨rfl, hx⟩)
    · rintro _ ⟨⟩
    · intro code hcode
      refine failable_of h.readable hs (fun x hx' => ?_) h.acting (.inconsistent hx hcode)
      rw [hx] at hx'
      cases hx'

end Tirke
