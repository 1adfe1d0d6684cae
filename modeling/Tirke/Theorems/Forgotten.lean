import Tirke.Theorems.Lifecycle
/-!
# When the GPU forgets a job

After the deadline, a GPU that knows nothing of a meeting leaves `_advance` two ways. If the attempt has no
`job_id`, the lookup, or the upload that has expired, leads to `source_expired`. If it has one, the poll is answered
`job_not_found`, and `_process` returns the meeting as it was (`coordinator.py:82`).
-/

set_option linter.unusedSectionVars false

namespace Tirke

open CrashProg CrashDisk

/-- The GPU does not know what it is asked for. -/
def notKnown : Response := .http 404 (.error (some .jobNotFound))

/-- Nothing fails, and the GPU knows nothing. -/
def forgetful : Env host := fun _ _ ch => ch.fault = none ∧ ch.answer = notKnown

/-- Nor does the clock show a time before `d`. -/
def forgetfulAfter (d : Time) : Env host := fun w o ch => forgetful w o ch ∧ d ≤ w.clock + ch.elapsed

section
variable [Lib] [Home]

/-! ## One use -/

section
variable [Weather] {A : Env host} [Forecast A] {v v' : View} {r r' : MeetingRecord} {job : JobRecord} {d : Time}

structure Forgets (A : Env host) (d : Time) : Prop where
  calm : ¬ MayFail A
  answers : ∀ q a, MayAnswer A q a → a = notKnown
  late : ∀ t, Weather.shows t → d ≤ t

theorem jobIn_notKnown : jobIn 200 notKnown = .error (.gpuDomain 404 .jobNotFound) := rfl

theorem heardJob_notKnown {id : UUID} : heardJob id notKnown = .error (.gpuDomain 404 .jobNotFound) := by
  rw [heardJob, jobIn_notKnown]
  rfl

/-- Nothing is learned of earlier jobs. -/
theorem does_reconcile_forgotten (hf : Forgets A d) (h : Ready v r) :
    Does A Legal (reconcilePendingJobs r) v fun out v' => out = .ok r ∧ Ready v' r ∧ Frame (· = marker) v v' := by
  have hno : ¬ ∃ job ∈ r.jobs, Confirms A r job := by
    rintro ⟨job, -, id, a, remote, -, -, ha, hin, -⟩
    rw [hf.answers _ _ ha, heardJob_notKnown] at hin
    cases hin
  refine (does_reconcilePendingJobs h).mono ?_
  rintro (e | r') v' hq
  · rcases hq with ⟨-, hfault⟩ | ⟨-, -, hconf⟩
    · exact absurd hfault hf.calm
    · exact absurd hconf hno
  · obtain ⟨hready, hframe, -, -, -, ⟨rfl, -⟩ | ⟨-, hconf, -⟩⟩ := hq
    · exact ⟨rfl, hready, hframe⟩
    · exact absurd hconf hno

/-- The manifest is looked for in vain. -/
theorem does_noManifest (hf : Forgets A d) (hm : v.run readManifest = .error .notReady) :
    Does A Legal (held r (orNone readManifest .notReady)) v fun out v' => out = .ok none ∧ v' = v := by
  refine Does.held does_orManifest ?_ ?_
  · rintro (_ | m) v' ⟨rfl, h⟩
    · exact ⟨rfl, rfl⟩
    · rw [hm] at h
      cases h
  · rintro e v' ⟨rfl, ⟨h, hne⟩ | ⟨-, hfault⟩⟩
    · rw [hm] at h
      cases h
      exact absurd rfl hne
    · exact absurd hfault hf.calm

/-- A job that is known by its id is asked for in vain, and the record is left as it is. -/
theorem does_poll_forgotten (hf : Forgets A d) (h : Ready v r) (hs : r.meeting.status ≠ .failed) (hj : r.job = some job)
    {id : UUID} (hid : job.jobId = some id) (hm : v.run readManifest = .error .notReady) :
    Does A Legal (advance r) v fun out v' => out = .error (.gpuDomain 404 .jobNotFound, r) ∧
      v' = v.note (.asked (.getJob id) notKnown) := by
  unfold advance
  rw [if_neg hs, hj]
  refine Does.bind (does_noManifest hf hm) ?_ ?_
  swap
  · rintro x v' ⟨hx, -⟩
    cases hx
  rintro found v ⟨hfound, rfl⟩
  cases hfound
  simp only [hid]
  refine Does.bind (R := fun out v' => out = .error (.gpuDomain 404 .jobNotFound, r) ∧
    v' = v.note (.asked (.getJob id) notKnown)) ?_ ?_ ?_
  · refine Does.held does_getJob ?_ ?_
    · rintro remote v' ⟨a, ha, hin, -⟩
      rw [hf.answers _ _ ha, heardJob_notKnown] at hin
      cases hin
    · rintro e v' ⟨a, ha, hin, rfl⟩
      rw [hf.answers _ _ ha, heardJob_notKnown] at hin
      cases hin
      exact ⟨rfl, by rw [hf.answers _ _ ha]⟩
  · rintro remote v' ⟨hx, -⟩
    cases hx
  · rintro x v' ⟨hx, hv⟩
    cases hx
    exact ⟨rfl, hv⟩

/-- The meeting is failed with `source_expired`, and that is on disk. -/
structure SourceExpired (n : Nat) (m : Meeting) (v' : View) : Prop where
  shown : m.status = .failed ∧ m.failure = some ⟨.sourceExpired, failureMessage .sourceExpired⟩ ∧ m.attempt = n
  record : ∃ r', v'.run readRecord = .ok r' ∧ r'.meeting.status = .failed ∧
    r'.meeting.failure = some ⟨.sourceExpired, failureMessage .sourceExpired⟩

theorem does_expire (hf : Forgets A d) (h : Unjobbed v r job) (hw : Cause v r .sourceExpired) :
    Does A Legal (failHeld r .sourceExpired) v fun out v' => ∃ m, out = .ok m ∧ SourceExpired r.meeting.attempt m v' := by
  obtain ⟨old, hr, ha, hmove⟩ := (h.failable hw).failable
  refine (does_failHeld (h.failable hw)).mono ?_
  rintro (⟨e, r₁⟩ | m) v' hq
  · exact absurd hq.2 hf.calm
  · obtain ⟨t, b, rfl, rfl⟩ := hq
    exact ⟨_, rfl, ⟨rfl, rfl, rfl⟩, _, (hmove t).readable_marked hr, rfl, rfl⟩

/-- Nothing can be submitted after the deadline. -/
theorem does_submit_forgotten (hf : Forgets A d) (h : Unjobbed v r job) (hd : r.meeting.temporaryExpiresAt = some d)
    {job' : JobRecord} : Does A Legal (submitNew r job') v fun out v' => ∃ m, out = .ok m ∧ SourceExpired r.meeting.attempt m v' := by
  unfold submitNew
  split
  · next hnone => exact does_expire hf h (.unhashed hnone)
  next audioSha256 haudio =>
  have hlate : ¬ r.timely := by
    rintro ⟨t, deadline, ht, hdl, hlt⟩
    rw [hd] at hdl
    cases hdl
    exact absurd (hf.late t ht) (Nat.not_le.2 hlt)
  refine Does.bind (R := fun out v' => v' = v ∧ match out with
      | .ok p => Located v r p
      | .error (e, _) => e = .osError ∧ MayFail A) ?_ ?_ ?_
  · exact Does.held (does_uploadPath h.readable (by rw [h.processing]; rfl)) (fun _ _ h => h) fun _ _ h => h
  swap
  · rintro ⟨e, r₁⟩ v' ⟨-, -, hfault⟩
    exact absurd hfault hf.calm
  rintro path v ⟨rfl, hpath⟩
  cases path with
  | none => exact does_expire hf h hpath
  | some path => exact absurd hpath.2 hlate

/-- Without a `job_id`, the meeting is failed. -/
theorem does_advance_forgotten (hf : Forgets A d) (h : Ready v r) (hs : r.meeting.status = .queued ∨ r.meeting.status = .processing)
    (hj : r.job = some job) (hid : job.jobId = none) (hm : v.run readManifest = .error .notReady)
    (hd : r.meeting.temporaryExpiresAt = some d) :
    Does A Legal (advance r) v fun out v' => ∃ m, out = .ok m ∧ SourceExpired r.meeting.attempt m v' := by
  have hne : r.meeting.status ≠ .failed := by rcases hs with hs | hs <;> rw [hs] <;> nofun
  unfold advance
  rw [if_neg hne, hj]
  refine Does.bind (does_noManifest hf hm) ?_ ?_
  swap
  · rintro x v' ⟨hx, -⟩
    cases hx
  rintro found v ⟨hfound, rfl⟩
  cases hfound
  simp only [hid]
  have hstage : ({ r.meeting with status := .processing } : Meeting).validStage = true := by
    by_contra hno
    have happ := approved_of_stage (readable_ok h.readable) (by simpa using hno)
    rcases hs with hs | hs <;> rw [hs] at happ <;> cases happ
  unfold advanceNew
  simp only [demand, hstage, if_true]
  have hmove : ∀ t, Move v r (r.begun.touch t) := fun t => .begun job t hne hj hid hm
  change Does A Legal ((saveHeld r.begun).bind _) v _
  refine Does.bind (does_saveHeld h.readable hmove rfl h.acting rfl) ?_ ?_
  swap
  · rintro ⟨e, r₁⟩ v' ⟨-, hfault⟩
    exact absurd hfault hf.calm
  rintro r₁ v₁ ⟨t, rfl, rfl⟩
  have h₁ : Unjobbed (v.marked (r.begun.touch t)) (r.begun.touch t) job :=
    ⟨(hmove t).readable_marked h.readable, rfl, hj, hid, (run_sync readOnly_readManifest).trans
      ((readResults_mark h.readable ((hmove t).readable h.readable) rfl).1.trans hm),
      rooted_sync (v := v.mark _) ⟨h.rooted.now, h.rooted.later⟩ _, h.acting⟩
  split
  · exact does_submit_forgotten hf h₁ hd
  refine Does.bind (R := fun out v' => out = .ok .absent ∧ v' = (v.marked (r.begun.touch t)).note
    (.asked (.getJobByKey ((r.begun.touch t).meeting.id, (r.begun.touch t).meeting.attempt)) notKnown)) ?_ ?_ ?_
  · refine Does.held does_lookup ?_ ?_
    · rintro found v' ⟨a, ha, hl, rfl⟩
      rw [hf.answers _ _ ha] at hl ⊢
      cases hl with
      | pending status hin => rw [jobIn_notKnown] at hin; cases hin
      | absent => exact ⟨rfl, rfl⟩
      | found remote hin => rw [jobIn_notKnown] at hin; cases hin
    · rintro e v' ⟨a, ha, hl, rfl⟩
      rw [hf.answers _ _ ha] at hl
      cases hl with
      | failed _ hin _ hn =>
        rw [jobIn_notKnown] at hin
        cases hin
        exact absurd rfl (hn 404)
  swap
  · rintro x v' ⟨hx, -⟩
    cases hx
  rintro found v' ⟨hx, rfl⟩
  cases hx
  exact does_submit_forgotten hf (h₁.asked _ notKnown) hd

/-! ## `process_once` -/

/-- What is shown of a meeting without results is not a failure, unless it has failed. -/
theorem does_shown_forgotten (hf : Forgets A d) (hr : v.run readRecord = .ok r) (hs : r.meeting.status ≠ .failed)
    (hx : v.run readResults = .error .notReady) :
    Does A Legal readMeeting v fun out v' => (∃ m, out = .ok m ∧ m.status ≠ .failed) ∧ v'.run readRecord = .ok r := by
  have hst : ∃ m, v.run (showStatus r.meeting) = .ok m ∧ m.status ≠ .failed := by
    rw [run_showStatus, hx]
    split
    · exact ⟨_, rfl, nofun⟩
    · exact ⟨_, rfl, hs⟩
  obtain ⟨m, hm, hne⟩ := hst
  refine does_readMeeting.mono ?_
  rintro out v' ⟨rfl, h⟩
  cases h with
  | shown r₁ m₁ b hr₁ hm₁ =>
    cases hr.symm.trans hr₁
    cases hm.symm.trans hm₁
    exact ⟨⟨_, rfl, hne⟩, hr⟩
  | unreadable e h =>
    rw [hr] at h
    cases h
  | unshown r₁ e hr₁ hm₁ =>
    cases hr.symm.trans hr₁
    rw [hm] at hm₁
    cases hm₁
  | failed h => exact absurd h hf.calm

/-- What `process_once` does once the record is reconciled. -/
theorem does_process_forgotten {Q : Except Exn Meeting → View → Prop} (hf : Forgets A d) (h : Ready v r)
    (hstep : ∀ v₁, Ready v₁ r → Frame (· = marker) v v₁ → Does A Legal ((advance r).handle recover) v₁ fun out v' =>
      ∃ m, out = .ok m ∧ Q (.ok m) v') : Does A Legal processOnce v Q := by
  have hprocess : Does A Legal process v fun out v' => ∃ m, out = .ok m ∧ Q (.ok m) v' := by
    refine Does.readThen readOnly_readRecord (fun r₁ hr₁ => ?_) (fun e he => ?_) fun hfault => absurd hfault hf.calm
    swap
    · rw [h.readable] at he
      cases he
    cases h.readable.symm.trans hr₁
    refine Does.bind (does_reconcile_forgotten hf h) ?_ ?_
    swap
    · rintro e v₁ ⟨hx, -⟩
      cases hx
    rintro r₁ v₁ ⟨hx, hready, hframe⟩
    cases hx
    refine Does.handle (hstep v₁ hready hframe) (fun m v' hq => hq) ?_
    rintro e v' ⟨m, hx, -⟩
    cases hx
  refine Does.handle hprocess ?_ ?_
  · rintro m v' ⟨m', hx, hq⟩
    cases hx
    exact hq
  · rintro e v' ⟨m, hx, -⟩
    cases hx

/-- The reconciliation before it leaves the manifest as it was. -/
theorem noManifest_of_frame (h : Ready v r) (h' : Ready v' r) (hframe : Frame (· = marker) v v')
    (hm : v.run readManifest = .error .notReady) : v'.run readManifest = .error .notReady :=
  (readResults_congr h.readable h'.readable rfl fun n hn => hframe.look (by rintro he; cases he; simp at hn)).1.trans hm

/-- **With a stored `job_id`, the meeting stays as it is.** -/
theorem does_stay (hf : Forgets A d) (h : Ready v r) (hs : r.meeting.status ≠ .failed) (hj : r.job = some job) {id : UUID}
    (hid : job.jobId = some id) (hm : v.run readManifest = .error .notReady) :
    Does A Legal processOnce v fun out v' => (∃ m, out = .ok m ∧ m.status ≠ .failed) ∧ v'.run readRecord = .ok r := by
  refine does_process_forgotten hf h fun v₁ h₁ hframe => ?_
  have hm₁ := noManifest_of_frame h h₁ hframe hm
  refine Does.handle (does_poll_forgotten hf h₁ hs hj hid hm₁) ?_ ?_
  · rintro m v' ⟨hx, -⟩
    cases hx
  · rintro x v' ⟨hx, rfl⟩
    cases hx
    have hr : (v₁.note (.asked (.getJob id) notKnown)).run readRecord = .ok r :=
      (run_note readOnly_readRecord).trans h₁.readable
    have hman : (v₁.note (.asked (.getJob id) notKnown)).run readManifest = .error .notReady :=
      (run_note readOnly_readManifest).trans hm₁
    have hres : (v₁.note (.asked (.getJob id) notKnown)).run readResults = .error .notReady := by
      rw [readResults, Prog.bind_eq, run_bind, hman]
      rfl
    show Does A Legal readMeeting _ _
    refine (does_shown_forgotten hf hr hs hres).mono ?_
    rintro out v' ⟨⟨m, rfl, hne⟩, hr'⟩
    exact ⟨m, rfl, ⟨m, rfl, hne⟩, hr'⟩

/-- **Without one, it is failed with `source_expired`.** -/
theorem does_fail_forgotten (hf : Forgets A d) (h : Ready v r) (hs : r.meeting.status = .queued ∨ r.meeting.status = .processing)
    (hj : r.job = some job) (hid : job.jobId = none) (hm : v.run readManifest = .error .notReady)
    (hd : r.meeting.temporaryExpiresAt = some d) :
    Does A Legal processOnce v fun out v' => ∃ m, out = .ok m ∧ SourceExpired r.meeting.attempt m v' := by
  refine does_process_forgotten hf h fun v₁ h₁ hframe => ?_
  refine Does.handle (does_advance_forgotten hf h₁ hs hj hid (noManifest_of_frame h h₁ hframe hm) hd) ?_ ?_
  · rintro m v' ⟨m', hx, hq⟩
    cases hx
    exact ⟨_, rfl, _, rfl, hq⟩
  · rintro x v' ⟨m, hx, -⟩
    cases hx

end

/-! ## The current job -/

section
variable {v : View} {r r' : MeetingRecord}

/-- There is a job for the current attempt, and it is known to the GPU once results are published. -/
def Jobbed (r : MeetingRecord) : Prop :=
  ∃ job, r.job = some job ∧ (r.meeting.status.published = true → ∃ id, job.jobId = some id)

/-- Only `publish_results` publishes, and the job of the bundle has an id. -/
theorem Move.published_or (m : Move v r r') (hp : r'.meeting.status.published = true) :
    r.meeting.status.published = true ∨ ∃ job id, r.job = some job ∧ job.jobId = some id := by
  cases m with
  | published job b t hb hs hst hj hid => exact .inr ⟨job, _, hj, hid⟩
  | begun | progressed | polledFailed | failed | retried => cases hp
  | reviewed q o i res t hq hs => exact .inl hs
  | approved q _ _ t hq hs => exact .inl (by rw [hs]; rfl)
  | flagged job t hs => exact .inl hp
  | _ => exact .inl hp

theorem Move.jobbed (m : Move v r r') (hok : r.ok = true) (h : Jobbed r) : Jobbed r' := by
  obtain ⟨job, hj, hid⟩ := h
  rcases m.jobs hok with hf | ⟨hjobs, hatt⟩
  · rcases m.attempt_or with ha | ⟨t, rfl, -⟩
    · obtain ⟨job', hj', hmoved⟩ := job_moved hf ha hj
      refine ⟨job', hj', fun hp => ?_⟩
      rcases m.published_or hp with hp | ⟨job₁, id, hj₁, hid₁⟩
      · obtain ⟨id, hid⟩ := hid hp
        exact ⟨id, hmoved.jobId hid⟩
      · cases hj.symm.trans hj₁
        exact ⟨_, hmoved.jobId hid₁⟩
    · have hlen := hf.length_eq
      simp [MeetingRecord.retried] at hlen
  · obtain ⟨-, -, -, hle⟩ := ok_iff.1 hok
    have hnone : r.jobs.find? (fun j => decide (j.attempt = r.meeting.attempt + 1)) = none := by
      refine List.find?_eq_none.2 fun j hm => ?_
      have := (hle j.attempt (List.mem_map_of_mem hm)).2
      simp only [decide_eq_true_eq]
      omega
    refine ⟨.new (r.meeting.attempt + 1) (some false), ?_, fun hp => ?_⟩
    · rw [MeetingRecord.job, hatt, hjobs, List.find?_append, hnone]
      simp [JobRecord.new]
    · rcases m.attempt_or with ha | ⟨t, rfl, -⟩
      · omega
      · cases hp

theorem Reach.jobbed {c : Config} {rot : Prop} (h : Reach (Step rot) c) (hr : c.world.view.run readRecord = .ok r) :
    Jobbed r := by
  refine h.conforming.written ?_ ?_ (fun v r r' _ hok hm hr => hm.jobbed hok hr) r (h.inv.written hr)
  · intro metadata t kind hours audio extension
    exact ⟨_, rfl, nofun⟩
  · intro metadata t kind hours audio extension
    exact ⟨_, rfl, nofun⟩

end

/-! ## From any reachable state -/

section
variable {c : Config} {r : MeetingRecord} {m : Meeting} {d : Time}

/-- A `process_once` to which the GPU knows nothing, and in which nothing fails, fails the meeting with `source_expired`. -/
def Expires (c : Config) (r : MeetingRecord) : Prop :=
  Sat forgetful (fun _ _ => True) (fun out (w : World) => ∃ m, out = .ok m ∧ SourceExpired r.meeting.attempt m w.view)
    processOnce (c.begin .processOnce).world

/-- It leaves the record as it is, and shows no failure. -/
def Stays (c : Config) (r : MeetingRecord) : Prop :=
  Sat forgetful (fun _ _ => True) (fun out (w : World) => (∃ m, out = .ok m ∧ m.status ≠ .failed) ∧
    w.view.run readRecord = .ok r) processOnce (c.begin .processOnce).world

theorem forecast_self {A : Env host} : @Forecast ⟨A⟩ A := @Forecast.mk ⟨A⟩ A fun _ _ _ h => h

theorem forgets (d : Time) : @Forgets ⟨forgetfulAfter d⟩ (forgetfulAfter d) d := by
  refine @Forgets.mk ⟨forgetfulAfter d⟩ _ _ ?_ ?_ ?_
  · rintro ⟨w, o, ch, h, hf⟩
    rw [h.1.1] at hf
    cases hf
  · rintro q a ⟨w, ch, h, rfl⟩
    exact h.1.2
  · rintro t ⟨w, ch, h, rfl⟩
    exact h.2

theorem clock_act {w : World} {o : Op} {ch : Choice} : (w.act o ch).2.clock = w.clock + ch.elapsed := by
  cases o <;> rfl

/-- Once the deadline has passed, the clock only shows later times. -/
theorem sat_forgetful {α : Type} {G : Guard host} {Q : Post host Exn α} {p : Serv α} {w : World} (hd : d ≤ w.clock)
    (h : Sat (forgetfulAfter d) G Q p w) : Sat forgetful (fun _ _ => True) Q p w := by
  have hsat : Sat forgetful G Q p w := by
    refine h.restrict (J := fun w' : World => d ≤ w'.clock) hd ?_
    intro w' o ch hle hA
    have hclock : (host.act o ch w').2.clock = w'.clock + ch.elapsed := clock_act
    rw [hclock]
    exact ⟨⟨hA, Nat.le_trans hle (Nat.le_add_right _ _)⟩, Nat.le_trans hle (Nat.le_add_right _ _)⟩
  exact hsat.weaken (fun _ _ _ h => h) fun _ _ _ => trivial

/-- What is shown as queued or processing has no results, and has not failed. -/
theorem waiting_of_shown (h : Reach (Step False) c) (hr : c.world.view.run readRecord = .ok r)
    (hm : c.world.view.shown = .ok m) (hs : m.status = .queued ∨ m.status = .processing) :
    c.world.view.run readManifest = .error .notReady ∧ r.meeting.status ≠ .failed := by
  have hi : Inv c.world.view := h.inv
  cases hm.symm.trans (hi.shown h.undamaged hr)
  rw [presented_status] at hs
  have hlook : c.world.view.look (.folder, .manifest) = c.world.view.files .manifest :=
    look_of_reach (p := (.folder, .manifest)) (readable_reach hr)
  have hnf : r.meeting.status ≠ .failed := by
    intro hf
    rw [hf] at hs
    rcases hs with hs | hs <;> cases hs
  refine ⟨?_, hnf⟩
  cases hman : c.world.view.files .manifest with
  | none => rw [run_readManifest hr, hlook, hman]
  | some x =>
    exfalso
    obtain ⟨b, hb⟩ := hi.backed.now (inPlay_of_readable hr) r x (files_of_readable hr) hman
    have hp : r.meeting.status.published = true := hb.status.resolve_right hnf
    have hc : c.world.view.committed = true := by simp [View.committed, hman]
    rw [hp, hc] at hs
    cases hst : r.meeting.status with
    | reviewRequired | approved =>
      rw [hst] at hs
      rcases hs with hs | hs <;> cases hs
    | _ => rw [hst] at hp; cases hp

theorem ready_begin (h : Reach (Step False) c) (hidle : c.idle) (hr : c.world.view.run readRecord = .ok r) :
    Ready (c.begin .processOnce).world.view r :=
  (h.trans (.single (step_begin hidle (a := .processOnce) trivial))).inv.ready
    ((run_note readOnly_readRecord).trans hr) (.inl rfl) rfl

theorem stays_of_known (h : Reach (Step False) c) (hidle : c.idle) (hr : c.world.view.run readRecord = .ok r)
    (hman : c.world.view.run readManifest = .error .notReady) (hnf : r.meeting.status ≠ .failed) {job : JobRecord} {id : UUID}
    (hj : r.job = some job) (hid : job.jobId = some id) (hd : d ≤ c.world.clock) : Stays c r := by
  have hg : Good False c := reach_good (fun _ _ h => h) h
  have hman' : (c.begin .processOnce).world.view.run readManifest = .error .notReady :=
    (run_note readOnly_readManifest).trans hman
  have hdoes := @does_stay _ _ ⟨forgetfulAfter d⟩ _ forecast_self _ _ _ d (forgets d) (ready_begin h hidle hr) hnf hj id hid hman'
  exact (sat_forgetful (w := (c.begin .processOnce).world) hd (hdoes _ rfl hg.fit)).mono fun _ _ hq => hq.2

/-- **After the deadline, a meeting the GPU knows nothing of is failed exactly when its attempt has no `job_id`.** -/
theorem forgotten_expires_iff (h : Reach (Step False) c) (hidle : c.idle) (hr : c.world.view.run readRecord = .ok r)
    (hm : c.world.view.shown = .ok m) (hs : m.status = .queued ∨ m.status = .processing)
    (hd : r.meeting.temporaryExpiresAt = some d) (ht : d ≤ c.world.clock) :
    Expires c r ↔ ∀ job, r.job = some job → job.jobId = none := by
  obtain ⟨hman, hnf⟩ := waiting_of_shown h hr hm hs
  obtain ⟨job, hj, hknown⟩ := h.jobbed hr
  have hg : Good False c := reach_good (fun _ _ h => h) h
  constructor
  · intro hexp job₁ hj₁
    by_contra hne
    obtain ⟨id, hid⟩ := Option.ne_none_iff_exists'.1 hne
    have hstay := stays_of_known h hidle hr hman hnf hj₁ hid ht
    have hboth := (hexp.and hstay).eval ⟨0, none, notKnown, false⟩ fun _ _ => ⟨rfl, rfl⟩
    obtain ⟨⟨m₁, ho, hfailed⟩, ⟨m₂, ho', hnot⟩, -⟩ := hboth
    rw [ho] at ho'
    cases ho'
    exact hnot hfailed.shown.1
  · intro hnone
    have hid := hnone job hj
    have hst : r.meeting.status = .queued ∨ r.meeting.status = .processing := by
      have hnp : r.meeting.status.published ≠ true := by
        intro hp
        obtain ⟨id, hsome⟩ := hknown hp
        rw [hid] at hsome
        cases hsome
      cases hst : r.meeting.status with
      | queued => exact .inl rfl
      | processing => exact .inr rfl
      | reviewRequired | approved => rw [hst] at hnp; exact absurd rfl hnp
      | failed => exact absurd hst hnf
    have hman' : (c.begin .processOnce).world.view.run readManifest = .error .notReady :=
      (run_note readOnly_readManifest).trans hman
    have hdoes := @does_fail_forgotten _ _ ⟨forgetfulAfter d⟩ _ forecast_self _ _ _ d (forgets d) (ready_begin h hidle hr) hst hj hid hman' hd
    exact (sat_forgetful (w := (c.begin .processOnce).world) ht (hdoes _ rfl hg.fit)).mono fun _ _ hq => hq.2

end

end

section
attribute [local instance] Sample.lib Sample.home

namespace Sample

/-- The job is accepted, and then the deadline passes. -/
def accepted : Config := created.cues [.start .processOnce,
  .play never (answering fun _ => .http 202 (.job ⟨9, .processing, some .ingesting, none, none, .pending, 5000, none⟩)), .finish,
  .wait 86400001000 false]

theorem reach_accepted : Reach (Step False) accepted := reach_created.cues (.inr rfl)

theorem read_accepted : accepted.world.view.run readRecord = .ok (recordOf accepted) ∧
    accepted.world.view.shown = .ok (recordOf accepted).meeting ∧ (recordOf accepted).meeting.status = .processing ∧
    (recordOf accepted).meeting.temporaryExpiresAt = some 86400001000 ∧ accepted.world.clock = 86400001000 ∧
    (recordOf accepted).job.map (·.jobId) = some (some 9) := by decide +kernel

/-- The meeting was created, and the deadline passed. -/
def overdue : Config := created.cues [.wait 86400001000 false]

theorem reach_overdue : Reach (Step False) overdue := reach_created.cues (.inr rfl)

theorem read_overdue : overdue.world.view.run readRecord = .ok (recordOf overdue) ∧
    overdue.world.view.shown = .ok { (recordOf overdue).meeting with sourceAvailable := true } ∧ (recordOf overdue).meeting.status = .queued ∧
    (recordOf overdue).meeting.temporaryExpiresAt = some 86400001000 ∧ overdue.world.clock = 86400001000 ∧
    (recordOf overdue).job.map (·.jobId) = some none := by decide +kernel

end Sample

/-- The meeting whose job the GPU forgot stays `processing`. -/
theorem forgotten_stays : ¬ ∀ (c : Config) (r : MeetingRecord) (m : Meeting) (d : Time), Reach (Step False) c → c.idle →
    c.world.view.run readRecord = .ok r → c.world.view.shown = .ok m → m.status = .queued ∨ m.status = .processing →
    r.meeting.temporaryExpiresAt = some d → d ≤ c.world.clock → Expires c r := by
  intro h
  obtain ⟨hr, hm, hs, hd, ht, hjob⟩ := Sample.read_accepted
  obtain ⟨job, hj, hid⟩ : ∃ job, (Sample.recordOf Sample.accepted).job = some job ∧ job.jobId = some 9 := by
    cases hj : (Sample.recordOf Sample.accepted).job with
    | none => rw [hj] at hjob; cases hjob
    | some job =>
      rw [hj] at hjob
      exact ⟨job, rfl, Option.some.inj hjob⟩
  obtain ⟨hman, hnf⟩ := waiting_of_shown Sample.reach_accepted hr hm (.inr hs)
  have hexp := h _ _ _ _ Sample.reach_accepted rfl hr hm (.inr hs) hd (Nat.le_of_eq ht.symm)
  have hstay := stays_of_known Sample.reach_accepted rfl hr hman hnf hj hid (Nat.le_of_eq ht.symm)
  obtain ⟨⟨m₁, ho, hfailed⟩, ⟨m₂, ho', hnot⟩, -⟩ := (hexp.and hstay).eval ⟨0, none, notKnown, false⟩ fun _ _ => ⟨rfl, rfl⟩
  rw [ho] at ho'
  cases ho'
  exact hnot hfailed.shown.1

theorem forgotten_expires_iff_sample : Expires Sample.overdue (Sample.recordOf Sample.overdue) := by
  obtain ⟨hr, hm, hs, hd, ht, hjob⟩ := Sample.read_overdue
  refine (forgotten_expires_iff Sample.reach_overdue rfl hr hm (.inl hs) hd (Nat.le_of_eq ht.symm)).2 fun job hj => ?_
  rw [hj] at hjob
  exact Option.some.inj hjob

end

end Tirke
