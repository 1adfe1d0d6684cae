import Tirke.Spec.JobHistory
/-!
# Every use of a meeting keeps its jobs

What `_advance` returns with an exception is a record that `_process` may still fail, so its rules say of both.
-/

set_option linter.unusedSectionVars false

namespace Tirke

open CrashProg CrashDisk

variable [Lib] [Home] {r : MeetingRecord} {job : JobRecord} {remote : JobV1} {code : FailureCode}

/-! ## `app/services/gpu_client.py` -/

section
variable {n : Nat} {a : Response}

theorem intact_accepted {e : Exn} (h : accepted n a = .error e) : e.intact = true := by
  unfold accepted at h
  repeat' split at h
  all_goals cases h
  all_goals rfl

theorem intact_jobIn {e : Exn} (h : jobIn n a = .error e) : e.intact = true := by
  unfold jobIn at h
  repeat' split at h
  all_goals cases h
  any_goals rfl
  exact intact_accepted ‹_›

theorem intact_bundleIn {e : Exn} (h : bundleIn a = .error e) : e.intact = true := by
  unfold bundleIn at h
  repeat' split at h
  all_goals cases h
  any_goals rfl
  exact intact_accepted ‹_›

theorem intact_receiptIn {e : Exn} (h : receiptIn a = .error e) : e.intact = true := by
  unfold receiptIn at h
  repeat' split at h
  all_goals cases h
  any_goals rfl
  exact intact_accepted ‹_›

end

theorem whole_ask {q : Request} : Whole (ask q) := fun _ _ => trivial

theorem whole_submit {p : Path} {context : GPUContextV1} {extension : Option AudioExtension} :
    Whole (submit p context extension) := by
  refine Whole.bind (whole_read.handle fun e he => ?_) fun audio => whole_ask.bind fun a =>
    whole_ofExcept fun _ => intact_jobIn
  show (if e.isOSError then Exn.gpuInput else e).intact = true
  split
  · rfl
  · exact he

theorem whole_getJob {id : UUID} : Whole (getJob id) :=
  whole_ask.bind fun _ => Whole.bind (whole_ofExcept fun _ => intact_jobIn) fun _ =>
    Ends.bind (whole_demand rfl) fun _ _ => trivial

theorem whole_getJobByKey {id : UUID} {n : Nat} : Whole (getJobByKey id n) :=
  whole_ask.bind fun _ => whole_ofExcept fun _ => intact_jobIn

theorem whole_getResult {id : UUID} : Whole (getResult id) :=
  whole_ask.bind fun _ => Whole.bind (whole_ofExcept fun _ => intact_bundleIn) fun _ =>
    Ends.bind (whole_demand rfl) fun _ _ => trivial

theorem whole_ack {id : UUID} {resultHash : Sha256} : Whole (ack id resultHash) :=
  whole_ask.bind fun _ => Whole.bind (whole_ofExcept fun _ => intact_receiptIn) fun _ =>
    Ends.bind (whole_demand rfl) fun _ _ => trivial

/-! ## `app/services/coordinator.py` -/

theorem returns_save (h : r.GapFree) : Returns (fun x => x.1.GapFree) (save r) := by
  refine Whole.bind whole_now fun t => ?_
  have ht : (r.touch t).GapFree := h.of_eq rfl rfl
  exact (whole_updateMeeting ht).bind fun _ => ht

theorem whole_fail (h : r.GapFree) : Whole (fail r code) :=
  Ends.bind (returns_save (r := r.failed code) (h.of_eq rfl rfl)) fun _ _ => trivial

theorem returns_cleanupLocal (h : r.GapFree) : Returns MeetingRecord.GapFree (cleanupLocal r) := by
  unfold cleanupLocal
  split
  swap
  · exact h
  refine Ends.bind (P := MeetingRecord.GapFree) ?_ fun r' hr' => ?_
  · have hlocal : Returns MeetingRecord.GapFree (do deleteUpload; return r.localDeleted) :=
      whole_deleteUpload.bind fun _ => h.of_eq rfl rfl
    refine hlocal.handle fun e he => ?_
    split
    · exact h
    · exact he
  · exact Ends.bind (returns_save hr') fun _ h' => h'

theorem returns_cleanupRemote (h : r.GapFree) : Returns MeetingRecord.GapFree (cleanupRemote r job) := by
  unfold cleanupRemote
  split
  · next id resultHash _ _ _ =>
    have hack : Returns MeetingRecord.GapFree (do
        let receipt ← ack id resultHash
        return r.setJob (JobRecord.acked receipt)) :=
      whole_ack.bind fun receipt => h.setJob fun _ => JobRecord.kept_acked
    refine hack.handle fun e he => ?_
    split
    · exact h
    · exact he
  · exact h

/-- **`_cleanup` finds the current job.** -/
theorem whole_cleanup (h : r.GapFree) : Whole (cleanup r) := by
  obtain ⟨job, hj⟩ := h.job
  unfold cleanup
  rw [hj]
  refine Ends.bind (returns_cleanupLocal h) fun r₁ h₁ => Ends.bind (returns_cleanupRemote h₁) fun r₂ h₂ => ?_
  exact Ends.bind (returns_save (r := r₂.withAggregate) (h₂.of_eq rfl rfl)) fun _ _ => trivial

theorem returns_saveHeld (h : r.GapFree) : ReturnsHeld MeetingRecord.GapFree (saveHeld r) := by
  refine Ends.bind (whole_held whole_now h) fun t _ => ?_
  have ht : (r.touch t).GapFree := h.of_eq rfl rfl
  exact Ends.bind (whole_held (whole_updateMeeting ht) ht) fun _ _ => ht

theorem whole_failHeld (h : r.GapFree) : ReturnsHeld (fun _ => True) (failHeld r code) :=
  whole_held (whole_fail h) (h.of_eq rfl rfl)

theorem whole_orNone {α : Type} {p : Serv α} {e : Exn} (h : Whole p) : Whole (orNone p e) := by
  refine Ends.handle (h.bind fun _ => trivial) fun x hx => ?_
  split
  · exact trivial
  · exact hx

theorem whole_resume {manifest : ReadyManifest} : Whole (resume manifest) :=
  whole_readResults.bind fun _ => whole_publishResults.discard.bind fun _ =>
    Ends.bind returns_readRecord fun _ hr => whole_cleanup hr

theorem whole_collect : Whole (collect remote) :=
  whole_getResult.bind fun _ => Ends.bind (whole_demand rfl) fun _ _ => whole_publishResults.discard.bind fun _ =>
    Ends.bind returns_readRecord fun _ hr => whole_cleanup hr

theorem whole_bound (h : r.GapFree) : ReturnsHeld (fun _ => True) (bound r job remote) := by
  have hpolled : (r.polled remote).GapFree := h.setJob fun _ => JobRecord.kept_polled
  refine Ends.bind (whole_held (whole_demand rfl) h) fun _ _ => ?_
  dsimp only
  split
  · exact whole_failHeld hpolled
  split
  · exact whole_failHeld hpolled
  refine Ends.bind (whole_held (whole_demand rfl) hpolled) fun _ _ => ?_
  refine Ends.bind (returns_saveHeld (r := (r.polled remote).progressed remote) (hpolled.of_eq rfl rfl)) fun r' h' => ?_
  split
  · exact whole_held whole_collect h'
  · exact whole_held whole_readMeeting h'

theorem whole_lookup : Whole (lookup r) := by
  refine Ends.handle (whole_getJobByKey.bind fun _ => trivial) fun e he => ?_
  split
  · exact trivial
  · exact trivial
  · exact he

theorem whole_submitNew (h : r.GapFree) : ReturnsHeld (fun _ => True) (submitNew r job) := by
  unfold submitNew
  split
  · exact whole_failHeld h
  refine Ends.bind (whole_held (whole_orNone whole_uploadPath) h) fun path _ => ?_
  split
  · exact whole_failHeld h
  refine Ends.bind (whole_held (whole_demand rfl) h) fun _ _ => ?_
  have hflagged : r.flagged.GapFree := h.setJob fun _ => JobRecord.kept_flagged
  refine Ends.bind (returns_saveHeld hflagged) fun r' h' => ?_
  exact Ends.bind (whole_held whole_submit h') fun remote _ => whole_bound h'

theorem whole_advanceNew (h : r.GapFree) : ReturnsHeld (fun _ => True) (advanceNew r job) := by
  refine Ends.bind (whole_held (whole_demand rfl) h) fun _ _ => ?_
  refine Ends.bind (returns_saveHeld (r := r.begun) (h.of_eq rfl rfl)) fun r' h' => ?_
  split
  · exact whole_submitNew h'
  refine Ends.bind (whole_held whole_lookup h') fun found _ => ?_
  cases found with
  | pending => exact whole_held whole_readMeeting h'
  | absent => exact whole_submitNew h'
  | found remote => exact whole_bound h'

/-- **`_advance` finds the current job**, and what it holds when an exception passes is still gap-free. -/
theorem whole_advance (h : r.GapFree) : ReturnsHeld (fun _ => True) (advance r) := by
  obtain ⟨job, hj⟩ := h.job
  unfold advance
  split
  · exact whole_held whole_readMeeting h
  rw [hj]
  refine Ends.bind (whole_held (whole_orNone whole_readManifest) h) fun manifest _ => ?_
  cases manifest with
  | some manifest => exact whole_held whole_resume h
  | none =>
    dsimp only
    split
    · exact whole_advanceNew h
    · exact Ends.bind (whole_held whole_getJob h) fun remote _ => whole_bound h

theorem returns_reconcileJob : Returns (fun x => job.Kept x.1) (reconcileJob r job) := by
  unfold reconcileJob
  split
  · exact .refl job
  next id _ =>
  split
  · exact .refl job
  have hget : Returns (fun x => job.Kept x.1) (do
      let remote ← getJob id
      if remote.jobId != id || remote.cleanupStatus = .pending then .ret (job, false)
      else .ret (job.reconciled remote, true)) := by
    refine whole_getJob.bind fun remote => ?_
    split
    · exact .refl job
    · exact JobRecord.kept_reconciled
  refine hget.handle fun e he => ?_
  split
  · exact .refl job
  · exact he

theorem returns_reconcileJobs {jobs : List JobRecord} :
    Returns (fun x => List.Forall₂ JobRecord.Kept jobs x.1) (reconcileJobs r jobs) := by
  induction jobs with
  | nil => exact .nil
  | cons job jobs ih =>
    exact Ends.bind returns_reconcileJob fun x hx => Ends.bind ih fun y hy => .cons hx hy

theorem returns_reconcilePendingJobs (h : r.GapFree) : Returns MeetingRecord.GapFree (reconcilePendingJobs r) := by
  refine Ends.bind returns_reconcileJobs fun x hx => ?_
  have hjobs : ({ r with jobs := x.1 } : MeetingRecord).GapFree := h.of_jobs rfl hx
  dsimp only
  split
  · exact Ends.bind (returns_save (r := ({ r with jobs := x.1 } : MeetingRecord).withAggregate) (hjobs.of_eq rfl rfl))
      fun _ h' => h'
  · exact hjobs

theorem whole_recover {x : Exn × MeetingRecord} (hx : x.1.intact = true) (h : x.2.GapFree) : Whole (recover x) := by
  obtain ⟨e, r⟩ := x
  cases e with
  | gpuProtocol | validation | integrity _ | gpuInput => exact whole_fail h
  | jobHistory => cases hx
  | gpuDomain status code =>
    simp only [recover]
    split
    · exact whole_fail h
    split
    · exact whole_readMeeting
    · exact whole_fail h
  | _ => exact hx

theorem whole_process : Whole process := by
  refine Ends.bind returns_readRecord fun r hr => Ends.bind (returns_reconcilePendingJobs hr) fun r' hr' => ?_
  refine Ends.handle (Ends.handle (whole_advance hr') fun x hx => whole_recover hx.1 hx.2) fun e he => ?_
  split
  · exact whole_readMeeting
  · exact he

theorem whole_processOnce : Whole processOnce := by
  refine whole_process.handle fun e he => ?_
  split
  · rfl
  · show (if e.isOSError then Exn.storageError else e).intact = true
    split
    · rfl
    · exact he

/-! ## The other uses -/

theorem whole_visit : Whole visit := by
  refine Ends.handle (whole_lifecycleLock fun acquired => ?_) fun _ _ => trivial
  split
  · refine whole_readMeeting.bind fun meeting => ?_
    have hpending : Whole (pendingFailedJob meeting) := by
      unfold pendingFailedJob
      split
      · exact whole_readRecord.bind fun _ => trivial
      · exact trivial
    refine hpending.bind fun pendingFailed => ?_
    split
    · exact Ends.bind whole_processOnce.attempt fun _ _ => trivial
    · exact trivial
  · exact trivial

theorem whole_expireUpload : Whole expireUpload := by
  refine Ends.bind returns_readRecord fun r hr => whole_now.bind fun t => ?_
  split
  swap
  · exact trivial
  refine Whole.bind (Ends.handle (whole_deleteUpload.bind fun _ => trivial) fun e he => ?_) fun removed => ?_
  · split
    · exact trivial
    · exact he
  · refine Whole.discard (whole_updateMeeting ?_)
    cases removed with
    | true => exact hr.expired t
    | false => exact hr.of_eq rfl rfl

theorem whole_sweepEntry : Whole sweepEntry := by
  have htree : Whole removeTree := (whole_call _).bind fun _ => whole_syncDirectory
  refine (whole_call _).bind fun slot => ?_
  cases slot with
  | absent => exact trivial
  | moved t => exact htree
  | live =>
    refine whole_exists.bind fun b => ?_
    split
    · refine whole_lifecycleLock fun acquired => ?_
      split
      · exact whole_expireUpload
      · exact trivial
    · refine Whole.bind (fun _ _ => trivial) fun stale => ?_
      split
      · exact htree
      · exact trivial

theorem whole_retryMeeting : Whole Lifecycle.retryMeeting := by
  refine whole_lifecycleLock fun _ => Ends.bind returns_readRecord fun r hr => ?_
  refine Ends.bind (whole_demand rfl) fun _ _ => Ends.bind (whole_demand rfl) fun _ _ => whole_readMeeting.bind fun _ => ?_
  exact Ends.bind (whole_demand rfl) fun _ _ => whole_now.bind fun t => whole_updateMeeting (hr.retried t)

theorem whole_lifecycleDelete {suffix : UUID} : Whole (Lifecycle.deleteMeeting suffix) := by
  refine whole_lifecycleLock fun _ => whole_readRecord.bind fun r => Ends.bind (whole_demand rfl) fun _ _ => ?_
  have hpending : Whole (Lifecycle.anythingPending r) := by
    unfold Lifecycle.anythingPending
    split
    · exact trivial
    · exact Whole.bind (whole_readRecord.discard.bind fun _ => whole_exists) fun _ => trivial
  exact hpending.bind fun _ => Ends.bind (whole_demand rfl) fun _ _ => whole_deleteMeeting

theorem intact_overlay {original : TranscriptV1} {s : ReviewSnapshot} {e : Exn} (h : overlay original s = .error e) :
    e.intact = true := by
  unfold overlay at h
  dsimp only at h
  repeat' split at h
  all_goals cases h
  all_goals rfl

theorem whole_readCurrentLocked {m : Meeting} : Whole (readCurrentLocked m) := by
  refine Ends.bind (whole_demand rfl) fun _ _ => whole_readResults.bind fun x => ?_
  obtain ⟨original, insights⟩ := x
  dsimp only
  split
  · exact trivial
  have hsnapshot : Whole (readSnapshot original m.revision) :=
    whole_readRecord.discard.bind fun _ => whole_read.bind fun _ => Ends.bind (whole_parse rfl) fun _ _ =>
      Ends.bind (whole_demand rfl) fun _ _ => whole_ofExcept fun _ => intact_overlay
  refine hsnapshot.handle fun e he => ?_
  show (committedError e).intact = true
  unfold committedError
  split
  · rfl
  · rfl
  · rfl
  · rfl
  · exact he

theorem whole_readReviewedResultsUnlocked : Whole readReviewedResultsUnlocked :=
  whole_readRecord.bind fun _ => whole_readCurrentLocked

theorem whole_dropApproved {m : Meeting} : Whole (dropApproved m) := by
  unfold dropApproved
  split
  · exact whole_deletePdfCache
  · exact trivial

theorem whole_updateReview {q : ReviewRequest} : Whole (updateReview q) := by
  refine whole_lifecycleLock fun _ => Ends.bind returns_readRecord fun r hr => ?_
  refine Ends.bind (whole_demand rfl) fun _ _ => Ends.bind (whole_demand rfl) fun _ _ => whole_readResults.bind fun x => ?_
  refine Whole.bind (Whole.discard (whole_ofExcept fun _ => intact_overlay)) fun _ => ?_
  refine whole_readRecord.discard.bind fun _ => whole_atomicWrite.bind fun _ => whole_readRecord.discard.bind fun _ => ?_
  refine whole_atomicWrite.bind fun _ => whole_dropApproved.bind fun _ => whole_now.bind fun t => ?_
  exact whole_updateMeeting (hr.of_eq rfl rfl)

theorem whole_approveReview {q : ApprovalRequest} : Whole (approveReview q) := by
  refine whole_lifecycleLock fun _ => Ends.bind returns_readRecord fun r hr => ?_
  refine Ends.bind (whole_demand rfl) fun _ _ => Ends.bind (whole_demand rfl) fun _ _ => ?_
  refine whole_readCurrentLocked.bind fun x => Ends.bind (whole_demand rfl) fun _ _ => Ends.bind (whole_demand rfl) fun _ _ => ?_
  exact whole_now.bind fun t => whole_updateMeeting (hr.of_eq rfl rfl)

theorem whole_clearExportingStage : Whole clearExportingStage := by
  refine Ends.bind returns_readRecord fun r hr => ?_
  split
  · exact whole_now.bind fun t => Whole.discard (whole_updateMeeting (hr.of_eq rfl rfl))
  · exact trivial

theorem whole_cachedPdf {revision : Nat} : Whole (cachedPdf revision) := by
  refine Whole.bind (Ends.handle (whole_readPdfCache.bind fun _ => trivial) fun e he => ?_) fun cached => ?_
  · split
    · exact trivial
    · exact whole_deletePdfCache.bind fun _ => trivial
    · exact he
  · split
    · exact trivial
    · split
      · exact trivial
      · exact whole_deletePdfCache.bind fun _ => trivial

theorem intact_renderPdf {m : Meeting} {t : TranscriptV1} {i : InsightsV1} {e : Exn} (h : renderPdf m t i = .error e) :
    e.intact = true := by
  unfold renderPdf at h
  repeat' split at h
  all_goals cases h
  all_goals rfl

theorem whole_generatePdf (h : r.GapFree) : Whole (generatePdf r) := by
  refine whole_now.bind fun t => Whole.bind (Whole.discard (whole_updateMeeting (h.of_eq rfl rfl))) fun _ => ?_
  refine whole_readReviewedResultsUnlocked.bind fun x => Ends.bind (whole_demand rfl) fun _ _ => ?_
  refine Whole.bind (whole_ofExcept fun _ => intact_renderPdf) fun data => Ends.bind (whole_demand rfl) fun _ _ => ?_
  exact whole_writePdfCache.bind fun _ => trivial

theorem whole_getExportPdf : Whole getExportPdf := by
  refine whole_lifecycleLock fun _ => Whole.bind ?_ fun pdf => fun _ _ => trivial
  refine Ends.bind returns_readRecord fun r hr => Ends.bind (whole_demand rfl) fun _ _ => whole_cachedPdf.bind fun cached => ?_
  split
  · exact whole_clearExportingStage.bind fun _ => trivial
  · exact Ends.ensuring (whole_generatePdf hr) whole_clearExportingStage

/-- **Every use of a meeting is whole.** -/
theorem whole_action (a : Action) : Whole a.program := by
  cases a with
  | processOnce => exact whole_processOnce.discard
  | step => exact whole_visit.discard
  | sweep => exact whole_sweepEntry
  | retry => exact whole_retryMeeting.discard
  | delete suffix => exact whole_lifecycleDelete
  | updateReview q => exact whole_updateReview.discard
  | approve q => exact whole_approveReview.discard
  | exportPdf => exact whole_getExportPdf

end Tirke
