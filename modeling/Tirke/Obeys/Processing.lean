import Tirke.Obeys.Coordinator
/-!
# `_reconcile_pending_jobs` and `process_once` obey the law

`Confirms A r job` and `Denies A r job` are the two ways the question about an earlier job can end. A record
with a confirmed job is saved before `_advance` runs, and only an unreadable published record is in the way.
-/

set_option linter.unusedSectionVars false

namespace Tirke

open CrashProg CrashDisk

variable [Lib] [Home] [Weather] {A : Env host} [Forecast A] {v v' : View} {r r' : MeetingRecord} {job job' : JobRecord}

/-! ## Asking about earlier jobs -/

/-- The GPU may confirm that the job's copy is gone. -/
def Confirms (A : Env host) (r : MeetingRecord) (job : JobRecord) : Prop :=
  ∃ id a remote, job.jobId = some id ∧ r.skips job = false ∧ MayAnswer A (.getJob id) a ∧
    heardJob id a = .ok remote ∧ remote.cleanupStatus ≠ .pending

/-- The job is passed over, or the GPU may leave it pending. -/
def Denies (A : Env host) (r : MeetingRecord) (job : JobRecord) : Prop :=
  job.jobId = none ∨ r.skips job = true ∨ ∃ id a, job.jobId = some id ∧ MayAnswer A (.getJob id) a ∧
    ∀ remote, heardJob id a = .ok remote → remote.cleanupStatus = .pending

theorem pending_of_skips (h : r.skips job = false) : job.cleanupStatus = .pending := by
  simp only [MeetingRecord.skips, Bool.or_eq_false_iff] at h
  simpa using h.1.1

/-- What asking about one job leaves. -/
def Asked (A : Env host) (v : View) (r : MeetingRecord) (job : JobRecord) (out : Except Exn (JobRecord × Bool))
    (v' : View) : Prop :=
  Frame (fun _ => False) v v' ∧ match out with
    | .ok (job', true) => Reconciled v'.log job job' ∧ Confirms A r job
    | .ok (job', false) => job' = job ∧ Denies A r job
    | .error _ => False

theorem does_reconcileJob : Does A Legal (reconcileJob r job) v (Asked A v r job) := by
  unfold reconcileJob
  cases hid : job.jobId with
  | none => exact .ret ⟨.refl v, rfl, .inl hid⟩
  | some id =>
    simp only []
    split
    · next hs => exact .ret ⟨.refl v, rfl, .inr (.inl hs)⟩
    next hs =>
    replace hs : r.skips job = false := by simpa using hs
    refine Does.handle (R := fun out v' => Frame (fun _ => False) v v' ∧ match out with
        | .ok (job', true) => Reconciled v'.log job job' ∧ Confirms A r job
        | .ok (job', false) => job' = job ∧ Denies A r job
        | .error e => e.isGPUClientError = true ∧ Denies A r job) ?_ ?_ ?_
    · refine Does.bind does_getJob ?_ ?_
      · rintro remote v' ⟨a, ha, hr, rfl⟩
        have hf : Frame (fun _ => False) v (v.note (.asked (.getJob id) a)) := .asked rfl
        obtain ⟨hin, hrid⟩ := heardJob_ok.1 hr.symm
        by_cases hc : remote.cleanupStatus = .pending
        · simp only [hc, decide_true, Bool.or_true, if_true]
          refine .ret ⟨hf, rfl, .inr (.inr ⟨id, a, hid, ha, fun remote' h => ?_⟩)⟩
          rw [← hr] at h
          cases h
          exact hc
        · simp only [hc, decide_false, Bool.or_false, bne_iff_ne, ne_eq, hrid, not_true, if_false]
          exact .ret ⟨hf, .confirmed id remote hid (pending_of_skips hs) ⟨a, List.mem_cons_self, hin⟩ hrid hc,
            id, a, remote, hid, hs, ha, hr.symm, hc⟩
      · rintro e v' ⟨a, ha, he, rfl⟩
        refine ⟨.asked rfl, isGPUClientError_of_answered (heardJob_error he.symm), .inr (.inr ⟨id, a, hid, ha, fun remote h => ?_⟩)⟩
        rw [← he] at h
        cases h
    · rintro ⟨job', changed⟩ v' h
      cases changed <;> exact h
    · rintro e v' ⟨hf, he, hd⟩
      rw [if_pos he]
      exact .ret ⟨hf, rfl, hd⟩

theorem Reconciled.quiet {log log' : List Event} (h : Reconciled log job job') (hq : Quiet log log') :
    Reconciled log' job job' := by
  cases h with
  | kept => exact .kept
  | confirmed id remote hid hj ht hr hc =>
    obtain ⟨a, ha, hin⟩ := ht
    exact .confirmed id remote hid hj ⟨a, hq.mem ha, hin⟩ hr hc

/-- What the loop leaves. -/
def AskedAll (A : Env host) (v : View) (r : MeetingRecord) (jobs : List JobRecord)
    (out : Except Exn (List JobRecord × Bool)) (v' : View) : Prop :=
  Frame (fun _ => False) v v' ∧ match out with
    | .ok (jobs', changed) => List.Forall₂ (Reconciled v'.log) jobs jobs' ∧
        (changed = true → ∃ job ∈ jobs, Confirms A r job) ∧
        (changed = false → jobs' = jobs ∧ ∀ job ∈ jobs, Denies A r job)
    | .error _ => False

theorem does_reconcileJobs {jobs : List JobRecord} : Does A Legal (reconcileJobs r jobs) v (AskedAll A v r jobs) := by
  induction jobs generalizing v with
  | nil => exact .ret ⟨.refl v, .nil, nofun, fun _ => ⟨rfl, by simp⟩⟩
  | cons job jobs ih =>
    refine Does.bind does_reconcileJob ?_ ?_
    · rintro ⟨job₁, changed₁⟩ v₁ ⟨hf₁, h₁⟩
      refine Does.bind ih ?_ ?_
      · rintro ⟨jobs₂, changed₂⟩ v₂ ⟨hf₂, hall, ht, hf⟩
        have hstep : Reconciled v₂.log job job₁ := by
          cases changed₁ with
          | true => exact h₁.1.quiet hf₂.log
          | false => rw [h₁.1]; exact .kept
        refine .ret ⟨hf₁.trans hf₂, .cons hstep hall, fun hc => ?_, fun hc => ?_⟩
        · cases changed₁ with
          | true => exact ⟨job, List.mem_cons_self, h₁.2⟩
          | false =>
            obtain ⟨job', hm, hconf⟩ := ht (by simpa using hc)
            exact ⟨job', List.mem_cons_of_mem _ hm, hconf⟩
        · simp only [Bool.or_eq_false_iff] at hc
          obtain ⟨rfl, hc₂⟩ := hc
          obtain ⟨hjobs, hden⟩ := hf hc₂
          refine ⟨by rw [h₁.1, hjobs], fun job' hm => ?_⟩
          rcases List.mem_cons.1 hm with rfl | hm
          · exact h₁.2
          · exact hden job' hm
      · rintro e v₂ ⟨-, he⟩
        exact he.elim
    · rintro e v₁ ⟨-, he⟩
      exact he.elim

/-! ## The reconciled record -/

theorem Reconciled.same {log : List Event} (h : Reconciled log job job') : job'.attempt = job.attempt ∧
    job'.jobId = job.jobId ∧ job'.resultHash = job.resultHash ∧ job'.submitStarted = job.submitStarted := by
  cases h <;> exact ⟨rfl, rfl, rfl, rfl⟩

theorem find_reconciled {log : List Event} {n : Nat} {jobs jobs' : List JobRecord}
    (h : List.Forall₂ (Reconciled log) jobs jobs') {job' : JobRecord}
    (hj : (jobs'.find? fun j => j.attempt = n) = some job') :
    ∃ job, (jobs.find? fun j => j.attempt = n) = some job ∧ Reconciled log job job' := by
  induction h with
  | nil => cases hj
  | @cons j j' js js' hjj _ ih =>
    rw [List.find?_cons] at hj ⊢
    rw [hjj.same.1] at hj
    split at hj
    · next he => cases hj; exact ⟨j, rfl, hjj⟩
    · exact ih hj

theorem job_reconciled {log : List Event} (h : List.Forall₂ (Reconciled log) r.jobs r'.jobs)
    (ha : r'.meeting.attempt = r.meeting.attempt) (hj : r'.job = some job') :
    ∃ job, r.job = some job ∧ Reconciled log job job' := by
  unfold MeetingRecord.job at hj ⊢
  rw [ha] at hj
  exact find_reconciled h hj

theorem forall₂_reconciled_symm {log : List Event} {jobs jobs' : List JobRecord} {n : Nat} {job : JobRecord}
    (h : List.Forall₂ (Reconciled log) jobs jobs') (hj : (jobs.find? fun j => j.attempt = n) = some job) :
    ∃ job', (jobs'.find? fun j => j.attempt = n) = some job' ∧ Reconciled log job job' := by
  induction h with
  | nil => cases hj
  | @cons j j' js js' hjj _ ih =>
    rw [List.find?_cons] at hj ⊢
    rw [hjj.same.1]
    split at hj
    · next he => cases hj; exact ⟨j', rfl, hjj⟩
    · exact ih hj

theorem boundTo_reconciled {log : List Event} {m : ReadyManifest}
    (h : List.Forall₂ (Reconciled log) r.jobs r'.jobs) (ha : r'.meeting.attempt = r.meeting.attempt)
    (hb : r.boundTo m) : r'.boundTo m := by
  obtain ⟨job, hj, hid, hh⟩ := hb
  obtain ⟨job', hj', hc⟩ := forall₂_reconciled_symm h hj
  refine ⟨job', ?_, hc.same.2.1.trans hid, hc.same.2.2.1.trans hh⟩
  unfold MeetingRecord.job
  rw [ha]
  exact hj'

theorem Ready.reconciled (h : Ready v r) (hf : Frame (· = marker) v v') (hr' : v'.run readRecord = .ok r')
    (hjobs : List.Forall₂ (Reconciled v'.log) r.jobs r'.jobs) (ha : r'.meeting.attempt = r.meeting.attempt)
    (hs : r'.meeting.status = r.meeting.status) : Ready v' r' where
  readable := hr'
  rooted := hf.rooted _ h.rooted
  acting := h.acting.of_running hf.log.running
  unasked := by rw [hf.log.lookups]; exact h.unasked
  unsent := by rw [hf.log.submitted]; exact h.unsent
  fresh job' hj' hflag := by
    obtain ⟨job, hj, hc⟩ := job_reconciled hjobs ha hj'
    rw [ha, hf.log.submissions]
    exact h.fresh job hj (hc.same.2.2.2.symm.trans hflag)
  bound m hm hne := by
    have hman : v'.run readManifest = v.run readManifest :=
      (readResults_congr h.readable hr' ha fun n hn => hf.look fun he => by cases he; simp at hn).1
    rw [hman] at hm
    rw [hs] at hne ⊢
    obtain ⟨hp, hb⟩ := h.bound m hm hne
    exact ⟨hp, boundTo_reconciled hjobs ha hb⟩

/-- What `_reconcile_pending_jobs` leaves. -/
def ReconciledAll (A : Env host) (v : View) (r : MeetingRecord) (out : Except Exn MeetingRecord) (v' : View) : Prop :=
  match out with
  | .ok r' => Ready v' r' ∧ Frame (· = marker) v v' ∧ List.Forall₂ (Reconciled v'.log) r.jobs r'.jobs ∧
      r'.meeting.attempt = r.meeting.attempt ∧ r'.meeting.status = r.meeting.status ∧
      ((r' = r ∧ ∀ job ∈ r.jobs, Denies A r job) ∨
        (∃ t, r' = (({ r with jobs := r'.jobs } : MeetingRecord).withAggregate).touch t) ∧
          (∃ job ∈ r.jobs, Confirms A r job) ∧
          (r.meeting.status.published = true → ∃ x, v.run readResults = .ok x))
  | .error e => (e = .osError ∧ MayFail A) ∨ (r.meeting.status.published = true ∧ v.run readResults = .error e ∧
      ∃ job ∈ r.jobs, Confirms A r job)

theorem does_reconcilePendingJobs (h : Ready v r) :
    Does A Legal (reconcilePendingJobs r) v (ReconciledAll A v r) := by
  refine Does.bind does_reconcileJobs ?_ ?_
  swap
  · rintro e v₁ ⟨-, he⟩
    exact he.elim
  rintro ⟨jobs, changed⟩ v₁ ⟨hf₁, hall, hyes, hno⟩
  have hf₁' : Frame (· = marker) v v₁ := hf₁.mono fun _ h => h.elim
  have hr₁ : v₁.run readRecord = .ok r := (hf₁.run readOnly_readRecord fun _ _ => id).trans h.readable
  have hact₁ : coordinating v₁.log := h.acting.of_running hf₁.log.running
  cases changed with
  | false =>
    obtain ⟨rfl, hden⟩ := hno rfl
    exact .ret ⟨h.reconciled hf₁' hr₁ hall rfl rfl, hf₁', hall, rfl, rfl, .inl ⟨rfl, hden⟩⟩
  | true =>
    have hmove : ∀ t, Move v₁ r ((({ r with jobs := jobs } : MeetingRecord).withAggregate).touch t) :=
      fun t => .reconciled jobs t hall
    have hres : v₁.run readResults = v.run readResults := hf₁.run readOnly_readResults fun _ _ => id
    refine Does.bind (does_save hr₁ hmove rfl hact₁.acts) ?_ ?_
    · rintro x v₂ ⟨t, b, rfl, rfl, hpub⟩
      have hf₂ : Frame (· = marker) v₁ (v₁.marked ((({ r with jobs := jobs } : MeetingRecord).withAggregate).touch t)) :=
        (Frame.put (S := (· = marker)) rfl).trans (.sync _)
      have hall₂ := hall.imp fun _ _ h => Reconciled.quiet h hf₂.log
      refine .ret ⟨h.reconciled (hf₁'.trans hf₂) ((hmove t).readable_marked hr₁) hall₂ rfl rfl, hf₁'.trans hf₂, hall₂,
        rfl, rfl, .inr ⟨⟨t, rfl⟩, hyes rfl, fun hp => ?_⟩⟩
      rw [← hres]
      exact hpub hp
    · rintro e v₂ ⟨t, hu⟩
      cases hu with
      | refused _ hp he => exact .inr ⟨hp, hres ▸ he, hyes rfl⟩
      | nothing hf | shown hf | synced hf => exact .inl ⟨rfl, hf⟩

/-! ## `process_once` -/

theorem does_recover {x : Exn × MeetingRecord} (h : ∀ code, x.1.code = some code → Failable v x.2 code) :
    Does A Legal (recover x) v fun _ _ => True := by
  have hfail : ∀ code, x.1.code = some code → Does A Legal (fail x.2 code) v fun _ _ => True :=
    fun code hc => (does_fail (h code hc)).mono fun _ _ _ => trivial
  obtain ⟨e, r⟩ := x
  cases e with
  | gpuProtocol | validation | jobHistory | integrity _ => exact hfail .invalidResult rfl
  | gpuInput => exact hfail .sourceExpired rfl
  | gpuDomain status code =>
    simp only [Exn.code] at hfail
    have hgone : (code = .sourceExpired || code = .payloadDeleted : Bool) = code.sourceGone := by cases code <;> rfl
    have hunready : (code = .jobNotFound || code = .resultNotReady : Bool) = code.unready := by cases code <;> rfl
    simp only [recover, hgone, hunready]
    split
    · next hs => exact hfail .sourceExpired (if_pos hs)
    next hs =>
    split
    · exact does_readMeeting.mono fun _ _ _ => trivial
    · next hu => exact hfail _ ((if_neg hs).trans (if_neg hu))
  | _ => exact .raise trivial

/-- **`process_once` obeys the law.** -/
theorem does_processOnce (h : ∀ r, v.run readRecord = .ok r → Ready v r) :
    Does A Legal processOnce v fun _ _ => True := by
  have hprocess : Does A Legal process v fun _ _ => True := by
    refine Does.readThen readOnly_readRecord (fun r hr => ?_) (fun _ _ => trivial) fun _ => trivial
    refine Does.bind (does_reconcilePendingJobs (h r hr)) (fun r₁ v₁ h₁ => ?_) fun _ _ _ => trivial
    refine Does.handle (R := fun _ _ => True) ?_ (fun _ _ _ => trivial) fun e v₂ _ => ?_
    · refine Does.handle (does_advance h₁.1) (fun _ _ _ => trivial) fun x v₂ hx => does_recover hx
    · split
      · exact does_readMeeting.mono fun _ _ _ => trivial
      · exact .raise trivial
  refine Does.handle hprocess (fun _ _ _ => trivial) fun e v' _ => ?_
  split <;> exact .raise trivial

end Tirke
