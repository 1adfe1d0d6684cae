import Tirke.Spec.Cleanup
/-!
# From a polled job to committed results

`publish_results`, the resumed and the fresh half of `_advance`, down to `_cleanup`. Every exception that
`_process` turns into a failed meeting leaves a record in hand whose failure is a move from the one on
disk (`Failable`).
-/

set_option linter.unusedSectionVars false

namespace Tirke

open CrashProg CrashDisk

variable [Lib] [Home] [Weather] {A : Env host} [Forecast A] {v v' : View} {r r' : MeetingRecord} {b : ResultBundleV1}
  {m : ReadyManifest} {t : TranscriptV1} {i : InsightsV1} {job : JobRecord}

/-! ## Why a meeting is failed -/

/-- The code with which `_process` fails the meeting after an exception (`coordinator.py:74`). -/
def Exn.code : Exn → Option FailureCode
  | .gpuProtocol | .validation | .jobHistory | .integrity _ => some .invalidResult
  | .gpuInput => some .sourceExpired
  | .gpuDomain status code =>
    if code.sourceGone then some .sourceExpired
    else if code.unready then none
    else some (if status = 413 || status = 415 then .invalidAudio else .processingFailed)
  | _ => none

theorem Cause.code_ne {code : FailureCode} (h : Cause v r code) : code ≠ .gpuUnavailable := by
  cases h with
  | jobFailed q remote =>
    cases remote.failure with
    | none => nofun
    | some f =>
      obtain ⟨code, message⟩ := f
      cases code <;> nofun
  | rejected => split <;> nofun
  | _ => nofun

/-- A response that is refused is a cause, unless it says that a submission is pending. -/
theorem Cause.refused {q : Request} {a : Response} {e : Exn} {code : FailureCode} (h : .asked q a ∈ current v.log)
    (he : q.refused a e) (hp : ∀ status key, e = .gpuDomain status .submissionPending → q ≠ .getJobByKey key)
    (hc : e.code = some code) : Cause v r code := by
  cases e with
  | gpuProtocol =>
    cases hc
    exact .malformed q a h he
  | gpuDomain status c =>
    simp only [Exn.code] at hc
    split at hc
    · next hs =>
      cases hc
      exact .sourceGone q a status c h he hs
    split at hc
    · cases hc
    next hs hu =>
    cases hc
    refine .rejected q a status c h he (by simpa using hs) (by simpa using hu) fun hpend key => ?_
    exact hp status key (by rw [hpend])
  | gpuUnavailable => cases hc
  | _ => cases answered_of_refused he

/-- Stored results that cannot be read are a cause. -/
theorem Cause.inconsistent {e : Exn} {code : FailureCode} (h : v.run readResults = .error e) (hc : e.code = some code) :
    Cause v r code := by
  have hst := readResults_error h
  cases e with
  | integrity message =>
    cases hc
    exact .unreadable _ h nofun
  | meetingNotFound | notReady => cases hc
  | _ => exact hst.elim

/-- The record in hand may be saved as failed with the code. -/
structure Failable (v : View) (r : MeetingRecord) (code : FailureCode) : Prop where
  failable : ∃ old, v.run readRecord = .ok old ∧ r.meeting.attempt = old.meeting.attempt ∧
    ∀ t, Move v old ((r.failed code).touch t)
  acting : coordinating v.log

theorem failable_of {code : FailureCode} (hr : v.run readRecord = .ok r) (hs : r.meeting.status ≠ .failed)
    (hx : v.Unpublished) (ha : coordinating v.log) (hw : Cause v r code) : Failable v r code :=
  ⟨⟨r, hr, rfl, fun t => .failed code t hs hw.code_ne hx hw⟩, ha⟩

theorem unpublished_of {e : Exn} (h : v.run readManifest = .error e) : v.Unpublished := by
  intro x hx
  rw [readResults, Prog.bind_eq, run_bind, h] at hx
  cases hx

/-- What a step of `_advance` leaves. -/
def Advanced {α : Type} (out : Except (Exn × MeetingRecord) α) (v' : View) : Prop :=
  match out with
  | .ok _ => True
  | .error (e, r) => ∀ code, e.code = some code → Failable v' r code

/-- A step taken while the record in hand stays the same. -/
theorem Does.held {α : Type} {p : Serv α} {Q : Except (Exn × MeetingRecord) α → View → Prop}
    {R : Except Exn α → View → Prop} (h : Does A Legal p v R) (ok : ∀ a v', R (.ok a) v' → Q (.ok a) v')
    (error : ∀ e v', R (.error e) v' → Q (.error (e, r)) v') : Does A Legal (Tirke.held r p) v Q :=
  h.handle ok fun e v' he => .raise (error e v' he)

/-! ## `publish_results` -/

/-- What publishing for the first time may leave. -/
def PublishedOnce (A : Env host) (v : View) (r : MeetingRecord) (b : ResultBundleV1)
    (out : Except Exn ReadyManifest) (v' : View) : Prop :=
  match out with
  | .ok _ => ∃ t, Published v v' (r.published b t) b
  | .error e => (e = .osError ∧ MayFail A) ∨ (e = .notReady ∧ v.look (.folder, .manifest) ≠ none) ∨
      (e = .integrity "Original artifact already exists" ∧ Conflict v b.artifacts ∧ Conflict v' b.artifacts ∧
        Frame (named b.artifacts) v v')

theorem does_publishOnce (hr : v.run readRecord = .ok r) (hb : b.valid = true)
    (hmid : b.transcript.meetingId = Home.meetingId) (hserved : served v.log b) (hj : r.job = some job)
    (hid : job.jobId = some b.jobId) (hs : r.meeting.status = .processing)
    (hman : v.run readManifest = .error .notReady) (hact : coordinating v.log) :
    Does A Legal (publishResults b) v (PublishedOnce A v r b) := by
  unfold publishResults
  simp only [demand, hb, if_true, Prog.bind_eq, Prog.ret_bind]
  refine Does.readThen readOnly_readRecord (fun r₁ h => ?_) (fun e h => ?_) fun hf => .inl ⟨rfl, hf⟩
  swap
  · rw [hr] at h; cases h
  rw [hr] at h
  cases h
  simp only [hmid, decide_true, if_true, Prog.ret_bind, hj, Option.all_some, hid]
  refine Does.bind (R := fun out v' => v' = v ∧ (out = .ok (v.look (.folder, .manifest)).isSome ∨
    MayFail A ∧ out = .error .osError)) (Does.exists ⟨rfl, .inl rfl⟩ fun hf => ⟨rfl, .inr ⟨hf, rfl⟩⟩) ?_ ?_
  · rintro there v ⟨rfl, h | ⟨-, h⟩⟩
    · cases h
      cases hl : v.look (.folder, .manifest) with
      | none =>
        have hp : Publishing v r b := ⟨hr, hb, hmid, hserved, ⟨job, hj, hid⟩, hl⟩
        refine (does_publishFirst hr hl (hp.publishable hs hact)).mono ?_
        rintro (e | m) v' hq
        · exact hq.imp_right .inr
        · exact hq
      | some d =>
        refine Does.readThen readOnly_readManifest (fun m h => ?_) (fun e h => ?_) fun hf => .inl ⟨rfl, hf⟩
        · rw [hman] at h; cases h
        · rw [hman] at h
          cases h
          exact .inr (.inl ⟨rfl, by rw [hl]; simp⟩)
    · cases h
  · rintro e v ⟨rfl, h | ⟨hf, h⟩⟩
    · cases h
    · cases h; exact .inl ⟨rfl, hf⟩

/-- The first publication ends under the seal. -/
theorem Published.sealed {t : Time} (h : Published v v' (r.published b t) b) (hb : b.valid = true)
    (hmid : b.transcript.meetingId = Home.meetingId) (hj : r.job = some job)
    (hroot : v.Rooted .folder) (hact : coordinating v.log) :
    Sealed v' (r.published b t) (b.manifest (r.published b t).meeting.attempt) b.transcript b.insights where
  readable := h.readable
  committed := committed_of h.readable hb hmid h.artifacts h.manifest
  rooted := h.frame.rooted _ hroot
  durable q hq := by
    obtain ⟨d, n⟩ := q
    obtain rfl : d = .folder := resultFiles_folder hq
    exact h.durable n
  acting := hact.of_running h.frame.log.running
  published := by rw [published_eq hj]; rfl
  bound := ⟨_, job_published hj, rfl, rfl⟩

/-- What is committed may be published again. -/
theorem does_publishAgain (hr : v.run readRecord = .ok r) (hc : v.Committed m t i) (hb : r.boundTo m) :
    Does A Legal (publishResults (m.bundle t i)) v fun out v' =>
      (out = .ok m ∧ v' = v.syncs Dir.folder.chain) ∨ (MayFail A ∧ out = .error .osError) := by
  obtain ⟨job, hj, hid, -⟩ := hb
  obtain ⟨m', x, hm', -, -, -, -, -, -, hvalid, hmid⟩ := readResults_ok.1 hc.results
  obtain rfl : m = m' := Except.ok.inj (hc.manifest.symm.trans hm')
  obtain ⟨-, -, hlm, -⟩ := readManifest_ok.1 hc.manifest
  unfold publishResults
  simp only [demand, hvalid, if_true, Prog.bind_eq, Prog.ret_bind]
  refine Does.readThen readOnly_readRecord (fun r₁ h => ?_) (fun e h => ?_) fun hf => .inr ⟨hf, rfl⟩
  swap
  · rw [hr] at h; cases h
  rw [hr] at h
  cases h
  simp only [ReadyManifest.bundle, hmid, decide_true, if_true, Prog.ret_bind, hj, Option.all_some, hid]
  refine Does.bind (R := fun out v' => v' = v ∧ (out = .ok (v.look (.folder, .manifest)).isSome ∨
    MayFail A ∧ out = .error .osError)) (Does.exists ⟨rfl, .inl rfl⟩ fun hf => ⟨rfl, .inr ⟨hf, rfl⟩⟩) ?_ ?_
  · rintro there v ⟨rfl, h | ⟨-, h⟩⟩
    · cases h
      rw [hlm]
      refine (does_republish hc).mono ?_
      rintro out v' (h | ⟨hf, ho, -⟩)
      · exact .inl h
      · exact .inr ⟨hf, ho⟩
    · cases h
  · rintro e v ⟨rfl, h | ⟨hf, h⟩⟩
    · cases h
    · cases h; exact .inr ⟨hf, rfl⟩

/-! ## The resumed path -/

/-- What resuming leaves: the results that were there, or why they could not be used. -/
def Resumed (A : Env host) (v : View) (r : MeetingRecord) (m : ReadyManifest) (out : Except Exn Meeting)
    (v' : View) : Prop :=
  match out with
  | .ok _ => ∃ t i r', v.Committed m t i ∧ Sealed v' r' m t i ∧ r'.meeting.status = r.meeting.status ∧
      r'.meeting.attempt = r.meeting.attempt
  | .error e => (e = .osError ∧ MayFail A) ∨ (v' = v ∧ v.run readResults = .error e)

theorem does_resume (hr : v.run readRecord = .ok r) (hm : v.run readManifest = .ok m) (hb : r.boundTo m)
    (hp : r.meeting.status.published = true) (hroot : v.Rooted .folder) (hact : coordinating v.log) :
    Does A Legal (resume m) v (Resumed A v r m) := by
  refine Does.readThen readOnly_readResults (fun x hx => ?_) (fun e h => .inr ⟨rfl, h⟩) fun hf => .inl ⟨rfl, hf⟩
  obtain ⟨t, i⟩ := x
  have hc : v.Committed m t i := ⟨hm, hx⟩
  refine Does.bind (R := fun out v' => (out = .ok () ∧ v' = v.syncs Dir.folder.chain) ∨
    (MayFail A ∧ out = .error .osError)) ?_ ?_ ?_
  · refine Does.bind (does_publishAgain hr hc hb) ?_ ?_
    · rintro m' v' (⟨-, rfl⟩ | ⟨-, h⟩)
      · exact .ret (.inl ⟨rfl, rfl⟩)
      · cases h
    · rintro e v' (⟨h, -⟩ | ⟨hf, h⟩)
      · cases h
      · cases h; exact .inr ⟨hf, rfl⟩
  · rintro ⟨⟩ v' (⟨-, rfl⟩ | ⟨-, h⟩)
    swap
    · cases h
    have hsealed : Sealed (v.syncs Dir.folder.chain) r m t i :=
      { readable := (run_syncs readOnly_readRecord).trans hr
        committed := ⟨(run_syncs readOnly_readManifest).trans hm, (run_syncs readOnly_readResults).trans hx⟩
        rooted := rooted_syncs hroot _
        durable := fun q hq => by
          rw [dur_syncs, vol_syncs, if_pos (by rw [resultFiles_folder hq]; simp [Dir.chain])]
        acting := hact.of_running running_syncs
        published := hp
        bound := hb }
    refine Does.readThen readOnly_readRecord (fun r₁ h => ?_) (fun e h => ?_) fun hf => .inl ⟨rfl, hf⟩
    · rw [hsealed.readable] at h
      cases h
      refine (does_cleanup hsealed).mono ?_
      rintro (e | x) v' hq
      · exact .inl hq
      · obtain ⟨r', h', hs', ha'⟩ := hq
        exact ⟨t, i, r', hc, h', hs', ha'⟩
    · rw [hsealed.readable] at h; cases h
  · rintro e v' (⟨h, -⟩ | ⟨hf, h⟩)
    · cases h
    · cases h; exact .inl ⟨rfl, hf⟩

/-! ## The fresh path -/

/-- Why no result was published. -/
inductive Uncollected (A : Env host) (v : View) (r : MeetingRecord) (remote : JobV1) : Exn → View → Prop where
  | fault (v' : View) (h : MayFail A) : Uncollected A v r remote .osError v'
  | refused (e : Exn) (a : Response) (v' : View) (ha : MayAnswer A (.getResult remote.jobId) a)
      (he : heardBundle remote.jobId a = .error e) (hf : ∀ code, e.code = some code → Failable v' r code) :
      Uncollected A v r remote e v'
  | mismatch (a : Response) (b : ResultBundleV1) (v' : View) (ha : MayAnswer A (.getResult remote.jobId) a)
      (hb : heardBundle remote.jobId a = .ok b)
      (hne : ¬ (b.transcript.meetingId = Home.meetingId ∧ remote.resultHash = some b.resultHash))
      (hf : Failable v' r .invalidResult) : Uncollected A v r remote .gpuProtocol v'
  | stale (v' : View) (h : v.look (.folder, .manifest) ≠ none) : Uncollected A v r remote .notReady v'
  | conflict (a : Response) (b : ResultBundleV1) (v' : View) (ha : MayAnswer A (.getResult remote.jobId) a)
      (hb : heardBundle remote.jobId a = .ok b) (hc : Conflict v b.artifacts) (hf : Failable v' r .invalidResult) :
      Uncollected A v r remote (.integrity "Original artifact already exists") v'

/-- What collecting the completed job's result leaves. -/
def Collected (A : Env host) (v : View) (r : MeetingRecord) (remote : JobV1) (out : Except Exn Meeting)
    (v' : View) : Prop :=
  match out with
  | .ok _ => ∃ a b r', MayAnswer A (.getResult remote.jobId) a ∧ heardBundle remote.jobId a = .ok b ∧
      Sealed v' r' (b.manifest r.meeting.attempt) b.transcript b.insights ∧
      r'.meeting.status = .reviewRequired ∧ r'.meeting.attempt = r.meeting.attempt
  | .error e => Uncollected A v r remote e v'

theorem bundleIn_valid {a : Response} (h : bundleIn a = .ok b) : b.valid = true := by
  unfold bundleIn at h
  split at h
  · split at h
    · next hv => cases h; exact hv
    · cases h
  · cases h
  · cases h

theorem does_collect {remote : JobV1} (hr : v.run readRecord = .ok r) (hj : r.job = some job)
    (hid : job.jobId = some remote.jobId) (ht : ∃ q, told (current v.log) q remote) (hs : r.meeting.status = .processing)
    (hman : v.run readManifest = .error .notReady) (hroot : v.Rooted .folder) (hact : coordinating v.log) :
    Does A Legal (collect remote) v (Collected A v r remote) := by
  have hns : r.meeting.status ≠ .failed := by rw [hs]; rintro ⟨⟩
  refine Does.bind does_getResult ?_ ?_
  swap
  · rintro e v₁ ⟨a, ha, he, rfl⟩
    refine .refused e a _ ha he.symm fun code hcode => failable_of ((run_note readOnly_readRecord).trans hr) hns
      (unpublished_of ((run_note readOnly_readManifest).trans hman)) hact ?_
    exact .refused (q := .getResult remote.jobId) (a := a) List.mem_cons_self he.symm (by simp) hcode
  rintro b v₁ ⟨a, ha, hb, rfl⟩
  obtain ⟨hin, hbid⟩ := heardBundle_ok.1 hb.symm
  have hr₁ : (v.note (.asked (.getResult remote.jobId) a)).run readRecord = .ok r :=
    (run_note readOnly_readRecord).trans hr
  have hm₁ : (v.note (.asked (.getResult remote.jobId) a)).run readManifest = .error .notReady :=
    (run_note readOnly_readManifest).trans hman
  have hroot₁ : (v.note (.asked (.getResult remote.jobId) a)).Rooted .folder := ⟨hroot.now, hroot.later⟩
  have hl₁ : ∀ q, (v.note (.asked (.getResult remote.jobId) a)).look q = v.look q := fun _ => rfl
  have hlog : served (v.note (.asked (.getResult remote.jobId) a)).log b := ⟨a, by rw [hbid]; exact List.mem_cons_self, hin⟩
  have hact₁ : coordinating (v.note (.asked (.getResult remote.jobId) a)).log := hact
  have hasked : .asked (.getResult remote.jobId) a ∈ current (v.note (.asked (.getResult remote.jobId) a)).log :=
    List.mem_cons_self
  have ht₁ : ∃ q, told (current (v.note (.asked (.getResult remote.jobId) a)).log) q remote := by
    obtain ⟨q, a', ha', hin'⟩ := ht
    exact ⟨q, a', List.mem_cons_of_mem _ ha', hin'⟩
  generalize v.note (.asked (.getResult remote.jobId) a) = v₁ at *
  refine Does.bind does_demand ?_ ?_
  swap
  · rintro e _ ⟨rfl, rfl, hno⟩
    have hne : ¬ (b.transcript.meetingId = Home.meetingId ∧ remote.resultHash = some b.resultHash) := fun hyes => by
      simp [hbid, hyes] at hno
    obtain ⟨q, ht₁⟩ := ht₁
    exact .mismatch a b _ ha hb.symm hne
      (failable_of hr₁ hns (unpublished_of hm₁) hact₁ (.mismatched q remote a b ht₁ hasked hb.symm hne))
  rintro ⟨⟩ v₁ ⟨rfl, hyes⟩
  simp only [Bool.and_eq_true, decide_eq_true_eq] at hyes
  have hmid := hyes.1.2
  have hid₁ : job.jobId = some b.jobId := by rw [hid, hbid]
  refine Does.bind (R := fun out v' => Outcome (fun _ => ∃ t, Published v₁ v' (r.published b t) b)
      (fun e => Uncollected A v r remote e v') out) ?_ ?_ ?_
  · refine Does.bind (does_publishOnce hr₁ (bundleIn_valid hin) hmid hlog hj hid₁ hs hm₁ hact₁) ?_ ?_
    · exact fun _ _ h => .ret h
    · rintro e v' (⟨rfl, hf⟩ | ⟨rfl, h⟩ | ⟨rfl, hc, hc', hf⟩)
      · exact .fault _ hf
      · exact .stale _ (by rw [← hl₁]; exact h)
      · have hr' : v'.run readRecord = .ok r := by
          refine (hf.run readOnly_readRecord fun q hq hn => ?_).trans hr₁
          rcases named_artifacts hn with h | h | h <;> rw [hq] at h <;> cases h
        have hman' : v'.look (.folder, .manifest) = v₁.look (.folder, .manifest) :=
          hf.look fun hn => by rcases named_artifacts hn with h | h | h <;> cases h
        have hm' : v'.run readManifest = .error .notReady := by
          rw [run_readManifest hr', hman', ← run_readManifest hr₁]
          exact hm₁
        have hserved : served (current v'.log) b := ⟨a, hf.log.mem_current (by rw [hbid]; exact hasked), hin⟩
        refine .conflict a b _ ha hb.symm ?_ (failable_of hr' hns (unpublished_of hm') (hact₁.of_running hf.log.running)
          (.conflict b hserved hc'))
        obtain ⟨n, x, y, hx, hy, hne⟩ := hc
        exact ⟨n, x, y, hx, by rw [← hl₁]; exact hy, hne⟩
  · rintro ⟨⟩ v₂ ⟨t, hp⟩
    have hsealed := hp.sealed (bundleIn_valid hin) hmid hj hroot₁ hact₁
    refine Does.readThen readOnly_readRecord (fun r₂ h => ?_) (fun e h => ?_) fun hf => .fault _ hf
    · rw [hsealed.readable] at h
      cases h
      refine (does_cleanup hsealed).mono ?_
      rintro (e | x) v' hq
      · obtain ⟨rfl, hf⟩ := hq
        exact .fault _ hf
      · obtain ⟨r', h', hs', ha'⟩ := hq
        have hatt : (r.published b t).meeting.attempt = r.meeting.attempt := by rw [published_eq hj]; rfl
        rw [hatt] at h' ha'
        exact ⟨a, b, r', ha, hb.symm, h', by rw [hs', published_eq hj]; rfl, ha'⟩
    · rw [hsealed.readable] at h; cases h
  · exact fun _ _ h => h

end Tirke
