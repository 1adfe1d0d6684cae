import Tirke.Theorems.AckPending
import Tirke.Theorems.Export
import Tirke.Theorems.Forgotten
import Tirke.Theorems.Retry
/-!
# An interrupted publication is resumed

A publication that was stopped anywhere is finished by the next visit of the coordinator, if the GPU still serves the
same bundle for the job. The originals it left are no obstacle: `Drafted` says that they are that bundle's. What is in
the way is an earlier job: the record cannot be saved between its own publication and the manifest's, and
`_reconcile_pending_jobs` saves it as soon as the GPU confirms another cleanup.

| here | there |
| --- | --- |
| `Serves` | the GPU has completed the job, and serves its bundle |
| `unfinished` | `publish_results` was stopped after `_write_record` (`artifact_store.py:541`) |
| `does_advance_resumed`, `does_advance_recommitted` | the ways through `_advance` (`coordinator.py:121`) without and with a manifest |
-/

set_option linter.unusedSectionVars false

namespace Tirke

open CrashProg CrashDisk

section
variable [Lib] [Home] {v v' : View} {r r' : MeetingRecord} {b : ResultBundleV1} {job : JobRecord} {A : Env host} {c : Config}

/-! ## What a publication left -/

/-- An original in the folder is of a bundle that the GPU served for the job of the record, unless the meeting failed. -/
def Drafted : Property := fun v _ f => ∀ r, f .meeting = some (.record r) → r.meeting.status ≠ .failed →
  undamaged v.log → ∀ n ∈ resultNames, ∀ x, f n = some x →
    ∃ b job, served v.log b ∧ (n, x) ∈ b.artifacts ∧ r.job = some job ∧ job.jobId = some b.jobId

/-- What is drafted stays drafted where only the log grows, or other files change. -/
theorem Drafted.same {e : Event} {h : History} {f g : Name → Option Doc} (hp : Drafted v h f)
    (hm : g .meeting = f .meeting) (hg : ∀ n ∈ resultNames, ∀ x, g n = some x → f n = some x) (hl : v'.log = e :: v.log) :
    Drafted v' h g := by
  intro r hr hs hu n hn x hx
  rw [hl] at hu
  obtain ⟨b, job, hserved, hart, hj, hid⟩ := hp r (hm ▸ hr) hs (undamaged_cons hu) n hn x (hg n hn x hx)
  exact ⟨b, job, hl ▸ served_cons hserved, hart, hj, hid⟩

/-- Within the attempt, what is left of a job keeps its identity. -/
theorem Move.drafted (m : Move v r r') (hok : r.ok = true) (hs : r.meeting.status ≠ .failed) {id : UUID}
    (hj : r.job = some job) (hid : job.jobId = some id) : ∃ job', r'.job = some job' ∧ job'.jobId = some id := by
  have hatt : r'.meeting.attempt = r.meeting.attempt := by
    rcases m.attempt_or with ha | ⟨t, -, hf, -⟩
    · exact ha
    · exact absurd hf hs
  rcases m.jobs hok with hf | ⟨-, ha⟩
  · obtain ⟨job', hj', hm⟩ := job_moved hf hatt hj
    exact ⟨job', hj', hm.jobId hid⟩
  · omega

theorem stable_drafted : Stable (fun _ => True) Drafted where
  absent h0 r hr := by rw [h0] at hr; cases hr
  frozen _ _ _ hp := hp.same rfl (fun _ _ _ h => h) after_log
  bounds _ _ hp := hp.same rfl (fun _ _ _ h => h) rfl
  power _ hp := hp.same rfl (fun _ _ _ h => h) rfl
  damaged {v n d h f} _ _ _ := fun r _ _ hu => absurd List.mem_cons_self (hu n d)
  put {v n x} _ hl hn _ hp r hr hs hu m hm y hy := by
    rw [Function.update_of_ne hn.symm] at hr
    have hother : m ≠ n → ∃ b job, served (v.put (.folder, n) x).log b ∧ (m, y) ∈ b.artifacts ∧ r.job = some job ∧
        job.jobId = some b.jobId := by
      intro hne
      rw [Function.update_of_ne hne] at hy
      have hlog : (v.put (.folder, n) x).log = .file (.put (.folder, n) x) :: v.log := rfl
      exact hp.same rfl (fun _ _ _ h => h) hlog r hr hs hu m hm y hy
    by_cases hne : m = n
    swap
    · exact hother hne
    subst hne
    rw [Function.update_self] at hy
    cases hy
    cases hl with
    | artifact r₀ b m x hpub hst hx =>
      obtain ⟨job, hj, hid⟩ := hpub.job
      rw [files_of_readable hpub.readable] at hr
      cases hr
      exact ⟨b, job, served_cons hpub.served, hx, hj, hid⟩
    | moved | born => exact absurd rfl hn
    | uploaded | manifest | snapshot | review | pdf | pdfMarker => simp [resultNames] at hm
  removed {v n} _ hl hn _ hp := by
    refine hp.same (Function.update_of_ne hn.symm _ _) (fun m _ x hx => ?_) rfl
    by_cases hne : m = n
    · rw [hne, Function.update_self] at hx
      cases hx
    · rwa [Function.update_of_ne hne] at hx
  moved {v r r'} _ hr hok hm _ hp r₁ hr₁ hs hu n hn x hx := by
    rw [Function.update_self] at hr₁
    cases hr₁
    rw [Function.update_of_ne (by rintro rfl; simp [resultNames] at hn)] at hx
    by_cases hf : r.meeting.status = .failed
    · -- only a retry leaves that status, and it leaves no original
      rcases hm.attempt_or with ha | ⟨t, -, -, hnone⟩
      · exact absurd (hm.failed_stays ha hf) hs
      · have hl := hnone n (by
          simp only [resultNames, List.mem_cons, List.not_mem_nil, or_false] at hn
          rcases hn with rfl | rfl | rfl <;> simp [originals])
        rw [look_of_reach (p := (.folder, n)) (readable_reach hr)] at hl
        have hx' : v.img.vol (.folder, n) = some x := hx
        rw [hl] at hx'
        cases hx'
    · obtain ⟨b, job, hserved, hart, hj, hid⟩ := hp r (files_of_readable hr) hf (undamaged_cons hu) n hn x hx
      obtain ⟨job', hj', hid'⟩ := hm.drafted (readable_ok hr) hf hj hid
      exact ⟨b, job', served_cons hserved, hart, hj', hid'⟩
  born {v r} _ hl hr _ r₁ _ _ _ n hn x hx := by
    rw [Function.update_of_ne (by rintro rfl; simp [resultNames] at hn)] at hx
    cases hl with
    | moved _ _ _ _ _ ha => exact absurd hr ha
    | born metadata t kind hours audio extension _ _ _ _ ho =>
      have hx' : v.img.vol (.folder, n) = some x := hx
      rw [ho n (by rintro rfl; simp [resultNames] at hn)] at hx'
      cases hx'
    | artifact _ _ _ _ _ _ hx => simp [ResultBundleV1.artifacts] at hx

theorem Life.drafted {rot : Prop} (h : Life rot v) : Holds Drafted v := by
  induction h with
  | blank h => exact .blank stable_drafted h
  | legacy h =>
    refine .legacy h fun r hr hs hu n hn x hx => ?_
    simp only [resultNames, List.mem_cons, List.not_mem_nil, or_false] at hn
    rcases hn with rfl | rfl | rfl <;> cases hx
  | step _ hh ih => exact ih.step stable_drafted trivial hh

/-- **What a publication left is no obstacle** to the only bundle the GPU served for the job. -/
theorem Reach.noConflict (h : Reach (Step False) c) (hr : c.world.view.run readRecord = .ok r)
    (hs : r.meeting.status ≠ .failed) (hj : r.job = some job) (hid : job.jobId = some b.jobId)
    (hone : ∀ b', served c.world.log b' → b'.jobId = b.jobId → b' = b) : ¬ Conflict c.world.view b.artifacts := by
  rintro ⟨n, x, y, hx, hy, hne⟩
  have hlife : Life False c.world.view := (reach_good (fun _ _ h => h) h).life
  have hn : n ∈ resultNames := by rcases artifact_name hx with rfl | rfl | rfl <;> simp [resultNames]
  obtain ⟨b', job', hserved, hart, hj', hid'⟩ := hlife.drafted.now (inPlay_of_readable hr) r (files_of_readable hr) hs
    h.undamaged n hn y (vol_of_look hy)
  cases hj.symm.trans hj'
  obtain rfl := hone b' hserved (Option.some.inj (hid'.symm.trans hid))
  -- a bundle has one artifact of each name
  simp only [ResultBundleV1.artifacts, List.mem_cons, Prod.mk.injEq, List.not_mem_nil, or_false] at hx hart
  rcases hx with ⟨rfl, rfl⟩ | ⟨rfl, rfl⟩ | ⟨rfl, rfl⟩ <;> simp at hart <;> exact hne hart

end

/-! ## One visit -/

section
variable [Lib] [Home] [Weather] {A : Env host} [Forecast A] {v v' : View} {r r' : MeetingRecord} {b : ResultBundleV1}
  {job : JobRecord}

/-- Nothing fails, and whoever asks about the bundle's job learns that it is completed, and gets the bundle. -/
structure Serves (A : Env host) (b : ResultBundleV1) : Prop where
  calm : ¬ MayFail A
  job : ∀ a, MayAnswer A (.getJob b.jobId) a → ∃ remote, heardJob b.jobId a = .ok remote ∧ remote.status = .completed ∧
    remote.resultHash = some b.resultHash
  result : ∀ a, MayAnswer A (.getResult b.jobId) a → heardBundle b.jobId a = .ok b

/-- The results are the bundle's, under a record with the status `s`. -/
def Recovered (n : Nat) (s : MeetingStatus) (b : ResultBundleV1) (v : View) : Prop :=
  ∃ r, Sealed v r (b.manifest n) b.transcript b.insights ∧ r.meeting.status = s ∧ r.meeting.attempt = n

theorem Conflict.congr {xs : List (Name × Doc)} (h : Conflict v' xs) (hl : ∀ n x, (n, x) ∈ xs → v'.look (.folder, n) = v.look (.folder, n)) :
    Conflict v xs := by
  obtain ⟨n, x, y, hx, hy, hne⟩ := h
  exact ⟨n, x, y, hx, (hl n x hx).symm.trans hy, hne⟩

/-- The result of the completed job is collected. -/
theorem does_bound_resumed {remote : JobV1} (hA : Serves A b) (hr : v.run readRecord = .ok r) (hj : r.job = some job)
    (hh : Heard v.log r job remote) (hid' : remote.jobId = b.jobId)
    (hc : remote.status = .completed) (hhash : remote.resultHash = some b.resultHash)
    (hmid : b.transcript.meetingId = Home.meetingId) (hs : r.meeting.status ≠ .failed) (hs' : r.meeting.status ≠ .approved)
    (hl : v.look (.folder, .manifest) = none) (hno : ¬ Conflict v b.artifacts) (hroot : v.Rooted .folder)
    (hact : coordinating v.log) : Does A Legal (bound r job remote) v fun out v' =>
      ∃ m, out = .ok m ∧ Recovered r.meeting.attempt .reviewRequired b v' := by
  have hman : v.run readManifest = .error .notReady := by rw [run_readManifest hr, hl]
  refine (does_bound hr hj rfl hh hs hman hroot hact).mono ?_
  rintro (⟨e, r₁⟩ | m) v' hq
  · exfalso
    cases hq.2 with
    | fault _ hf => exact hA.calm hf
    | stage hst => exact hs' (approved_of_stage (readable_ok hr) hst)
    | uncollected t e v' _ hun =>
      have hlook : ∀ n, n ≠ .meeting → (v.marked (((r.polled remote).progressed remote).touch t)).look (.folder, n) =
          v.look (.folder, n) := fun n hn => look_mark (v := v) fun he => hn (congrArg Prod.snd he)
      cases hun with
      | fault _ hf => exact hA.calm hf
      | refused e a _ ha he =>
        rw [hid', hA.result a (hid' ▸ ha)] at he
        cases he
      | mismatch a b' _ ha hb hne =>
        rw [hid', hA.result a (hid' ▸ ha)] at hb
        cases hb
        exact hne ⟨hmid, hhash⟩
      | stale _ hst => exact hst ((hlook .manifest nofun).trans hl)
      | conflict a b' _ ha hb hcon =>
        rw [hid', hA.result a (hid' ▸ ha)] at hb
        cases hb
        exact hno (hcon.congr fun n x hx => hlook n (by rcases artifact_name hx with rfl | rfl | rfl <;> nofun))
  · obtain ⟨t, a, b', r', ha, hb, hsealed, hst, hatt⟩ := hq hc
    rw [hid', hA.result a (hid' ▸ ha)] at hb
    cases hb
    exact ⟨m, rfl, r', hsealed, hst, hatt⟩

/-- The attempt is bound to the bundle's job, and what is stored of its results is the bundle's. -/
structure Resumable (v : View) (r : MeetingRecord) (b : ResultBundleV1) : Prop where
  meeting : b.transcript.meetingId = Home.meetingId
  bound : ∃ job, r.job = some job ∧ job.jobId = some b.jobId
  status : r.meeting.status ≠ .failed
  stored : v.look (.folder, .manifest) = none ∧ r.meeting.status ≠ .approved ∧ ¬ Conflict v b.artifacts ∨
    v.run readManifest = .ok (b.manifest r.meeting.attempt) ∧ v.run readResults = .ok (b.transcript, b.insights)

/-- The status under which the results are published again. -/
def MeetingStatus.resumed (s : MeetingStatus) : MeetingStatus := if s = .approved then .approved else .reviewRequired

/-- A handler does not matter where nothing is raised. -/
theorem Does.returning {L : Law} {ε ε' α : Type} {p : Prog Ops ε α} {f : ε → Prog Ops ε' α} {Q : α → View → Prop}
    (h : Does A L p v fun out v' => ∃ a, out = .ok a ∧ Q a v') :
    Does A L (p.handle f) v fun out v' => ∃ a, out = .ok a ∧ Q a v' := by
  refine Does.handle h ?_ ?_
  · rintro a v' ⟨_, ha, hq⟩
    cases ha
    exact ⟨a, rfl, hq⟩
  · rintro e v' ⟨a, ha, -⟩
    cases ha

/-- **Without a manifest**, the job is asked for, and its bundle is published. -/
theorem does_advance_resumed (hA : Serves A b) (h : Ready v r) (hb : Resumable v r b) (hs' : r.meeting.status ≠ .approved)
    (hl : v.look (.folder, .manifest) = none) (hno : ¬ Conflict v b.artifacts) :
    Does A Legal (advance r) v fun out v' => ∃ m, out = .ok m ∧ Recovered r.meeting.attempt .reviewRequired b v' := by
  obtain ⟨job, hj, hid⟩ := hb.bound
  have hman : v.run readManifest = .error .notReady := by rw [run_readManifest h.readable, hl]
  unfold advance
  rw [if_neg hb.status, hj]
  refine Does.bind (R := fun out v' => out = .ok none ∧ v' = v) ?_ ?_ fun x v' hq => by cases hq.1
  · refine Does.held does_orManifest ?_ ?_
    · rintro (_ | m) v' ⟨rfl, hm⟩
      · exact ⟨rfl, rfl⟩
      · rw [hman] at hm
        cases hm
    · rintro e v' ⟨rfl, ⟨hm, hne⟩ | ⟨-, hf⟩⟩
      · rw [hman] at hm
        cases hm
        exact absurd rfl hne
      · exact absurd hf hA.calm
  rintro found v ⟨hfound, rfl⟩
  cases hfound
  simp only [hid]
  refine Does.bind (R := fun out v' => ∃ a remote, out = .ok remote ∧ MayAnswer A (.getJob b.jobId) a ∧
    heardJob b.jobId a = .ok remote ∧ v' = v.note (.asked (.getJob b.jobId) a)) ?_ ?_ fun x v' hq => by
      obtain ⟨a, remote, hx, -⟩ := hq
      cases hx
  · refine Does.held does_getJob ?_ ?_
    · rintro remote v' ⟨a, ha, hin, rfl⟩
      exact ⟨a, remote, rfl, ha, hin.symm, rfl⟩
    · rintro e v' ⟨a, ha, hin, -⟩
      obtain ⟨remote, hok, -⟩ := hA.job a ha
      rw [hok] at hin
      cases hin
  rintro remote v' ⟨a, _, hout, ha, hin, rfl⟩
  cases hout
  obtain ⟨remote', hok, hc, hhash⟩ := hA.job a ha
  cases hin.symm.trans hok
  obtain ⟨hjob, hrid⟩ := heardJob_ok.1 hin
  exact does_bound_resumed hA ((run_note readOnly_readRecord).trans h.readable) hj
    (.polled (hrid ▸ hid) ⟨a, _, by rw [hrid]; rfl, hjob⟩) hrid hc hhash hb.meeting hb.status hs' hl hno
    ⟨h.rooted.now, h.rooted.later⟩ h.acting

/-- **With a manifest**, what it names is published again. -/
theorem does_advance_recommitted (hA : Serves A b) (h : Ready v r) (hb : Resumable v r b)
    (hm : v.run readManifest = .ok (b.manifest r.meeting.attempt)) (hx : v.run readResults = .ok (b.transcript, b.insights)) :
    Does A Legal (advance r) v fun out v' =>
      ∃ m, out = .ok m ∧ Recovered r.meeting.attempt r.meeting.status b v' := by
  obtain ⟨job, hj, -⟩ := hb.bound
  obtain ⟨hpub, hbound⟩ := h.bound _ hm hb.status
  unfold advance
  rw [if_neg hb.status, hj]
  refine Does.bind (R := fun out v' => out = .ok (some (b.manifest r.meeting.attempt)) ∧ v' = v) ?_ ?_ fun x v' hq => by
    cases hq.1
  · refine Does.held does_orManifest ?_ ?_
    · rintro (_ | m) v' ⟨rfl, hm'⟩
      · rw [hm] at hm'
        cases hm'
      · cases hm.symm.trans hm'
        exact ⟨rfl, rfl⟩
    · rintro e v' ⟨rfl, ⟨hm', -⟩ | ⟨-, hf⟩⟩
      · rw [hm] at hm'
        cases hm'
      · exact absurd hf hA.calm
  rintro found v ⟨hfound, rfl⟩
  cases hfound
  refine Does.held (does_resume h.readable hm hbound hpub h.rooted h.acting) ?_ ?_
  · rintro m v' ⟨t, i, r', hcom, hsealed, hst, hatt⟩
    cases hcom.results.symm.trans hx
    exact ⟨m, rfl, r', hsealed, hst, hatt⟩
  · rintro e v' (⟨-, hf⟩ | ⟨-, he⟩)
    · exact absurd hf hA.calm
    · rw [hx] at he
      cases he

theorem Resumable.reconciled (hb : Resumable v r b) (h : Ready v r) (hr' : v'.run readRecord = .ok r')
    (hf : Frame (· = marker) v v') (hjobs : List.Forall₂ (Reconciled v'.log) r.jobs r'.jobs)
    (ha : r'.meeting.attempt = r.meeting.attempt) (hs : r'.meeting.status = r.meeting.status) : Resumable v' r' b := by
  have hlook : ∀ n, n ≠ .meeting → v'.look (.folder, n) = v.look (.folder, n) := fun n hn =>
    hf.look fun he => hn (congrArg Prod.snd he)
  obtain ⟨job, hj, hid⟩ := hb.bound
  obtain ⟨job', hj', hc⟩ := forall₂_reconciled_symm hjobs hj
  have hjob : r'.job = some job' := by
    unfold MeetingRecord.job
    rw [ha]
    exact hj'
  refine ⟨hb.meeting, ⟨job', hjob, hc.same.2.1.trans hid⟩, by rw [hs]; exact hb.status, ?_⟩
  rcases hb.stored with ⟨hl, hs', hno⟩ | ⟨hm, hx⟩
  · refine .inl ⟨(hlook .manifest nofun).trans hl, by rw [hs]; exact hs', fun hcon => hno (hcon.congr fun n x hn => ?_)⟩
    exact hlook n (by rcases artifact_name hn with rfl | rfl | rfl <;> nofun)
  · obtain ⟨hman, hres⟩ := readResults_congr h.readable hr' ha fun n hn => hlook n (by rintro rfl; simp at hn)
    exact .inr ⟨by rw [ha]; exact hman.trans hm, hres.trans hx⟩

/-- **The next visit commits the bundle**, if it is not kept from it by what it learns of an earlier job. -/
theorem does_processOnce_resumed (hA : Serves A b) (h : Ready v r) (hb : Resumable v r b)
    (hno : r.meeting.status.published = true → v.look (.folder, .manifest) = none → ∀ job ∈ r.jobs, ¬ Confirms A r job) :
    Does A Legal processOnce v fun out v' =>
      ∃ m, out = .ok m ∧ Recovered r.meeting.attempt r.meeting.status.resumed b v' := by
  have hadvance : ∀ {v₁ r₁}, Ready v₁ r₁ → Resumable v₁ r₁ b → Does A Legal (advance r₁) v₁ fun out v' =>
      ∃ m, out = .ok m ∧ Recovered r₁.meeting.attempt r₁.meeting.status.resumed b v' := by
    intro v₁ r₁ h₁ hb₁
    rcases hb₁.stored with ⟨hl, hs', hcon⟩ | ⟨hm, hx⟩
    · rw [MeetingStatus.resumed, if_neg hs']
      exact does_advance_resumed hA h₁ hb₁ hs' hl hcon
    · obtain ⟨hpub, -⟩ := h₁.bound _ hm hb₁.status
      have hst : r₁.meeting.status.resumed = r₁.meeting.status := by
        cases hs : r₁.meeting.status with
        | reviewRequired | approved => rfl
        | _ => rw [hs] at hpub; cases hpub
      rw [hst]
      exact does_advance_recommitted hA h₁ hb₁ hm hx
  have hprocess : Does A Legal process v fun out v' =>
      ∃ m, out = .ok m ∧ Recovered r.meeting.attempt r.meeting.status.resumed b v' := by
    refine Does.readThen readOnly_readRecord (fun r₁ hr₁ => ?_) (fun e he => ?_) fun hf => absurd hf hA.calm
    swap
    · rw [h.readable] at he
      cases he
    cases h.readable.symm.trans hr₁
    refine Does.bind (does_reconcilePendingJobs h) ?_ ?_
    swap
    · rintro e v₁ (⟨-, hf⟩ | ⟨hpub, he, job, hjob, hconf⟩)
      · exact absurd hf hA.calm
      · rcases hb.stored with ⟨hl, -⟩ | ⟨-, hx⟩
        · exact absurd hconf (hno hpub hl job hjob)
        · rw [hx] at he
          cases he
    rintro r₁ v₁ ⟨h₁, hf, hjobs, ha, hs, -⟩
    have hb₁ := hb.reconciled h h₁.readable hf hjobs ha hs
    rw [← ha, ← hs]
    exact (hadvance h₁ hb₁).returning.returning
  exact hprocess.returning

/-! ## What is in the way -/

/-- **An earlier job whose cleanup is confirmed keeps a half-published meeting from being resumed.** -/
theorem does_processOnce_refused (hc : ¬ MayFail A) (h : Ready v r) (hp : r.meeting.status.published = true)
    (hl : v.look (.folder, .manifest) = none) (hyes : ∃ job ∈ r.jobs, ¬ Denies A r job) :
    Does A Legal processOnce v fun out v' => out = .error .notReady ∧ Frame (fun _ => False) v v' := by
  have hres : v.run readResults = .error .notReady := by
    simp only [readResults, Prog.bind_eq, run_bind, run_readManifest h.readable, hl]
    rfl
  have hreconcile : Does A Legal (reconcilePendingJobs r) v fun out v' =>
      out = .error .notReady ∧ Frame (fun _ => False) v v' := by
    refine Does.bind does_reconcileJobs ?_ ?_
    swap
    · rintro e v₁ ⟨-, he⟩
      exact he.elim
    rintro ⟨jobs, changed⟩ v₁ ⟨hf, hall, -, hden⟩
    cases changed with
    | false =>
      obtain ⟨job, hjob, hnot⟩ := hyes
      exact absurd ((hden rfl).2 job hjob) hnot
    | true =>
      have hr₁ : v₁.run readRecord = .ok r := (hf.run readOnly_readRecord fun _ _ => id).trans h.readable
      have hres₁ : v₁.run readResults = .error .notReady := (hf.run readOnly_readResults fun _ _ => id).trans hres
      have hact : coordinating v₁.log := h.acting.of_running hf.log.running
      have hmove : ∀ t, Move v₁ r ((({ r with jobs := jobs } : MeetingRecord).withAggregate).touch t) :=
        fun t => .reconciled jobs t hall
      refine Does.bind (does_save hr₁ hmove rfl hact.acts) ?_ ?_
      · rintro x v₂ ⟨t, b, -, -, hpub⟩
        obtain ⟨y, hy⟩ := hpub hp
        cases hy.symm.trans hres₁
      · rintro e v₂ ⟨t, hu⟩
        cases hu with
        | refused _ _ he =>
          cases he.symm.trans hres₁
          exact ⟨rfl, hf⟩
        | nothing hfail | shown hfail | synced hfail => exact absurd hfail hc
  have hprocess : Does A Legal process v fun out v' => out = .error .notReady ∧ Frame (fun _ => False) v v' := by
    refine Does.readThen readOnly_readRecord (fun r₁ hr₁ => ?_) (fun e he => ?_) fun hf => absurd hf hc
    swap
    · rw [h.readable] at he
      cases he
    cases h.readable.symm.trans hr₁
    refine Does.bind hreconcile (fun r₁ v₁ hq => by cases hq.1) fun e v₁ hq => ?_
    cases hq.1
    exact ⟨rfl, hq.2⟩
  refine Does.handle hprocess (fun m v' hq => by cases hq.1) fun e v' hq => ?_
  cases hq.1
  exact .raise ⟨rfl, hq.2⟩

end

/-! ## From any reachable state -/

section
variable [Lib] [Home] {v : View} {r : MeetingRecord} {b : ResultBundleV1} {job : JobRecord} {A : Env host} {c : Config}

/-- The record is published, its results are not. -/
def View.unfinished (v : View) (r : MeetingRecord) : Prop :=
  r.meeting.status.published = true ∧ v.look (.folder, .manifest) = none

/-- Readers see the bundle under the status `s`, and see it after a power failure too. -/
structure ShowsBundle (v : View) (r : MeetingRecord) (b : ResultBundleV1) : Prop where
  shown : ∃ m, v.shown = .ok m ∧ m.status = r.meeting.status.resumed ∧ m.attempt = r.meeting.attempt
  results : v.run readResults = .ok (b.transcript, b.insights)
  durable : v.afterPower.run readResults = .ok (b.transcript, b.insights)

theorem Recovered.shows (h : Recovered r.meeting.attempt r.meeting.status.resumed b v) : ShowsBundle v r b := by
  obtain ⟨r', hsealed, hs, ha⟩ := h
  refine ⟨⟨r'.meeting, ?_, hs, ha⟩, hsealed.committed.results, hsealed.afterPower.results⟩
  rw [View.shown, run_bind, hsealed.readable, ok_bind, run_showStatus, if_pos hsealed.published, hsealed.committed.results]

theorem Reach.resumable (h : Reach (Step False) c) (hr : c.world.view.run readRecord = .ok r)
    (hs : r.meeting.status ≠ .failed) (hj : r.job = some job) (hid : job.jobId = some b.jobId)
    (hmid : b.transcript.meetingId = Home.meetingId)
    (hone : ∀ b', served c.world.log b' → b'.jobId = b.jobId → b' = b) : Resumable c.world.view r b := by
  have hi : Inv c.world.view := h.inv
  refine ⟨hmid, ⟨job, hj, hid⟩, hs, ?_⟩
  rcases hi.results h.undamaged hr with ⟨hnone, hres⟩ | ⟨b', hman, hpassed, -, hres⟩
  · refine .inl ⟨(look_of_reach (p := (.folder, .manifest)) (readable_reach hr)).trans hnone, fun happ => ?_,
      h.noConflict hr hs hj hid hone⟩
    -- what is approved can be read
    obtain ⟨t, i, hup⟩ := (reach_good (fun _ _ h => h) h : Good False c).life.upToDate hr happ
    obtain ⟨x, hx⟩ := run_readCurrentLocked_results ((run_reviewed hup.readable).symm.trans hup.read)
    cases hres.symm.trans hx
  · obtain ⟨d, hd⟩ := Option.ne_none_iff_exists'.1 hman
    obtain ⟨b₂, hb₂⟩ := hi.backed.now (inPlay_of_readable hr) r d (files_of_readable hr) hd
    obtain ⟨job', hj', hid', -⟩ := hb₂.bound
    cases hj.symm.trans hj'
    obtain rfl := hone b₂ hb₂.served (Option.some.inj (hid'.symm.trans hid))
    exact .inr ⟨hb₂.read hr hd, hb₂.results hr hd h.undamaged⟩

theorem Resumable.note (h : Resumable v r b) {e : Event} : Resumable (v.note e) r b := by
  refine ⟨h.meeting, h.bound, h.status, ?_⟩
  rcases h.stored with ⟨hl, hs, hno⟩ | ⟨hm, hx⟩
  · exact .inl ⟨hl, hs, fun hcon => hno (hcon.congr fun _ _ _ => rfl)⟩
  · exact .inr ⟨(run_note readOnly_readManifest).trans hm, (run_note readOnly_readResults).trans hx⟩

/-- **An interrupted publication is resumed.** Wherever it was stopped, the next visit in which nothing fails and the GPU
serves the job's bundle commits it; unless it learns that the copy of an earlier job is gone, while the record is
published and its results are not: then it raises `NotReady`, and every file is as before. -/
theorem publication_is_resumed (h : Reach (Step False) c) (hidle : c.idle) (hr : c.world.view.run readRecord = .ok r)
    (hs : r.meeting.status ≠ .failed) (hj : r.job = some job) (hid : job.jobId = some b.jobId)
    (hmid : b.transcript.meetingId = Home.meetingId)
    (hone : ∀ b', served c.world.log b' → b'.jobId = b.jobId → b' = b) (hA : Serves A b) :
    ((c.world.view.unfinished r → ∀ job ∈ r.jobs, ¬ Confirms A r job) →
      Sat A (fun _ _ => True) (fun out (w : World) => (∃ m, out = .ok m) ∧ ShowsBundle w.view r b) processOnce
        (c.begin .processOnce).world) ∧
    (c.world.view.unfinished r → (∃ job ∈ r.jobs, ¬ Denies A r job) →
      Sat A (fun _ _ => True) (fun out (w : World) => out = .error .notReady ∧
        ∀ q, w.view.look q = c.world.view.look q) processOnce (c.begin .processOnce).world) := by
  have hg : Good False c := reach_good (fun _ _ h => h) h
  have hready := ready_begin h hidle hr
  constructor
  · intro hno
    have hb := (h.resumable hr hs hj hid hmid hone).note (e := .started .processOnce)
    have hdoes := @does_processOnce_resumed _ _ ⟨A⟩ A forecast_self _ r b hA hready hb fun hp hl => hno ⟨hp, hl⟩
    refine ((hdoes _ rfl hg.fit).weaken (fun _ _ _ h => h) fun _ _ _ => trivial).mono ?_
    rintro out w ⟨-, m, ho, hq⟩
    exact ⟨⟨m, ho⟩, hq.shows⟩
  · rintro ⟨hp, hl⟩ hyes
    have hdoes := @does_processOnce_refused _ _ ⟨A⟩ A forecast_self _ r hA.calm hready hp hl hyes
    refine ((hdoes _ rfl hg.fit).weaken (fun _ _ _ h => h) fun _ _ _ => trivial).mono ?_
    rintro out w ⟨-, ho, hf⟩
    exact ⟨ho, fun q => hf.look id⟩

end

section
attribute [local instance] Sample.lib Sample.home

/-- The log shows no other bundle of the job. -/
def servedOnly (b : ResultBundleV1) (log : List Event) : Bool := log.all fun e => match e with
  | .asked (.getResult id) a => id != b.jobId || a == .http 200 (.bundle b)
  | _ => true

theorem served_only {b b' : ResultBundleV1} {log : List Event} (h : servedOnly b log = true) (hs : served log b')
    (hid : b'.jobId = b.jobId) : b' = b := by
  obtain ⟨a, ha, hin⟩ := hs
  have hall := List.all_eq_true.1 h _ ha
  simp only [hid, bne_self_eq_false, Bool.false_or, beq_iff_eq] at hall
  subst hall
  have hread : bundleIn (.http 200 (.bundle b)) = if b.valid then .ok b else .error .gpuProtocol := rfl
  rw [hread] at hin
  split at hin
  · cases hin
    rfl
  · cases hin

namespace Sample

def cleanedJob : JobV1 := { failedJob with cleanupStatus := .deleted, receiptExpiresAt := some 6000 }

/-- The second attempt's publication is interrupted between the record and the manifest. -/
def parted : Config := failed.cues [.start .retry, .play never fun _ _ => .calm, .finish, .start .processOnce,
  .play linksManifest (answering (remaking failedJob)), .kill]

theorem reach_parted : Reach (Step False) parted := reach_failed.cues (.inr rfl)

def given (g : Request → Response) : Env host := fun w o ch => ch = answering g w o

theorem answer_given {g : Request → Response} {q : Request} {a : Response} (h : MayAnswer (given g) q a) : a = g q := by
  obtain ⟨w, ch, hch, rfl⟩ := h
  rw [show ch = answering g w (.ask q) from hch]
  rfl

theorem serves_remaking (j : JobV1) : Serves (given (remaking j)) remade := by
  refine ⟨?_, fun a ha => ?_, fun a ha => ?_⟩
  · rintro ⟨w, o, ch, h, hf⟩
    rw [show ch = answering (remaking j) w o from h] at hf
    cases o <;> cases hf
  · rw [answer_given ha]
    have hjob : heardJob 11 (.http 200 (.job (Sample.job remade))) = .ok (Sample.job remade) := by decide +kernel
    exact ⟨Sample.job remade, hjob, rfl, rfl⟩
  · rw [answer_given ha]
    show heardBundle 11 (.http 200 (.bundle remade)) = .ok remade
    decide +kernel

/-- The visit learns that the job's copy is gone. -/
def confirmedBy (g : Request → Response) (r : MeetingRecord) (j : JobRecord) : Bool :=
  match j.jobId with
  | none => false
  | some id => !r.skips j && match heardJob id (g (.getJob id)) with
    | .ok remote => remote.cleanupStatus != .pending
    | .error _ => false

theorem confirmed_given {g : Request → Response} {r : MeetingRecord} {j : JobRecord} (h : Confirms (given g) r j) :
    confirmedBy g r j = true := by
  obtain ⟨id, a, remote, hid, hskip, ha, hin, hne⟩ := h
  rw [answer_given ha] at hin
  simp [confirmedBy, hid, hskip, hin, hne]

theorem denied_given {g : Request → Response} {r : MeetingRecord} {j : JobRecord} (h : Denies (given g) r j) :
    confirmedBy g r j = false := by
  rcases h with hid | hskip | ⟨id, a, hid, ha, hpend⟩
  · simp [confirmedBy, hid]
  · cases hid : j.jobId <;> simp [confirmedBy, hid, hskip]
  · rw [answer_given ha] at hpend
    simp only [confirmedBy, hid]
    cases hin : heardJob id (g (.getJob id)) with
    | error e => simp
    | ok remote => simp [hpend remote hin]

theorem read_parted : parted.world.view.run readRecord = .ok (recordOf parted) ∧
    (recordOf parted).meeting.status = .reviewRequired ∧ (recordOf parted).meeting.attempt = 2 ∧
    parted.world.view.look (.folder, .manifest) = none ∧
    (recordOf parted).job.map (·.jobId) = some (some 11) ∧ servedOnly remade parted.world.log = true ∧
    ((recordOf parted).jobs.any (confirmedBy (remaking failedJob) (recordOf parted))) = false ∧
    ((recordOf parted).jobs.any (confirmedBy (remaking cleanedJob) (recordOf parted))) = true := by decide +kernel

end Sample

theorem publication_is_resumed_sample :
    Sat (Sample.given (Sample.remaking Sample.failedJob)) (fun _ _ => True) (fun out (w : World) => (∃ m, out = .ok m) ∧
      ShowsBundle w.view (Sample.recordOf Sample.parted) Sample.remade) processOnce (Sample.parted.begin .processOnce).world ∧
    Sat (Sample.given (Sample.remaking Sample.cleanedJob)) (fun _ _ => True) (fun out (w : World) => out = .error .notReady ∧
      ∀ q, w.view.look q = Sample.parted.world.view.look q) processOnce (Sample.parted.begin .processOnce).world := by
  obtain ⟨hr, hs, -, hl, hjob, honly, hdenied, hconfirmed⟩ := Sample.read_parted
  have hp : Sample.parted.world.view.unfinished (Sample.recordOf Sample.parted) := ⟨by rw [hs]; rfl, hl⟩
  have hne : (Sample.recordOf Sample.parted).meeting.status ≠ .failed := by rw [hs]; nofun
  obtain ⟨job, hj, hid⟩ := Option.map_eq_some_iff.1 hjob
  refine ⟨(publication_is_resumed Sample.reach_parted rfl hr hne hj hid rfl (fun b' => served_only honly)
    (Sample.serves_remaking _)).1 fun _ j hj' hc => ?_, (publication_is_resumed Sample.reach_parted rfl hr hne hj hid rfl
    (fun b' => served_only honly) (Sample.serves_remaking _)).2 hp ?_⟩
  · exact List.any_eq_false.1 hdenied j hj' (Sample.confirmed_given hc)
  · obtain ⟨j, hj', hc⟩ := List.any_eq_true.1 hconfirmed
    refine ⟨j, hj', fun hd => ?_⟩
    rw [Sample.denied_given hd] at hc
    cases hc

end

end Tirke
