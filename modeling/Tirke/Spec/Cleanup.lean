import Tirke.Spec.Publishing
import Tirke.Spec.Gpu
/-!
# `_cleanup` on a view

`Sealed v r m t i`: the results `m`, `t`, `i` are committed, now and after a power failure, under the record
`r`, whose job is the manifest's. It is what has to hold before an ACK (`Sealed.mayAck`), and every save
of `_cleanup` keeps it (`Sealed.marked`).
-/

set_option linter.unusedSectionVars false

namespace Tirke

open CrashProg CrashDisk

variable [Lib] [Home] [Weather] {A : Env host} {v v' : View} {r r' : MeetingRecord} {m : ReadyManifest}
  {t : TranscriptV1} {i : InsightsV1}

structure Sealed (v : View) (r : MeetingRecord) (m : ReadyManifest) (t : TranscriptV1) (i : InsightsV1) : Prop where
  readable : v.run readRecord = .ok r
  committed : v.Committed m t i
  rooted : v.Rooted .folder
  durable : ∀ q, resultFiles q → v.img.dur q = v.img.vol q
  acting : coordinating v.log
  published : r.meeting.status.published = true
  bound : r.boundTo m

theorem run_note {α : Type} {S : Path → Prop} {p : Serv α} {e : Event} (h : ReadOnly S p) :
    (v.note e).run p = v.run p := run_congr h fun _ _ => rfl

theorem resultFiles_folder {q : Path} (h : resultFiles q) : q.1 = .folder := by
  rcases h with rfl | rfl | rfl | rfl | rfl <;> rfl

/-- Everything a reader of the results sees is already durable. -/
theorem run_afterPower {α : Type} {p : Serv α} (hr : v.Rooted .folder)
    (hd : ∀ q, resultFiles q → v.img.dur q = v.img.vol q) (hp : ReadOnly resultFiles p) :
    v.afterPower.run p = v.run p := by
  refine run_congr hp fun q hq => ?_
  have hf := resultFiles_folder hq
  rw [look_afterPower (hf ▸ hr), look_of_reach (by rw [hf]; exact hr.now), hd q hq]

namespace Sealed

theorem afterPower (h : Sealed v r m t i) : v.afterPower.Committed m t i :=
  ⟨(run_afterPower h.rooted h.durable readOnly_readManifest).trans h.committed.manifest,
    (run_afterPower h.rooted h.durable readOnly_readResults).trans h.committed.results⟩

theorem mayAck {job : JobRecord} {id : UUID} {resultHash : Sha256} (h : Sealed v r m t i) (hj : r.job = some job)
    (hid : job.jobId = some id) (hh : job.resultHash = some resultHash) : MayAck v id resultHash m t i := by
  obtain ⟨job', hj', hid', hh'⟩ := h.bound
  rw [hj] at hj'
  cases hj'
  rw [hid] at hid'
  rw [hh] at hh'
  cases hid'
  cases hh'
  obtain ⟨r', hr, hlm, -⟩ := readManifest_ok.1 h.committed.manifest
  obtain ⟨m', x, -, hlt, hli, hlx, -⟩ := readResults_ok.1 h.committed.results
  have durable : ∀ {n x}, resultFiles (.folder, n) → v.look (.folder, n) = some x → v.Durable (.folder, n) x := by
    intro n x hn hx
    refine ⟨hx, ?_⟩
    rw [look_afterPower (by exact h.rooted), h.durable _ hn, vol_of_look hx]
  refine ⟨h.committed, h.afterPower, rfl, rfl, fun n hn => ?_⟩
  simp only [List.mem_cons, List.not_mem_nil, or_false] at hn
  rcases hn with rfl | rfl | rfl | rfl | rfl
  · exact ⟨_, durable (.inr (.inr (.inl rfl))) hlt⟩
  · exact ⟨_, durable (.inr (.inr (.inr (.inl rfl)))) hli⟩
  · exact ⟨_, durable (.inr (.inr (.inr (.inr rfl)))) hlx⟩
  · exact ⟨_, durable (.inl rfl) (readable_look h.readable)⟩
  · exact ⟨_, durable (.inr (.inl rfl)) hlm⟩

/-- Messages do not count. -/
theorem note (h : Sealed v r m t i) {e : Event} (he : coordinating (e :: v.log)) : Sealed (v.note e) r m t i :=
  ⟨(run_note readOnly_readRecord).trans h.readable,
    ⟨(run_note readOnly_readManifest).trans h.committed.manifest,
      (run_note readOnly_readResults).trans h.committed.results⟩,
    ⟨h.rooted.now, h.rooted.later⟩, h.durable, he, h.published, h.bound⟩

/-- What changes no result keeps the seal. -/
theorem frame {S : Path → Prop} (h : Sealed v r m t i) (hf : Frame S v v') (hs : ∀ q, resultFiles q → ¬ S q) :
    Sealed v' r m t i :=
  ⟨(hf.run readOnly_readRecord fun _ hq => hq ▸ hs _ (.inl rfl)).trans h.readable,
    ⟨(hf.run readOnly_readManifest hs).trans h.committed.manifest,
      (hf.run readOnly_readResults hs).trans h.committed.results⟩,
    hf.rooted _ h.rooted, fun q hq => hf.durable (hs q hq) (h.durable q hq),
    h.acting.of_running hf.log.running, h.published, h.bound⟩

/-- A rewrite of the marker that keeps the attempt and the job keeps the seal. -/
theorem marked (h : Sealed v r m t i) (hm : Move v r r') (ha : r'.meeting.attempt = r.meeting.attempt)
    (hp : r'.meeting.status.published = true) (hb : r'.boundTo m) : Sealed (v.marked r') r' m t i := by
  obtain ⟨hman, hres⟩ := readResults_mark h.readable (hm.readable h.readable) ha
  refine ⟨hm.readable_marked h.readable,
    ⟨(run_sync readOnly_readManifest).trans (hman.trans h.committed.manifest),
      (run_sync readOnly_readResults).trans (hres.trans h.committed.results)⟩,
    rooted_sync (v := v.mark r') ⟨h.rooted.now, h.rooted.later⟩ _, fun q hq => ?_, h.acting, hp, hb⟩
  obtain ⟨d, n⟩ := q
  obtain rfl : d = .folder := resultFiles_folder hq
  exact dur_sync_self (q := (.folder, n))

end Sealed

/-! ## `delete_upload` -/

/-- The environment may keep `delete_upload` from its work. -/
def MayKeepUpload (A : Env host) : Prop := MayDisturb A (· = marker) ∨
  MayFailAt A (.unlink (Path.entry (.folder, .upload)) true) ∨ MayFailAt A (.syncDir .folder)

theorem MayKeepUpload.mayFail (h : MayKeepUpload A) : MayFail A := by
  rcases h with h | h | h
  · exact h.mayFail
  · exact h.mayFail
  · exact h.mayFail

/-- What `delete_upload` leaves: only the upload may have changed, and it is gone when the call returns. -/
def DeletedUpload (A : Env host) (v : View) (out : Except Exn Unit) (v' : View) : Prop :=
  Frame (· = ((.folder, .upload) : Path)) v v' ∧ match out with
    | .ok () => v'.uploadGone ∧ v'.justSynced
    | .error e => e = .osError ∧ MayKeepUpload A

theorem uploadGone_sync (h : v.img.vol (.folder, .upload) = none) : (v.sync .folder).uploadGone :=
  ⟨h, (dur_sync_self (q := ((.folder, .upload) : Path))).trans h⟩

theorem does_deleteUpload (hr : v.run readRecord = .ok r) (hc : (∃ m, v.run readManifest = .ok m) ∨ r.late) :
    Does A Legal deleteUpload v (DeletedUpload A v) := by
  have hreach := readable_reach hr
  have hsync : ∀ v₁ : View, Frame (· = ((.folder, .upload) : Path)) v v₁ →
      v₁.img.vol (.folder, .upload) = none → Does A Legal (syncDirectory .folder) v₁ (DeletedUpload A v) := by
    intro v₁ hf₁ hn
    have hr₁ : v₁.run readRecord = .ok r := (hf₁.run readOnly_readRecord fun q hq => by rw [hq]; decide).trans hr
    refine Does.syncDirectory (.inl (readable_notVoid hr₁)) (fun h => .synced _ h)
      (fun _ => ⟨hf₁.trans (.sync _), uploadGone_sync hn, rfl⟩) (fun h => ?_) fun hf => ⟨hf₁, rfl, .inr (.inr hf)⟩
    rw [readable_reach hr₁] at h
    cases h
  refine Does.lookThen readOnly_readRecord.discard (fun _ _ => ?_) (fun e h => ?_) fun hf => ⟨.refl v, rfl, .inl hf⟩
  swap
  · rw [run_discard, hr] at h; cases h
  refine Does.bind (R := fun out v' => Frame (· = ((.folder, .upload) : Path)) v v' ∧ match out with
      | .ok () => v'.img.vol (.folder, .upload) = none
      | .error e => e = .osError ∧ MayKeepUpload A)
    (Does.unlink (p := (.folder, .upload)) (fun _ => .uploadDropped r hr hc) (fun _ => ⟨.drop rfl, ?_⟩) (fun h => ?_)
      fun hf => ⟨.refl v, rfl, .inr (.inl hf)⟩) ?_ ?_
  · simp [Images.apply]
  · exact ⟨.refl v, by rw [← look_of_reach (p := (.folder, .upload)) hreach]; exact h⟩
  · rintro ⟨⟩ v₁ ⟨hf₁, hn⟩
    exact hsync v₁ hf₁ hn
  · rintro e v₁ ⟨hf₁, he⟩
    exact ⟨hf₁, he⟩

/-! ## `_cleanup` -/

/-- What a part of `_cleanup` leaves: the seal, or a fault. -/
def StillSealed (A : Env host) (m : ReadyManifest) (t : TranscriptV1) (i : InsightsV1)
    (out : Except Exn MeetingRecord) (v' : View) : Prop :=
  match out with
  | .ok r' => Sealed v' r' m t i
  | .error e => e = .osError ∧ MayFail A

theorem does_saveSealed (h : Sealed v r m t i) (hm : ∀ t, Move v r (r'.touch t))
    (ha : r'.meeting.attempt = r.meeting.attempt) (hp : r'.meeting.status.published = true) (hb : r'.boundTo m) :
    Does A Legal (save r') v fun out v' => StillSealed A m t i (out.map Prod.fst) v' ∧
      ∀ x, out = .ok x → ∃ t, x.1 = r'.touch t := by
  refine (does_save h.readable hm ha h.acting.acts).mono ?_
  rintro (e | x) v' hq
  · obtain ⟨t', hu⟩ := hq
    refine ⟨?_, fun x hx => by cases hx⟩
    cases hu with
    | refused _ _ he => rw [h.committed.results] at he; cases he
    | nothing hf | shown hf | synced hf => exact ⟨rfl, hf⟩
  · obtain ⟨t', b, rfl, rfl, -⟩ := hq
    exact ⟨h.marked (hm t') ha hp hb, fun x hx => by cases hx; exact ⟨t', rfl⟩⟩

/-- The job the rest of `_cleanup` works with is still the record's. -/
theorem does_cleanupLocal (h : Sealed v r m t i) :
    Does A Legal (cleanupLocal r) v fun out v' => StillSealed A m t i out v' ∧
      ∀ r', out = .ok r' → r'.jobs = r.jobs ∧ r'.meeting.status = r.meeting.status ∧
        r'.meeting.attempt = r.meeting.attempt := by
  have hup : ∀ q, resultFiles q → ¬ q = ((.folder, .upload) : Path) := by
    rintro q hq rfl
    rcases hq with h | h | h | h | h <;> cases h
  have hsave : ∀ v₁ r₁, Sealed v₁ r m t i → (∀ t, Move v₁ r (r₁.touch t)) → r₁.jobs = r.jobs →
      r₁.meeting.status = r.meeting.status → r₁.meeting.attempt = r.meeting.attempt →
      Does A Legal ((save r₁).bind fun x => Prog.ret x.1) v₁ fun out v' => StillSealed A m t i out v' ∧
        ∀ r', out = .ok r' → r'.jobs = r.jobs ∧ r'.meeting.status = r.meeting.status ∧
          r'.meeting.attempt = r.meeting.attempt := by
    intro v₁ r₁ h₁ hm hj hs ha
    have hb : r₁.boundTo m := by
      obtain ⟨job, hjob, hid⟩ := h.bound
      refine ⟨job, ?_, hid⟩
      simp only [MeetingRecord.job, hj, ha]
      exact hjob
    refine Does.bind (does_saveSealed h₁ hm ha (hs ▸ h.published) hb) ?_ ?_
    · rintro x v' ⟨hx, ht⟩
      obtain ⟨t', ht⟩ := ht x rfl
      refine .ret ⟨hx, fun r' hr' => ?_⟩
      cases hr'
      rw [ht]
      exact ⟨hj, hs, ha⟩
    · rintro e v' ⟨he, -⟩
      exact ⟨he, fun r' hr' => by cases hr'⟩
  unfold cleanupLocal
  split
  · next hl =>
    refine Does.bind (R := fun out v₁ => Sealed v₁ r m t i ∧
      (out = .ok r ∨ out = .ok r.localDeleted ∧ v₁.uploadGone ∧ v₁.justSynced)) ?_ ?_ ?_
    · refine Does.handle (R := fun out v₁ => Sealed v₁ r m t i ∧ match out with
          | .ok r₁ => r₁ = r.localDeleted ∧ v₁.uploadGone ∧ v₁.justSynced
          | .error e => e = .osError) ?_ ?_ ?_
      · refine Does.bind (does_deleteUpload h.readable (.inl ⟨m, h.committed.manifest⟩)) ?_ ?_
        · rintro ⟨⟩ v₁ ⟨hf, hg⟩
          exact .ret ⟨h.frame hf hup, rfl, hg⟩
        · rintro e v₁ ⟨hf, he, -⟩
          exact ⟨h.frame hf hup, he⟩
      · rintro r₁ v₁ ⟨h₁, rfl, hg⟩
        exact ⟨h₁, .inr ⟨rfl, hg⟩⟩
      · rintro e v₁ ⟨h₁, rfl⟩
        exact .ret ⟨h₁, .inl rfl⟩
    · rintro r₁ v₁ ⟨h₁, hr₁ | ⟨hr₁, hg, hn⟩⟩
      · cases hr₁
        exact hsave v₁ r h₁ (fun t => .localKept t h.published) rfl rfl rfl
      · cases hr₁
        exact hsave v₁ _ h₁ (fun t => .localDeleted t hl h.published hg h₁.acting hn) rfl rfl rfl
    · rintro e v₁ ⟨-, h₁ | ⟨h₁, -⟩⟩ <;> cases h₁
  · exact .ret ⟨h, fun r' hr' => by cases hr'; exact ⟨rfl, rfl, rfl⟩⟩

/-- What asking for the ACK leaves in hand, and what the log says about it. -/
inductive RemoteCleaned (log : List Event) (r : MeetingRecord) (job : JobRecord) : MeetingRecord → Prop where
  | kept : RemoteCleaned log r job r
  | acked (id : UUID) (resultHash : Sha256) (receipt : AckV1) (hid : job.jobId = some id)
      (hh : job.resultHash = some resultHash) (ha : acknowledged log id resultHash receipt) :
      RemoteCleaned log r job (r.setJob (JobRecord.acked receipt))

theorem does_cleanupRemote {job : JobRecord} (h : Sealed v r m t i) (hj : r.job = some job) :
    Does A Legal (cleanupRemote r job) v fun out v' => Sealed v' r m t i ∧
      ∃ r', out = .ok r' ∧ RemoteCleaned v'.log r job r' := by
  unfold cleanupRemote
  split
  · next id resultHash _ hid hh =>
    refine Does.handle (R := fun out v' => Sealed v' r m t i ∧ match out with
        | .ok r' => RemoteCleaned v'.log r job r'
        | .error e => e.isGPUClientError = true) ?_ ?_ ?_
    · refine Does.bind (does_ack (h.mayAck hj hid hh)) ?_ ?_
      · rintro receipt v' ⟨a, -, ha, rfl⟩
        obtain ⟨hin, hrid, -⟩ := heardReceipt_ok.1 ha.symm
        exact .ret ⟨h.note h.acting, .acked id resultHash receipt hid hh ⟨a, List.mem_cons_self, hin, hrid⟩⟩
      · rintro e v' ⟨a, -, ha, rfl⟩
        exact ⟨h.note h.acting, isGPUClientError_of_answered (heardReceipt_error ha.symm)⟩
    · rintro r' v' ⟨h', hr⟩
      exact ⟨h', r', rfl, hr⟩
    · rintro e v' ⟨h', he⟩
      rw [if_pos he]
      exact .ret ⟨h', r, rfl, .kept⟩
  · exact .ret ⟨h, r, rfl, .kept⟩

/-- What `_cleanup` leaves. -/
def Cleaned (A : Env host) (r : MeetingRecord) (m : ReadyManifest) (t : TranscriptV1) (i : InsightsV1)
    (out : Except Exn Meeting) (v' : View) : Prop :=
  match out with
  | .ok _ => ∃ r', Sealed v' r' m t i ∧ r'.meeting.status = r.meeting.status ∧
      r'.meeting.attempt = r.meeting.attempt
  | .error e => e = .osError ∧ MayFail A

/-- **`_cleanup`** sends an ACK only under the seal, and keeps the seal. -/
theorem does_cleanup (h : Sealed v r m t i) : Does A Legal (cleanup r) v (Cleaned A r m t i) := by
  obtain ⟨job, hj, hid, hh⟩ := h.bound
  unfold cleanup
  rw [hj]
  refine Does.bind (does_cleanupLocal h) ?_ ?_
  swap
  · rintro e v₁ ⟨he, -⟩
    exact he
  rintro r₁ v₁ ⟨h₁, hk⟩
  obtain ⟨hjobs, hst, hat⟩ := hk r₁ rfl
  have hj₁ : r₁.job = some job := by
    simp only [MeetingRecord.job, hjobs, hat]
    exact hj
  refine Does.bind (does_cleanupRemote h₁ hj₁) ?_ ?_
  swap
  · rintro e v₂ ⟨-, r', hr', -⟩
    cases hr'
  rintro r₂ v₂ ⟨h₂, r', hr', hc⟩
  cases hr'
  have hfinal : ∀ rec : MeetingRecord, (∀ t, Move v₂ r₁ (rec.withAggregate.touch t)) →
      rec.meeting.attempt = r₁.meeting.attempt → rec.meeting.status = r₁.meeting.status → rec.boundTo m →
      Does A Legal ((save rec.withAggregate).bind fun x => Prog.ret x.2) v₂ (Cleaned A r m t i) := by
    intro rec hm ha hs hb
    refine Does.bind (does_saveSealed h₂ hm ha (hs ▸ h₂.published) hb) ?_ ?_
    · rintro x v' ⟨hx, ht⟩
      obtain ⟨t', ht⟩ := ht x rfl
      refine .ret ⟨x.1, hx, ?_⟩
      rw [ht]
      exact ⟨hs.trans hst, ha.trans hat⟩
    · rintro e v' ⟨he, -⟩
      exact he
  cases hc with
  | kept => exact hfinal r₁ (fun t => .settled t h₁.published) rfl rfl h₁.bound
  | acked id resultHash receipt hid' hh' ha =>
    refine hfinal _ (fun t => .acked job id resultHash receipt t h₁.published hj₁ hid' hh' ha) rfl rfl ?_
    have hj₂ : (r₁.setJob (JobRecord.acked receipt)).job = some (job.acked receipt) :=
      (job_setJob (f := JobRecord.acked receipt) fun _ => rfl).trans
        (congrArg (Option.map (JobRecord.acked receipt)) hj₁)
    exact ⟨_, hj₂, hid, hh⟩

end Tirke
