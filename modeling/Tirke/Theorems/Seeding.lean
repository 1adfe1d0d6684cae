import Tirke.Runs.Seeding
import Tirke.Runs.Ticking
import Tirke.Theorems.JobHistory
/-!
# Seeding while the scheduler keeps away

Seeding takes no lock, so nothing in it keeps the scheduler from the meeting it is making. Where the scheduler does keep
away for as long as the meeting is visible without results, and while its record is being rewritten, a seeding that
returns leaves the prepared results being served, one that raises leaves no meeting, and the GPU never hears of it.

| here | there |
| --- | --- |
| `Filled` | what `publish_results` (`demo_fixture.py:73`) may have left of the results: everything, or no manifest |
| `SeedServes` | what `seed_demo_fixture` has promised when it returns (`:88`) |
-/

set_option linter.unusedSectionVars false

namespace Tirke

open CrashProg CrashDisk

section
variable [Lib] [Home] {A : Env host} {v v' : View} {w w' : World} {r r' : MeetingRecord} {b : ResultBundleV1}
variable {S : Path → Prop} {e : Event} {t : Time}

/-! ## A meeting on disk -/

theorem Standing.frame (h : Standing v r) (hf : Frame S v v') (hm : ¬ S marker) (hd : ∀ n, ¬ S (.meetings, n)) :
    Standing v' r where
  readable := (hf.run readOnly_readRecord fun q hq => by rw [hq]; exact hm).trans h.readable
  rooted := hf.rooted _ h.rooted
  files n := (hf.vol _ (hd n)).trans (h.files n)
  plain d t ht := h.plain d t (hf.slot ▸ ht)
  unsent := hf.log.sends.trans h.unsent

theorem Standing.mark (h : Standing v r) (hok : r'.ok = true) (ho : r'.ownerId = r.ownerId)
    (hi : r'.meeting.id = r.meeting.id) : Standing (v.mark r') r' where
  readable := readable_rewritten h.readable hok ho hi
  rooted := ⟨h.rooted.now, h.rooted.later⟩
  files n := (vol_put_of_ne (p := marker) (by simp)).trans (h.files n)
  plain := h.plain
  unsent := h.unsent

/-! ## The scheduler between two calls -/

/-- A visit that obeys the law keeps what the scheduler's lawful events keep. -/
theorem ticked {J : View → Prop} {a : Action} {Q : Except Exn Unit → View → Prop} (hf : Fit w.disk)
    (ha : a = .step ∨ a = .sweep) (hd : Does anything Legal a.program (w.note (.started a)).view Q)
    (hj : J (w.note (.started a)).view) (hl : ∀ v e, Ticking v → J v → Legal v e → J (v.after e)) (cs : List Choice) :
    Fit (host.exec cs a.program (w.note (.started a))).2.disk ∧ J (host.exec cs a.program (w.note (.started a))).2.view := by
  have hnow : Ticking (w.note (.started a)).view :=
    ⟨ha.imp (fun h => congrArg some h) fun h => congrArg some h, nofun⟩
  have hkeep := (hd (w.note (.started a)) rfl hf).keeps
    (J := fun w : World => Fit w.disk ∧ Ticking w.view ∧ J w.view) ⟨hf, hnow, hj⟩ ?_ cs (admits_of (A := anything) (fun _ _ _ => trivial) cs)
  · exact ⟨hkeep.1, hkeep.2.2⟩
  rintro w o c ⟨hf, ht, hj⟩ hg -
  obtain ⟨hfit, he | ⟨e, hlaw, he⟩⟩ := guarded_act hf hg c
  · exact ⟨hfit, he ▸ ht, he ▸ hj⟩
  · exact ⟨hfit, he ▸ ht.after hlaw, he ▸ hl _ _ ht hj hlaw⟩

/-- Where results are served, and whence the meeting is, the scheduler leaves as it is. -/
theorem Serving.ticked {a : Action} (h : Serving w.view r b) (hf : Fit w.disk) (ha : a = .step ∨ a = .sweep)
    (cs : List Choice) : Fit (host.exec cs a.program (w.note (.started a))).2.disk ∧
      ∃ r', Serving (host.exec cs a.program (w.note (.started a))).2.view r' b ∧ r'.meeting.source = r.meeting.source := by
  have hnote : Serving (w.note (.started a)).view r b :=
    h.same (fun _ _ => rfl) ⟨h.rooted.now, h.rooted.later⟩ (fun _ => rfl) (fun _ _ ht => ht) rfl
  have hd : Does anything Legal a.program (w.note (.started a)).view fun _ _ => True := by
    rcases ha with rfl | rfl
    · refine Does.discard ((does_visit fun r₁ hr₁ => ?_).mono fun _ _ _ => trivial)
      cases hr₁.symm.trans hnote.readable
      refine ⟨hnote.readable, hnote.rooted, .inr rfl, rfl, rfl, fun _ _ _ => ?_, fun m hm _ => ?_⟩
      · rw [Tirke.submissions, hnote.unsent]
        rintro ⟨⟩
      · cases hm.symm.trans hnote.committed.manifest
        exact ⟨hnote.published, hnote.bound⟩
    · exact (does_sweepEntry hnote.grounded (by rintro ⟨⟩)).mono fun _ _ _ => trivial
  refine Tirke.ticked (J := fun v => ∃ r', Serving v r' b ∧ r'.meeting.source = r.meeting.source) hf ha hd ⟨r, hnote, rfl⟩ ?_ cs
  rintro v e ht ⟨r₁, h₁, hs₁⟩ hl
  obtain ⟨r₂, h₂, hs₂⟩ := h₁.legal ht hl
  exact ⟨r₂, h₂, hs₂.trans hs₁⟩

/-- Where no meeting is visible, the scheduler brings none about. -/
theorem Absent.ticked {a : Action} (h : Absent w.view) (hf : Fit w.disk) (ha : a = .step ∨ a = .sweep)
    (cs : List Choice) : Fit (host.exec cs a.program (w.note (.started a))).2.disk ∧
      Absent (host.exec cs a.program (w.note (.started a))).2.view := by
  have hnote : Absent (w.note (.started a)).view :=
    ⟨h.gone, ⟨h.grounded.parents, h.grounded.files, h.grounded.plain⟩, h.unsent⟩
  have hd : Does anything Legal a.program (w.note (.started a)).view fun _ _ => True := by
    rcases ha with rfl | rfl
    · exact Does.discard ((does_visit fun r₁ hr₁ => absurd hr₁ (hnote.unreadable r₁)).mono fun _ _ _ => trivial)
    · exact (does_sweepEntry hnote.grounded nofun).mono fun _ _ _ => trivial
  exact Tirke.ticked hf ha hd hnote (fun v e ht hj hl => hj.legal ht hl) cs

/-! ## Publication -/

/-- What publishing `b` over the record `r` may change: the manifest last. -/
inductive Fills (r : MeetingRecord) (b : ResultBundleV1) (v : View) : Event → Prop where
  | synced (d : Dir) : Fills r b v (.file (.synced d))
  | artifact (n : Name) (x : Doc) (hx : (n, x) ∈ b.artifacts) (hm : v.look (.folder, .manifest) = none) :
      Fills r b v (.file (.put (.folder, n) x))
  | marker (t : Time) (hm : v.look (.folder, .manifest) = none) : Fills r b v (.file (.put marker (.record (r.published b t))))
  | manifest (t : Time) (hr : v.run readRecord = .ok (r.published b t))
      (ha : ∀ n x, (n, x) ∈ b.artifacts → v.look (.folder, n) = some x) :
      Fills r b v (.file (.put (.folder, .manifest) (.manifest (b.manifest r.meeting.attempt))))

/-- The meeting stands, and there is no manifest or all of the results. -/
def Filled (b : ResultBundleV1) (v : View) : Prop :=
  ∃ r, Standing v r ∧ (v.look (.folder, .manifest) = none ∨ Serving v r b)

/-- What a removal finds when seeding has failed. -/
def Undoable (v : View) : Prop := ∃ r, Standing v r ∧ (v.look (.folder, .manifest) = none ∨ ∃ b, Serving v r b)

theorem Filled.undoable (h : Filled b v) : Undoable v := by
  obtain ⟨r, hs, hm⟩ := h
  exact ⟨r, hs, hm.imp_right fun hm => ⟨b, hm⟩⟩

theorem Serving.undoable (h : Serving v r b) : Undoable v := ⟨r, h.toStanding, .inr ⟨b, h⟩⟩

/-- What a publication needs of the record it finds. -/
structure Fillable (r : MeetingRecord) (b : ResultBundleV1) : Prop where
  ok : r.ok = true
  owner : r.ownerId = Home.ownerId
  id : r.meeting.id = Home.meetingId
  job : r.job.isSome = true
  valid : b.valid = true
  meeting : b.transcript.meetingId = Home.meetingId

/-- The results are all there as soon as the manifest is. -/
theorem Fillable.serving (h : Fillable r b) (hs : Standing v (r.published b t))
    (ha : ∀ n x, (n, x) ∈ b.artifacts → v.look (.folder, n) = some x)
    (hm : v.look (.folder, .manifest) = some (.manifest (b.manifest r.meeting.attempt))) :
    Serving v (r.published b t) b := by
  obtain ⟨job, hj⟩ := Option.isSome_iff_exists.1 h.job
  have hatt : (r.published b t).meeting.attempt = r.meeting.attempt := (published_ok h.ok).2.2
  exact { hs with
    status := by rw [published_eq hj]; rfl
    stage := by rw [published_eq hj]; rfl
    valid := h.valid
    meeting := h.meeting
    artifacts := ha
    manifest := hatt ▸ hm
    bound := ⟨_, job_published hj, rfl, rfl⟩ }

theorem Fillable.keeps (h : Fillable r b) (hf : Filled b v) (he : Fills r b v e) : Filled b (v.after e) := by
  obtain ⟨r₁, hs, hm⟩ := hf
  cases he with
  | synced d =>
    refine ⟨r₁, hs.frame (S := fun _ => False) (.sync d) nofun fun _ => nofun, hm.imp (fun hm => ?_) fun hm => hm.frame (.sync d)⟩
    exact (Frame.look (S := fun _ => False) (.sync d) nofun).trans hm
  | artifact n x hx hm =>
    have hn : ((.folder, n) : Path) ≠ marker ∧ ((.folder, n) : Path) ≠ (.folder, .manifest) := by
      rcases named_artifacts ⟨_, hx, rfl⟩ with hn | hn | hn <;> rw [hn] <;> decide
    refine ⟨r₁, hs.frame (S := (· = (.folder, n))) (.put rfl) hn.1.symm nofun, .inl ?_⟩
    exact (look_put_of_ne hn.2.symm).trans hm
  | marker t hm =>
    obtain ⟨hok, hid, -⟩ := published_ok (b := b) (t := t) h.ok
    obtain ⟨-, -, ho, hi⟩ := readRecord_ok.1 hs.readable
    refine ⟨_, hs.mark hok ?_ ?_, .inl ((look_mark (by decide)).trans hm)⟩
    · exact (congrArg Identity.ownerId hid).trans (h.owner.trans ho.symm)
    · exact (congrArg Identity.id hid).trans (h.id.trans hi.symm)
  | manifest t hr ha =>
    cases hr.symm.trans hs.readable
    have hput : Standing (v.put (.folder, .manifest) (.manifest (b.manifest r.meeting.attempt))) (r.published b t) :=
      hs.frame (S := (· = (.folder, .manifest))) (.put rfl) (by decide) nofun
    refine ⟨_, hput, .inr (h.serving hput (fun n x hx => (look_put_of_ne ?_).trans (ha n x hx)) (look_put_self hs.rooted.now))⟩
    rcases named_artifacts ⟨_, hx, rfl⟩ with hn | hn | hn <;> rw [hn] <;> decide

/-- **Publishing** serves the bundle when it returns, and leaves no half of it when it raises. -/
theorem does_fill (hs : Standing v r) (hj : r.job.isSome = true)
    (hm : v.look (.folder, .manifest) = none) : Does A (Fills r b) (publishResults b) v fun out v' =>
      match out with
      | .ok _ => ∃ t, Serving v' (r.published b t) b
      | .error _ => Filled b v' := by
  obtain ⟨-, hok, ho, hi⟩ := readRecord_ok.1 hs.readable
  have hfilled : Filled b v := ⟨r, hs, .inl hm⟩
  refine Does.bind does_demand ?_ fun _ _ hd => hd.1 ▸ hfilled
  rintro ⟨⟩ v₁ ⟨rfl, hb⟩
  refine Does.readThen readOnly_readRecord (fun r₁ hr => ?_) (fun e he => ?_) fun _ => hfilled
  swap
  · rw [hs.readable] at he; cases he
  cases hr.symm.trans hs.readable
  refine Does.bind does_demand ?_ fun _ _ hd => hd.1 ▸ hfilled
  rintro ⟨⟩ v₁ ⟨rfl, hmid⟩
  refine Does.bind does_demand ?_ fun _ _ hd => hd.1 ▸ hfilled
  rintro ⟨⟩ v₁ ⟨rfl, -⟩
  refine Does.bind (R := fun out v' => v' = v₁ ∧ ∀ there, out = .ok there → there = false)
    (Does.exists ⟨rfl, fun _ h => by cases h; rw [hm]; rfl⟩ fun _ => ⟨rfl, nofun⟩) ?_ fun _ _ hd => hd.1 ▸ hfilled
  rintro there v₁ ⟨rfl, hthere⟩
  cases hthere there rfl
  have hfill : Fillable r b := ⟨hok, ho, hi, hj, hb, of_decide_eq_true hmid⟩
  have hmk : ¬ named b.artifacts marker := fun h => by rcases named_artifacts h with h | h | h <;> cases h
  have hmn : ¬ named b.artifacts (.folder, .manifest) := fun h => by
    rcases named_artifacts h with h | h | h <;> cases h
  have hlaw : Publishable (Fills r b) v₁ r b := by
    refine ⟨⟨fun v' n x hf hx _ => .artifact n x hx ((hf.look hmn).trans hm), fun _ _ => .synced _⟩,
      fun v' t hf _ _ => .marker t ((hf.look hmn).trans hm), fun v' t hf ha _ => .manifest t ?_ fun n x hx => ?_⟩
    · obtain ⟨hok', hident, -⟩ := published_ok (b := b) (t := t) hok
      have hr' : v'.run readRecord = .ok r := (hf.run readOnly_readRecord fun q hq => by rw [hq]; exact hmk).trans hr
      exact (run_sync readOnly_readRecord).trans (readable_rewritten hr' hok' (congrArg Identity.ownerId hident)
        (congrArg Identity.id hident))
    · refine (look_mark (v := v') fun he => hmk ⟨_, hx, ?_⟩).trans (ha n x hx)
      rw [← he]
  refine ((does_publishFirst hr hm hlaw).keeps hfilled fun _ _ hj he => hfill.keeps hj he).mono ?_
  rintro (e | m) v' ⟨hq, hj'⟩
  · exact hj'
  · obtain ⟨t, hp⟩ := hq
    obtain ⟨r₁, hs₁, hm₁⟩ := hj'
    cases hs₁.readable.symm.trans hp.readable
    rcases hm₁ with hm₁ | hm₁
    · rw [hp.manifest] at hm₁
      cases hm₁
    · exact ⟨t, hm₁⟩

/-! ## The record of a prepared example -/

theorem attempts_seeded : (r.jobs.modifyHead JobRecord.seeded).map (·.attempt) = r.jobs.map (·.attempt) := by
  cases r.jobs <;> rfl

theorem job_seeded (t : Time) (fixtureId : Str) {job : JobRecord} (h : r.job = some job) :
    ∃ job', (r.seeded fixtureId t).job = some job' ∧ job'.jobId = job.jobId ∧ job'.resultHash = job.resultHash := by
  have hseeded : (r.seeded fixtureId t).job =
      (r.jobs.modifyHead JobRecord.seeded).find? fun j => decide (j.attempt = r.meeting.attempt) := rfl
  rw [hseeded]
  rw [MeetingRecord.job] at h
  cases hjobs : r.jobs with
  | nil => rw [hjobs] at h; cases h
  | cons j js =>
    rw [hjobs] at h
    rw [List.modifyHead_cons]
    by_cases hd : j.attempt = r.meeting.attempt
    · rw [List.find?_cons_of_pos (by simpa using hd)] at h
      cases h
      exact ⟨_, List.find?_cons_of_pos (decide_eq_true hd), rfl, rfl⟩
    · rw [List.find?_cons_of_neg (by simpa using hd)] at h
      exact ⟨job, (List.find?_cons_of_neg (a := j.seeded) (p := fun j => decide (j.attempt = r.meeting.attempt))
        fun h => hd (of_decide_eq_true h)).trans h, rfl, rfl⟩

theorem ok_seeded {fixtureId : Str} (h : r.ok = true) (hn : nonBlank fixtureId = true) : (r.seeded fixtureId t).ok = true := by
  obtain ⟨hm, hne, hnd, hle⟩ := ok_iff.1 h
  obtain ⟨hmd, h1, -, hf, hs⟩ := meeting_valid_iff.1 hm
  have hatt : (r.seeded fixtureId t).attempts = r.attempts := attempts_seeded
  refine ok_iff.2 ⟨meeting_valid_iff.2 ⟨hmd, h1, ?_, hf, hs⟩, by rw [hatt]; exact hne, by rw [hatt]; exact hnd, by rw [hatt]; exact hle⟩
  simpa [MeetingSource.valid, MeetingRecord.seeded] using hn

/-- The record becomes a prepared example's, and its results stay. -/
theorem Serving.seeded {fixtureId : Str} (h : Serving v r b) (hn : nonBlank fixtureId = true) :
    Serving (v.mark (r.seeded fixtureId t)) (r.seeded fixtureId t) b := by
  obtain ⟨job, hj, hid, hh⟩ := h.bound
  obtain ⟨job', hj', hid', hh'⟩ := job_seeded t fixtureId hj
  exact h.rewrite (ok_seeded (readable_ok h.readable) hn) rfl rfl rfl h.status h.stage
    ⟨job', hj', hid'.trans hid, hh'.trans hh⟩

/-- **Marking it** leaves the results served, whatever fails. -/
theorem does_mark {fixtureId : Str} (h : Serving v r b) (hn : nonBlank fixtureId = true) :
    Does A (fun _ _ => True) (updateMeeting (r.seeded fixtureId t)) v fun out v' =>
      match out with
      | .ok m => Serving v' (r.seeded fixtureId t) b ∧ m.id = Home.meetingId ∧ m.source = (r.seeded fixtureId t).meeting.source
      | .error _ => ∃ r', Serving v' r' b := by
  have hs := h.seeded (t := t) hn
  refine (does_updateTo h.readable (ok_seeded (readable_ok h.readable) hn) rfl rfl rfl rfl (fun _ => trivial) trivial).mono ?_
  intro out v' hu
  cases hu with
  | done x _ => exact ⟨hs.frame (.sync _), (readRecord_ok.1 hs.readable).2.2.2, rfl⟩
  | refused _ _ he => rw [h.committed.results] at he; cases he
  | nothing _ => exact ⟨r, h⟩
  | shown _ => exact ⟨_, hs⟩
  | synced _ => exact ⟨_, hs.frame (.sync _)⟩

/-! ## Undoing it -/

/-- **An undisturbed removal** leaves no meeting. -/
theorem does_remove {suffix : UUID} (h : Standing v r) (hA : ¬ MayFail A) :
    Does A (fun _ _ => True) (deleteMeeting suffix) v fun out v' => out = .ok () ∧ Absent v' := by
  have hvoid := readable_notVoid h.readable
  have hreach := readable_reach h.readable
  have hroot : v.reach .root = true := reach_parent hreach (by simp [Dir.chain])
  have hmeetings := reach_iff.1 (reach_meetings hreach)
  refine Does.bind (R := fun out v' => v' = v ∧ out = .ok ()) (Does.openLock (fun _ => ⟨rfl, rfl⟩)
    (fun hn => by rw [hroot] at hn; cases hn) fun hf => absurd hf hA) ?_ (by rintro e _ ⟨-, he⟩; cases he)
  rintro ⟨⟩ v ⟨rfl, -⟩
  refine Does.readThen readOnly_readRecord.discard (fun _ _ => ?_) (fun e he => ?_) fun hf => absurd hf hA
  swap
  · rw [run_discard, h.readable] at he; cases he
  refine Does.bind (R := fun out v' => v' = v.change (.renamed .folder suffix) ∧ out = .ok ())
    (Does.rename (fun _ => trivial) (fun _ => ⟨rfl, rfl⟩) (fun hn => by rw [hreach] at hn; cases hn)
      fun hf => absurd hf hA) ?_ (by rintro e _ ⟨-, he⟩; cases he)
  rintro ⟨⟩ v₁ ⟨rfl, -⟩
  have hmoved : (v.change (.renamed .folder suffix)).reach .meetings = true := reach_iff.2 fun c hc => by
    have hne : c ≠ .folder := by
      rintro rfl
      simp [Dir.chain] at hc
    simp only [View.change_img, Images.apply, Function.update_of_ne hne]
    exact hmeetings c hc
  refine Does.bind (R := fun out v' => v' = (v.change (.renamed .folder suffix)).sync .meetings ∧ out = .ok ())
    (Does.handle (R := fun out v' => v' = (v.change (.renamed .folder suffix)).sync .meetings ∧ out = .ok ())
      (Does.syncDirectory (.inl hvoid) (fun _ => trivial) (fun _ => ⟨rfl, rfl⟩)
        (fun hn => by rw [hmoved] at hn; cases hn) fun hf => absurd hf.mayFail hA)
      (fun _ _ hq => hq) (by rintro e _ ⟨-, he⟩; cases he)) ?_ (by rintro e _ ⟨-, he⟩; cases he)
  rintro ⟨⟩ v₂ ⟨rfl, -⟩
  refine Does.handle (R := fun out v' => out = .ok () ∧ Absent v') ?_ (fun _ _ hq => hq) (by rintro e _ ⟨he, -⟩; cases he)
  refine Does.bind (R := fun out v' =>
      v' = ((v.change (.renamed .folder suffix)).sync .meetings).change (.wiped .folder none) ∧ out = .ok ())
    (Does.rmtree (fun _ => trivial) ⟨rfl, rfl⟩ fun hf => absurd hf hA) ?_ (by rintro e _ ⟨-, he⟩; cases he)
  rintro ⟨⟩ v₃ ⟨rfl, -⟩
  have hvol : ∀ q, (((v.change (.renamed .folder suffix)).sync .meetings).change (.wiped .folder none)).img.vol q = none ∨
      (((v.change (.renamed .folder suffix)).sync .meetings).change (.wiped .folder none)).img.vol q = v.img.vol q := by
    intro q
    simp only [View.sync, View.change_img, Images.apply]
    split
    · exact .inl rfl
    · exact .inr rfl
  have hslot : ∀ c, c ≠ .folder →
      (((v.change (.renamed .folder suffix)).sync .meetings).change (.wiped .folder none)).img.slot c = v.img.slot c := by
    intro c hc
    simp only [View.sync, View.change_img, Images.apply, Function.update_of_ne hc]
  have hgone : (((v.change (.renamed .folder suffix)).sync .meetings).change (.wiped .folder none)).img.slot .folder = .absent := by
    simp [View.sync, Images.apply]
  generalize hv₃ : ((v.change (.renamed .folder suffix)).sync .meetings).change (.wiped .folder none) = v₃ at hvol hslot hgone ⊢
  have hlive : ∀ c ∈ Dir.meetings.chain, v₃.img.slot c = .live := by
    intro c hc
    have hne : c ≠ .folder := by
      rintro rfl
      simp [Dir.chain] at hc
    exact (hslot c hne).trans (hmeetings c hc)
  have hfiles : ∀ n, v₃.img.vol (.meetings, n) = none := fun n =>
    (hvol (.meetings, n)).elim id fun hv => hv.trans (h.files n)
  refine Does.syncDirectory (.inr hfiles) (fun _ => trivial) (fun _ => ⟨rfl, .inr ?_, ⟨fun _ => ?_, hfiles, fun c t hc => ?_⟩, ?_⟩)
    (fun hn => ?_) fun hf => absurd hf.mayFail hA
  · show v₃.img.slot .folder ≠ .live
    rw [hgone]
    rintro ⟨⟩
  · exact reach_iff.2 hlive
  · by_contra hne
    exact hne (h.plain c t ((hslot c hne).symm.trans hc))
  · rw [← hv₃]
    exact h.unsent
  · rw [show v₃.reach .meetings = true from reach_iff.2 hlive] at hn
    cases hn

end

/-! ## The outline -/

section
variable [Lib] [Home] [Spelling] [Prepared] {v v' : View} {w w' : World} {r : MeetingRecord} {b : ResultBundleV1}

/-- Nothing has been submitted. -/
def Unsubmitted (_ : StoreOp) (w : World) : Prop := sends w.log = []

/-- What is said of a view, and that the disk is fit for the next call. -/
def Fitted (P : View → Prop) (w : World) : Prop := Fit w.disk ∧ P w.view

/-- The scheduler keeps it, where it may come. -/
theorem stable_of {o : Option StoreOp} {P : View → Prop} (h : ∀ (w : World) (a : Action) (cs : List Choice), Fitted P w →
    (a = .step ∨ a = .sweep) → w.view.img.slot .folder ≠ .absent → Unguarded o w →
    Fitted P (host.exec cs a.program (w.note (.started a))).2) : sheltered.Stable o (Fitted P) := by
  intro w w' hp hm
  cases hm with
  | waited t busy => exact hp
  | ticked a cs ha hs hm => exact h w a cs hp ha hs hm

/-- Where the scheduler may not come, everything stays. -/
theorem stable_guarded {o : Option StoreOp} {P : View → Prop} (h : ∀ w : World, P w.view → ¬ Unguarded o w) :
    sheltered.Stable o (Fitted P) :=
  stable_of fun w _ _ hp _ _ hm => absurd hm (h w hp.2)

theorem Standing.guarded {o : Option StoreOp} (h : Standing w.view r) (hm : w.view.look (.folder, .manifest) = none) :
    ¬ Unguarded o w := by
  rintro ⟨hu | ⟨x, hx⟩, -⟩
  · exact hu r h.readable
  · have hman : w.view.run readManifest = .error .notReady := by rw [run_readManifest h.readable, hm]
    exact unpublished_of hman x hx

theorem stable_serving {o : Option StoreOp} : sheltered.Stable o (Fitted fun v => ∃ r, Serving v r b) := by
  refine stable_of fun w a cs ⟨hf, r, h⟩ ha _ _ => ?_
  obtain ⟨hf', r', h', -⟩ := h.ticked hf ha cs
  exact ⟨hf', r', h'⟩

theorem stable_undoable {o : Option StoreOp} : sheltered.Stable o (Fitted Undoable) := by
  refine stable_of fun w a cs ⟨hf, r, hs, h⟩ ha _ hm => ?_
  rcases h with h | ⟨b, h⟩
  · exact absurd hm (hs.guarded h)
  · obtain ⟨hf', r', h', -⟩ := h.ticked hf ha cs
    exact ⟨hf', h'.undoable⟩

theorem stable_absent {o : Option StoreOp} : sheltered.Stable o (Fitted Absent) :=
  stable_of fun _ _ cs hp ha _ _ => hp.2.ticked hp.1 ha cs

/-- **A call of the store** whose assertion the scheduler keeps. -/
theorem outline_perform {o : StoreOp} {P : View → Prop} {Q : Except SeedError o.Value → World → Prop}
    {R : Except Exn o.Value → View → Prop} {L : Law} (hp : Fitted P w) (hs : sheltered.Stable (some o) (Fitted P))
    (hu : ∀ v, P v → sends v.log = []) (hd : ∀ v, P v → Does o.spared L o.program v R)
    (ok : ∀ a w, Fitted (R (.ok a)) w → Q (.ok a) w)
    (error : ∀ e w, Fitted (R (.error e)) w → Q (.error (.store e)) w) : sheltered.Outline Unsubmitted Q (perform o) w := by
  refine ⟨Fitted P, hp, hs, fun w hp => ⟨hu _ hp.2, fun a w' hran => ?_⟩⟩
  have hr := (hd _ hp.2).ran hp.1 hran
  cases a with
  | ok a => exact ok a w' hr
  | error e => exact error e w' hr

theorem outline_require {c : Bool} {e : SeedError} {Q : Except SeedError Unit → World → Prop} (ok : c = true → Q (.ok ()) w)
    (error : c = false → Q (.error e) w) : sheltered.Outline Unsubmitted Q (require c e) w := by
  unfold require
  split
  · next h => exact ok h
  · next h => exact error (by simpa using h)

theorem outline_orRaise {α : Type} {e : SeedError} {x : Option α} {Q : Except SeedError α → World → Prop}
    (ok : ∀ a, x = some a → Q (.ok a) w) (error : x = none → Q (.error e) w) :
    sheltered.Outline Unsubmitted Q (orRaise e x) w := by
  cases x with
  | some a => exact ok a rfl
  | none => exact error rfl

theorem outline_item {fixture : List (String × Json)} {name : String} {Q : Except SeedError Json → World → Prop}
    (ok : ∀ j, fixture.lookup name = some j → Q (.ok j) w) (error : Q (.error (.keyError name)) w) :
    sheltered.Outline Unsubmitted Q (item fixture name) w := by
  unfold item
  split
  · next h => exact ok _ h
  · exact error

/-- The parts of the fixture a bundle is made of. -/
structure Parts (fixture : List (String × Json)) (transcript insights : List (String × Json)) (versions : Json) : Prop where
  transcript : (fixture.lookup "transcript").bind Json.dict = some transcript
  insights : (fixture.lookup "insights").bind Json.dict = some insights
  versions : fixture.lookup "model_versions" = some versions

/-- The fixture's bundle for this meeting and job. -/
def Bundled (fixture : List (String × Json)) (meeting : Meeting) (job : UUID) (b : ResultBundleV1) : Prop :=
  ∃ transcript insights versions, Parts fixture transcript insights versions ∧
    seedBundle meeting job transcript insights versions = some b

attribute [local irreducible] seedBundle Sha256.hex

theorem outline_bundleOf {fixture : List (String × Json)} {meeting : Meeting} {job : UUID} :
    sheltered.Outline Unsubmitted (fun out w' => w' = w ∧ ∀ b, out = .ok b → Bundled fixture meeting job b)
      (bundleOf fixture meeting job) w := by
  refine Setting.Outline.bind (R := fun out w' => w' = w ∧ ∀ j, out = .ok j → fixture.lookup "transcript" = some j)
    (outline_item (fun j hj => ⟨rfl, fun _ h => by cases h; exact hj⟩) ⟨rfl, nofun⟩) ?_ fun _ _ h => ⟨h.1, nofun⟩
  rintro transcriptJson w ⟨rfl, htj⟩
  refine Setting.Outline.bind (R := fun out w' => w' = w ∧ ∀ t, out = .ok t → transcriptJson.dict = some t)
    (outline_orRaise (fun j hj => ⟨rfl, fun _ h => by cases h; exact hj⟩) fun _ => ⟨rfl, nofun⟩) ?_ fun _ _ h => ⟨h.1, nofun⟩
  rintro transcript w ⟨rfl, ht⟩
  refine Setting.Outline.bind (R := fun out w' => w' = w ∧ ∀ j, out = .ok j → fixture.lookup "insights" = some j)
    (outline_item (fun j hj => ⟨rfl, fun _ h => by cases h; exact hj⟩) ⟨rfl, nofun⟩) ?_ fun _ _ h => ⟨h.1, nofun⟩
  rintro insightsJson w ⟨rfl, hij⟩
  refine Setting.Outline.bind (R := fun out w' => w' = w ∧ ∀ i, out = .ok i → insightsJson.dict = some i)
    (outline_orRaise (fun j hj => ⟨rfl, fun _ h => by cases h; exact hj⟩) fun _ => ⟨rfl, nofun⟩) ?_ fun _ _ h => ⟨h.1, nofun⟩
  rintro insights w ⟨rfl, hi⟩
  refine Setting.Outline.bind (R := fun out w' => w' = w ∧ ∀ j, out = .ok j → fixture.lookup "model_versions" = some j)
    (outline_item (fun j hj => ⟨rfl, fun _ h => by cases h; exact hj⟩) ⟨rfl, nofun⟩) ?_ fun _ _ h => ⟨h.1, nofun⟩
  rintro versions w ⟨rfl, hv⟩
  refine outline_orRaise (fun b hb => ⟨rfl, fun _ h => ?_⟩) fun _ => ⟨rfl, nofun⟩
  cases h
  exact ⟨transcript, insights, versions, ⟨by rw [htj _ rfl]; exact ht _ rfl, by rw [hij _ rfl]; exact hi _ rfl, hv _ rfl⟩, hb⟩

/-- A call of the store after which `P` holds, or at least something that can be undone. -/
def OrUndone {α : Type} (P : α → View → Prop) : Except SeedError α → World → Prop
  | .ok a, w => Fitted (P a) w
  | .error _, w => Fitted Undoable w

theorem outline_publish (hj : r.job.isSome = true)
    (hp : Fitted (fun v => Standing v r ∧ v.look (.folder, .manifest) = none) w) :
    sheltered.Outline Unsubmitted (OrUndone fun _ v => ∃ r, Serving v r b) (perform (.publishResults b)) w := by
  refine outline_perform hp (stable_guarded fun _ h => h.1.guarded h.2) (fun _ h => h.1.unsent)
    (fun _ h => does_fill (b := b) h.1 hj h.2) ?_ fun _ _ h => ⟨h.1, h.2.undoable⟩
  rintro _ w ⟨hf, t, h⟩
  exact ⟨hf, _, h⟩

theorem outline_deleteUpload (hp : Fitted (fun v => ∃ r, Serving v r b) w) :
    sheltered.Outline Unsubmitted (OrUndone fun _ v => ∃ r, Serving v r b) (perform .deleteUpload) w := by
  refine outline_perform (L := Legal) (R := fun _ v => ∃ r, Serving v r b) hp stable_serving (fun _ ⟨_, h⟩ => h.unsent) ?_
    (fun _ _ h => h) fun _ _ ⟨hf, r, h⟩ => ⟨hf, h.undoable⟩
  rintro v ⟨r, h⟩
  refine (does_deleteUpload h.readable (.inl ⟨_, h.committed.manifest⟩)).mono fun _ _ hd => ⟨r, h.frame (hd.1.mono ?_)⟩
  rintro q rfl
  exact ⟨(by rintro (h | h | h | h | h) <;> cases h), nofun⟩

theorem outline_readRecord (hp : Fitted (fun v => ∃ r, Serving v r b) w) :
    sheltered.Outline Unsubmitted (OrUndone fun r v => Serving v r b) (perform .readRecord) w := by
  refine outline_perform (L := Legal) (R := fun out v => match out with
      | .ok r => Serving v r b
      | .error _ => Undoable v) hp stable_serving (fun _ ⟨_, h⟩ => h.unsent) ?_ (fun _ _ h => h) fun _ _ h => h
  rintro v ⟨r, h⟩
  exact Does.looks readOnly_readRecord (by rw [show v.run StoreOp.readRecord.program = _ from h.readable]; exact h)
    fun _ => h.undoable

/-- The scheduler keeps away while the record is being rewritten. -/
theorem stable_rewriting {o : StoreOp} (ho : o.rewrites = true) :
    sheltered.Stable (some o) (Fitted fun v => Serving v r b) :=
  stable_guarded fun w _ hu => by simp [Unguarded, ho] at hu

theorem outline_now (hp : Fitted (fun v => Serving v r b) w) :
    sheltered.Outline Unsubmitted (OrUndone fun _ v => Serving v r b) (perform .now) w :=
  outline_perform (L := Legal) (R := fun _ v => Serving v r b) hp (stable_rewriting rfl) (fun _ h => h.unsent)
    (fun _ h => Does.now fun _ _ => h) (fun _ _ h => h) fun _ _ h => ⟨h.1, h.2.undoable⟩

/-- How the body of seeding ends when it returns `m`. -/
def Labelled (fixtureId : Str) (b : ResultBundleV1) (m : Meeting) (v : View) : Prop :=
  m.id = Home.meetingId ∧ m.source = ⟨.demoFixture, true, some fixtureId⟩ ∧
    ∃ r, Serving v r b ∧ r.meeting.source = m.source

theorem outline_mark {fixtureId : Str} {t : Time} (hn : nonBlank fixtureId = true) (hp : Fitted (fun v => Serving v r b) w) :
    sheltered.Outline Unsubmitted (OrUndone (Labelled fixtureId b)) (perform (.updateMeeting (r.seeded fixtureId t))) w := by
  refine outline_perform hp (stable_rewriting rfl) (fun _ h => h.unsent) (fun v h => does_mark (t := t) h hn) ?_ ?_
  · rintro m w ⟨hf, hs, hid, hsrc⟩
    exact ⟨hf, hid, hsrc, _, hs, hsrc.symm⟩
  · rintro e w ⟨hf, r', h⟩
    exact ⟨hf, h.undoable⟩

/-- **The body of seeding**, over a new meeting. -/
theorem outline_fill {fixture : List (String × Json)} {fixtureId : Str} {meeting : Meeting} {job : UUID}
    (hn : nonBlank fixtureId = true) (hj : r.job.isSome = true)
    (hp : Fitted (fun v => Standing v r ∧ v.look (.folder, .manifest) = none) w) :
    sheltered.Outline Unsubmitted (OrUndone fun m v => ∃ b, Bundled fixture meeting job b ∧ Labelled fixtureId b m v)
      (fill fixture fixtureId meeting job) w := by
  have hundo : Fitted Undoable w := ⟨hp.1, r, hp.2.1, .inl hp.2.2⟩
  refine Setting.Outline.bind outline_bundleOf ?_ fun _ _ h => h.1 ▸ hundo
  rintro b w ⟨rfl, hb⟩
  refine Setting.Outline.bind (outline_publish hj hp) ?_ fun _ _ h => h
  rintro _ w hw
  refine Setting.Outline.bind (outline_deleteUpload hw) ?_ fun _ _ h => h
  rintro _ w hw
  refine Setting.Outline.bind (outline_readRecord hw) ?_ fun _ _ h => h
  rintro r w hr
  have hundo : Fitted Undoable w := ⟨hr.1, hr.2.undoable⟩
  refine Setting.Outline.bind (R := fun _ w' => w' = w) (outline_require (fun _ => rfl) fun _ => rfl) ?_ fun _ _ h => h ▸ hundo
  rintro ⟨⟩ w rfl
  refine Setting.Outline.bind (R := fun _ w' => w' = w) (outline_require (fun _ => rfl) fun _ => rfl) ?_ fun _ _ h => h ▸ hundo
  rintro ⟨⟩ w rfl
  refine Setting.Outline.bind (outline_now hr) ?_ fun _ _ h => h
  rintro t w hr
  refine (outline_mark hn hr).mono ?_
  rintro (e | m) w h
  · exact h
  · exact ⟨h.1, b, hb b rfl, h.2⟩

/-- **Undoing it** leaves no meeting, and raises. -/
theorem outline_rollback {suffix : UUID} {e : SeedError} (h : Fitted Undoable w) :
    sheltered.Outline Unsubmitted (fun out w => (∀ m, out ≠ .ok m) ∧ Fitted Absent w) (rollback suffix e) w := by
  refine Setting.Outline.bind (R := fun _ w' => Fitted Absent w') ?_
    (fun _ _ h => ⟨fun _ he => (by cases he), h⟩) fun _ _ h => ⟨fun _ he => (by cases he), h⟩
  refine outline_perform (P := Undoable) (L := fun _ _ => True) (R := fun _ v => Absent v) h stable_undoable ?_ ?_
    (fun _ _ h => h) fun _ _ h => h
  · rintro v ⟨r, hs, -⟩
    exact hs.unsent
  rintro v ⟨r, hs, -⟩
  refine (does_remove hs ?_).mono fun _ _ h => h.2
  rintro ⟨w, o, c, hc, hfault⟩
  rw [show c.fault = none from hc] at hfault
  cases hfault

/-- **A creation** in an empty folder stores a queued meeting without results, or leaves none. -/
theorem does_born {metadata : MeetingMetadata} {audio : Bytes} (hb : Blank v) (hm : metadata.valid Lib.validTimezone = true) :
    Does (StoreOp.createMeeting metadata audio).spared Legal (StoreOp.createMeeting metadata audio).program v fun out v' =>
      match out with
      | .ok m => m.id = Home.meetingId ∧ ∃ r, r.job.isSome = true ∧ Standing v' r ∧ v'.look (.folder, .manifest) = none
      | .error _ => Absent v' := by
  have hempty : Empty v := ⟨hb.files, by rw [hb.log]; rfl, by rw [hb.log]; rfl, hb.above⟩
  refine ((does_createMeeting hempty).keeps (J := fun v => Life False v ∧ running v.log = none) ⟨.blank hb, hempty.idle⟩
    fun v e hj hl => ⟨.step hj.1 (.lawful e hl), ?_⟩).mono ?_
  · rw [after_log, hl.running]
    exact hj.2
  rintro out v' ⟨hc, hlife, hidle⟩
  have hinv := hlife.inv
  cases out with
  | error e =>
    refine ⟨hc.imp id fun hr => ?_, hinv.grounded, hinv.unsent hidle⟩
    obtain ⟨w, c, hc, hfault⟩ := hr
    rw [hc rfl] at hfault
    cases hfault
  | ok m =>
    obtain ⟨t, sound, rfl, hstored⟩ := hc
    refine ⟨rfl, _, rfl, ⟨readRecord_ok.2 ⟨hstored.marker, ok_new hm, rfl, rfl⟩, hinv.sound.rooted hstored.marker,
      fun n => (hinv.sound.files n).1, fun d t ht => hinv.sound.plain d t (.inl ht), hinv.unsent hidle⟩, ?_⟩
    exact (look_of_reach (p := (.folder, .manifest)) (reach_of_look (p := marker) hstored.marker)).trans (hstored.alone _ nofun nofun)

/-! ## The whole of it -/

/-- What seeding checks first: whose account and which recording the fixture was prepared for. -/
structure Suited (demoOwnerId : UUID) (allowSynthetic : Bool) (raw : Json) (audio : Bytes)
    (fixture : List (String × Json)) (fixtureId : Str) : Prop where
  object : raw = .obj fixture
  owner : Home.ownerId = demoOwnerId
  bound : (raw.get "demo_owner_id").text = demoOwnerId.str
  purpose : raw.get "purpose" = .str "prepared_demo".toList ∨
    raw.get "purpose" = .str "synthetic_contract_test".toList ∧ allowSynthetic = true
  pinned : raw.get "recording_sha256" = .str (Lib.sha256 (.blob audio)).hex
  named : raw.get "fixture_id" = .str fixtureId ∧ nonBlank fixtureId = true

theorem readString_eq {j : Json} {s : Str} (h : readString j = some s) : j = .str s := by
  unfold readString at h
  split at h
  · cases h; rfl
  · cases h

theorem valid_load {j : Json} {m : MeetingMetadata} (h : MeetingMetadata.load j = some m) :
    m.valid Lib.validTimezone = true := by
  unfold MeetingMetadata.load at h
  split at h
  swap
  · cases h
  simp only [Option.bind_eq_bind, Option.bind_eq_some_iff] at h
  obtain ⟨title, -, date, -, zone, -, participants, -, notice, -, hint, -, h⟩ := h
  split at h
  · next hv => cases h; exact hv
  · cases h

theorem outline_checkPurpose {allowSynthetic : Bool} {purpose : Json} :
    sheltered.Outline Unsubmitted (fun out w' => w' = w ∧ (out = .ok () → purpose = .str "prepared_demo".toList ∨
      purpose = .str "synthetic_contract_test".toList ∧ allowSynthetic = true)) (checkPurpose allowSynthetic purpose) w := by
  unfold checkPurpose
  split
  · next s =>
    split
    · next h =>
      exact outline_require (fun ha => ⟨rfl, fun _ => .inr ⟨congrArg Json.str h, ha⟩⟩) fun _ => ⟨rfl, nofun⟩
    · exact outline_require (fun ha => ⟨rfl, fun _ => .inl (congrArg Json.str (of_decide_eq_true ha))⟩) fun _ => ⟨rfl, nofun⟩
  · exact ⟨rfl, nofun⟩

theorem outline_checkFixture {demoOwnerId : UUID} {allowSynthetic : Bool} {raw : Json} {audio : Bytes} :
    sheltered.Outline Unsubmitted (fun out w' => w' = w ∧ ∀ fixture fixtureId metadata, out = .ok (fixture, fixtureId, metadata) →
      Suited demoOwnerId allowSynthetic raw audio fixture fixtureId ∧ metadata.valid Lib.validTimezone = true)
      (checkFixture demoOwnerId allowSynthetic raw audio) w := by
  refine Setting.Outline.bind (R := fun out w' => w' = w ∧ (out = .ok () → Home.ownerId = demoOwnerId))
    (outline_require (fun h => ⟨rfl, fun _ => of_decide_eq_true h⟩) fun _ => ⟨rfl, nofun⟩) ?_ fun _ _ h => ⟨h.1, nofun⟩
  rintro ⟨⟩ w ⟨rfl, howner⟩
  split
  swap
  · exact ⟨rfl, nofun⟩
  next fixture =>
  refine Setting.Outline.bind outline_checkPurpose ?_ fun _ _ h => ⟨h.1, nofun⟩
  rintro ⟨⟩ w ⟨rfl, hpurpose⟩
  refine Setting.Outline.bind (R := fun out w' => w' = w ∧
      (out = .ok () → ((Json.obj fixture).get "demo_owner_id").text = demoOwnerId.str))
    (outline_require (fun h => ⟨rfl, fun _ => of_decide_eq_true h⟩) fun _ => ⟨rfl, nofun⟩) ?_ fun _ _ h => ⟨h.1, nofun⟩
  rintro ⟨⟩ w ⟨rfl, hbound⟩
  refine Setting.Outline.bind (R := fun out w' => w' = w ∧ ∀ s, out = .ok s →
      (readString ((Json.obj fixture).get "fixture_id")).filter nonBlank = some s)
    (outline_orRaise (fun s hs => ⟨rfl, fun _ h => by cases h; exact hs⟩) fun _ => ⟨rfl, nofun⟩) ?_ fun _ _ h => ⟨h.1, nofun⟩
  rintro fixtureId w ⟨rfl, hid⟩
  refine Setting.Outline.bind (R := fun out w' => w' = w ∧ ∀ s, out = .ok s →
      (readString ((Json.obj fixture).get "recording_sha256")).filter (fun s => s.length = 64) = some s)
    (outline_orRaise (fun s hs => ⟨rfl, fun _ h => by cases h; exact hs⟩) fun _ => ⟨rfl, nofun⟩) ?_ fun _ _ h => ⟨h.1, nofun⟩
  rintro expected w ⟨rfl, hexpected⟩
  refine Setting.Outline.bind (R := fun out w' => w' = w ∧ (out = .ok () → (Lib.sha256 (.blob audio)).hex = expected))
    (outline_require (fun h => ⟨rfl, fun _ => of_decide_eq_true h⟩) fun _ => ⟨rfl, nofun⟩) ?_ fun _ _ h => ⟨h.1, nofun⟩
  rintro ⟨⟩ w ⟨rfl, hpinned⟩
  refine Setting.Outline.bind (R := fun _ w' => w' = w) (outline_item (fun _ _ => rfl) rfl) ?_ fun _ _ h => ⟨h, nofun⟩
  rintro metadataJson w rfl
  refine Setting.Outline.bind (R := fun out w' => w' = w ∧ ∀ m, out = .ok m → MeetingMetadata.load metadataJson = some m)
    (outline_orRaise (fun s hs => ⟨rfl, fun _ h => by cases h; exact hs⟩) fun _ => ⟨rfl, nofun⟩) ?_ fun _ _ h => ⟨h.1, nofun⟩
  rintro metadata w ⟨rfl, hload⟩
  refine ⟨rfl, fun _ _ _ h => ?_⟩
  cases h
  obtain ⟨hid, hblank⟩ := Option.filter_eq_some_iff.1 (hid _ rfl)
  have hsha := readString_eq (Option.filter_eq_some_iff.1 (hexpected _ rfl)).1
  exact ⟨⟨rfl, howner rfl, hbound rfl, hpurpose rfl, by rw [hsha, hpinned rfl], readString_eq hid, hblank⟩,
    valid_load (hload _ rfl)⟩

/-- What a seeding that returned `m` has made: the fixture's results are served, and marked as a prepared example. -/
def Seeded (demoOwnerId : UUID) (allowSynthetic : Bool) (raw : Json) (audio : Bytes) (job : UUID) (m : Meeting) (v : View) :
    Prop :=
  ∃ fixture fixtureId b, Suited demoOwnerId allowSynthetic raw audio fixture fixtureId ∧ Bundled fixture m job b ∧
    Labelled fixtureId b m v

/-- What readers see of it then. -/
def SeedServes (demoOwnerId : UUID) (allowSynthetic : Bool) (raw : Json) (audio : Bytes) (job : UUID) (m : Meeting)
    (v : View) : Prop :=
  ∃ fixture fixtureId b r, Suited demoOwnerId allowSynthetic raw audio fixture fixtureId ∧ Bundled fixture m job b ∧
    m.source = ⟨.demoFixture, true, some fixtureId⟩ ∧ v.run readRecord = .ok r ∧ r.meeting.source = m.source ∧
    v.run readResults = .ok (b.transcript, b.insights)

/-- How seeding ends. -/
def SeedEnds (demoOwnerId : UUID) (allowSynthetic : Bool) (raw : Json) (audio : Bytes) (job : UUID) :
    Except SeedError Meeting → World → Prop
  | .ok m, w => Fitted (Seeded demoOwnerId allowSynthetic raw audio job m) w
  | .error _, w => Fitted Absent w

theorem Seeded.serves {demoOwnerId : UUID} {allowSynthetic : Bool} {raw : Json} {audio : Bytes} {job : UUID} {m : Meeting}
    (h : Seeded demoOwnerId allowSynthetic raw audio job m v) :
    sends v.log = [] ∧ SeedServes demoOwnerId allowSynthetic raw audio job m v := by
  obtain ⟨fixture, fixtureId, b, hp, hb, hid, hsrc, r, hr, hrs⟩ := h
  exact ⟨hr.unsent, fixture, fixtureId, b, r, hp, hb, hsrc, hr.readable, hrs, hr.committed.results⟩

theorem Bundled.of_id {fixture : List (String × Json)} {m m' : Meeting} {job : UUID} (h : Bundled fixture m job b)
    (hid : m'.id = m.id) : Bundled fixture m' job b := by
  obtain ⟨t, i, vs, hp, hb⟩ := h
  refine ⟨t, i, vs, hp, ?_⟩
  unfold seedBundle seedPayload at hb ⊢
  rw [hid]
  exact hb

theorem stable_ends {demoOwnerId : UUID} {allowSynthetic : Bool} {raw : Json} {audio : Bytes} {job : UUID}
    (out : Except SeedError Meeting) : sheltered.Stable none (SeedEnds demoOwnerId allowSynthetic raw audio job out) := by
  cases out with
  | error e => exact stable_absent
  | ok m =>
    refine stable_of fun w a cs ⟨hf, fixture, fixtureId, b, hp, hb, hid, hsrc, r, hr, hrs⟩ ha _ _ => ?_
    obtain ⟨hf', r', h', hs'⟩ := hr.ticked hf ha cs
    exact ⟨hf', fixture, fixtureId, b, hp, hb, hid, hsrc, r', h', hs'.trans hrs⟩

theorem absent_blank (h : Blank v) : Absent v :=
  ⟨.inl (h.files _).1, ⟨fun hm => absurd (h.files _).1 hm, fun _ => (h.files _).1, fun d t ht => absurd ht (h.plain d t).1⟩,
    by rw [h.log]; rfl⟩

theorem outline_seedDemoFixture {demoOwnerId : UUID} {allowSynthetic : Bool} {raw : Json} {audio : Bytes} {job suffix : UUID}
    (hf : Fit w.disk) (hb : Blank w.view) (hs : w.view.img.slot .folder = .absent) :
    sheltered.Outline Unsubmitted (SeedEnds demoOwnerId allowSynthetic raw audio job)
      (seedDemoFixture demoOwnerId allowSynthetic raw audio job suffix) w := by
  refine Setting.Outline.bind outline_checkFixture ?_ fun _ _ h => h.1 ▸ ⟨hf, absent_blank hb⟩
  rintro ⟨fixture, fixtureId, metadata⟩ w ⟨rfl, hcheck⟩
  obtain ⟨hsuited, hvalid⟩ := hcheck _ _ _ rfl
  refine Setting.Outline.bind (R := fun out w' => match out with
      | .ok m => Fitted (fun v => m.id = Home.meetingId ∧ ∃ r, r.job.isSome = true ∧ Standing v r ∧
          v.look (.folder, .manifest) = none) w'
      | .error _ => Fitted Absent w')
    (outline_perform (P := fun v => Blank v ∧ v.img.slot .folder = .absent) ⟨hf, hb, hs⟩ ?_ (fun v h => by rw [h.1.log]; rfl)
      (fun v h => does_born h.1 hvalid) (fun _ _ h => h) fun _ _ h => h) ?_ fun _ _ h => h
  · exact stable_of fun w _ _ hp _ hn _ => absurd hp.2.2 hn
  rintro m w ⟨hf, hid, r, hj, hstands, hm⟩
  refine Setting.Outline.handle (outline_fill hsuited.named.2 hj ⟨hf, hstands, hm⟩) ?_ fun e w h => ?_
  · rintro m' w ⟨hf, b, hbundle, hlabelled⟩
    exact ⟨hf, fixture, fixtureId, b, hsuited, hbundle.of_id (hlabelled.1.trans hid.symm), hlabelled⟩
  · refine (outline_rollback h).mono ?_
    rintro (e | m) w ⟨hne, hgone⟩
    · exact hgone
    · exact absurd rfl (hne m)

/-- **Sheltered seeding.** Next to a scheduler that keeps away from the meeting while it is visible without results and
while its record is being rewritten, nothing is submitted at any time; seeding that returns has made a prepared example
that serves the fixture's results, and the scheduler leaves it so; seeding that raises has left no meeting. -/
theorem seeding_is_sheltered {demoOwnerId : UUID} {allowSynthetic : Bool} {raw : Json} {audio : Bytes} {job suffix : UUID}
    {p : Seeding Meeting} (hb : Blank w.view) (ha : w.disk.Allocated) (hs : w.view.img.slot .folder = .absent)
    (hrun : sheltered.Run (seedDemoFixture demoOwnerId allowSynthetic raw audio job suffix, w) (p, w')) :
    sends w'.log = [] ∧
    (∀ m, p = .ret m → SeedServes demoOwnerId allowSynthetic raw audio job m w'.view) ∧
    (∀ e, p = .raise e → ∀ r, w'.view.run readRecord ≠ .ok r) := by
  have hf : Fit w.disk := ⟨ha, .inr (voidDisk_iff.2 (hb.files _))⟩
  have hout := Setting.Outline.run (outline_seedDemoFixture hf hb hs) stable_ends hrun
  cases p with
  | ret m =>
    obtain ⟨hsent, hserves⟩ := hout.2.serves
    refine ⟨hsent, fun _ h => ?_, fun _ h => by cases h⟩
    cases h
    exact hserves
  | raise e => exact ⟨hout.2.unsent, fun _ h => (by cases h), fun _ _ => hout.2.unreadable⟩
  | op o k => exact ⟨Setting.Outline.guard hout, fun _ h => (by cases h), fun _ h => (by cases h)⟩

end

/-! ## A sample -/

theorem Initial.blank [Lib] [Home] {c : Config} (h : Initial c) (hp : c.prog ≠ none) :
    Blank c.world.view ∧ c.world.disk.Allocated := by
  cases h with
  | created w metadata chunks kind extension hours hb ha => exact ⟨hb, ha⟩
  | legacy w r audio hl ht => exact absurd rfl hp

section

attribute [local instance] Sample.lib Sample.home

namespace Sample

@[reducible] def anySpelling : Spelling := ⟨UUID.parse, fun _ => parse_str⟩

/-- The one payload of the sample has this digest. -/
@[reducible] def preparing : Prepared := ⟨fun _ => first.resultHash, Date.load⟩

attribute [local instance] anySpelling preparing

def fixtureMetadata : Json :=
  .obj [("title", .word "t"), ("meeting_date", .word "2026-01-01"), ("timezone", .word "z"), ("participants", .arr []),
    ("recording_notice_confirmed", .bool true)]

def preparedExample : Json :=
  .obj [("purpose", .word "prepared_demo"), ("demo_owner_id", .str (UUID.str 1)), ("fixture_id", .word "f"),
    ("recording_sha256", .str (Lib.sha256 (.blob [1, 2, 3])).hex), ("metadata", fixtureMetadata),
    ("transcript", (transcript ['a']).dump), ("insights", insights.dump), ("model_versions", versions.dump)]

/-- The results are there, and nobody is about to overwrite the record. -/
def mayVisit (o : Option StoreOp) (w : World) : Bool :=
  (match w.view.run readResults with
    | .ok _ => true
    | .error _ => false) && !o.any StoreOp.rewrites && decide (w.view.img.slot .folder ≠ .absent)

/-- The coordinator visits the meeting, if it may. -/
def attended (o : Option StoreOp) (w : World) : World :=
  if mayVisit o w then (host.exec (List.replicate 40 Choice.calm) Action.step.program (w.note (.started .step))).2 else w

/-- A visit begins. -/
def begins : Event → Bool
  | .started .step => true
  | _ => false

/-- Every call of the store goes through, and the coordinator comes whenever it may. -/
def calmly {α : Type} : Seeding α → World → Seeding α × World
  | .op o k, w =>
    let w := attended (some o) w
    calmly (k (host.eval Choice.calm o.program w).1) (host.eval Choice.calm o.program w).2
  | p, w => (p, attended none w)

theorem run_attended {α : Type} (p : Seeding α) (w : World) : sheltered.Run (p, w) (p, attended p.next w) := by
  unfold attended
  split
  · next h =>
    simp only [mayVisit, Bool.and_eq_true, Bool.not_eq_true', decide_eq_true_eq] at h
    obtain ⟨⟨hres, hnext⟩, hslot⟩ := h
    refine .single (.meanwhile p w _ (.ticked .step _ (.inl rfl) hslot ⟨.inr ?_, hnext⟩))
    cases hx : w.view.run readResults with
    | ok x => exact ⟨x, rfl⟩
    | error e => rw [hx] at hres; cases hres
  · exact .refl

theorem run_calmly {α : Type} (p : Seeding α) (w : World) : sheltered.Run (p, w) (calmly p w) := by
  induction p generalizing w with
  | ret a => exact run_attended (.ret a) w
  | raise e => exact run_attended (.raise e) w
  | op o k ih =>
    have hcalm : ∀ w o', o.spared w o' Choice.calm := fun w o' => by
      cases o with
      | createMeeting metadata audio => exact fun _ => rfl
      | deleteMeeting suffix => exact rfl
      | _ => trivial
    refine (run_attended (.op o k) w).trans ?_
    have hran : Ran (M := host) o.spared o.program (attended (some o) w) _ _ :=
      ran_eval (M := host) Choice.calm hcalm o.program _
    exact .head (.acts o k _ _ _ hran) (ih _ _)

end Sample

attribute [local instance] Sample.anySpelling Sample.preparing

theorem seeding_is_sheltered_sample : ∃ m w',
    sheltered.Run (seedDemoFixture 1 false Sample.preparedExample [1, 2, 3] 9 7, Sample.world) (.ret m, w') ∧
      2 ≤ (w'.log.filter Sample.begins).length ∧ SeedServes 1 false Sample.preparedExample [1, 2, 3] 9 m w'.view := by
  have hret : (match (Sample.calmly (seedDemoFixture 1 false Sample.preparedExample [1, 2, 3] 9 7) Sample.world).1 with
      | .ret _ => true
      | _ => false) = true := by decide +kernel
  have hvisits : 2 ≤ ((Sample.calmly (seedDemoFixture 1 false Sample.preparedExample [1, 2, 3] 9 7) Sample.world).2.log.filter
      Sample.begins).length := by decide +kernel
  have hrun := Sample.run_calmly (seedDemoFixture 1 false Sample.preparedExample [1, 2, 3] 9 7) Sample.world
  generalize hend : Sample.calmly (seedDemoFixture 1 false Sample.preparedExample [1, 2, 3] 9 7) Sample.world = c
    at hret hvisits hrun
  obtain ⟨p, w'⟩ := c
  cases p with
  | ret m =>
    obtain ⟨hb, ha⟩ := Sample.initial.blank nofun
    exact ⟨m, w', hrun, hvisits, (seeding_is_sheltered hb ha rfl hrun).2.1 m rfl⟩
  | raise e => cases hret
  | op o k => cases hret

/-- Without the shelter a visit between the creation and the publication sends the recording. -/
example : sends (host.exec (List.replicate 40 { Choice.calm with answer := .http 202 (.job (Sample.job Sample.first)) })
    Action.step.program ((host.eval Choice.calm (StoreOp.createMeeting Sample.metadata [1, 2, 3]).program
      Sample.world).2.note (.started .step))).2.log ≠ [] := by decide +kernel

end

end Tirke
