import Tirke.Runs.Pinning
import Tirke.Runs.Written
import Tirke.Theorems.Acknowledgement
/-!
# Publication is all or nothing

At every point of every run, also between two file operations, `read_results` finds no committed results or the
transcript and insights of one bundle: one that `publish_results` was called with for the record's current attempt
and job. What it returned once is all it returns for that attempt.

| here | there |
| --- | --- |
| `Passed` | the bundle `_advance` hands to `publish_results` (`coordinator.py:197`) |
| `View.shown` | `read_meeting` (`artifact_store.py:300`), but for `source_available` |
-/

set_option linter.unusedSectionVars false

namespace Tirke

open CrashProg CrashDisk

section
variable [Lib] [Home] {v v' : View} {r r' : MeetingRecord} {b : ResultBundleV1} {c c' : Config}
  {x : TranscriptV1 × InsightsV1}

/-- The GPU served the bundle, and it passed the checks for the record's attempt and job. -/
structure Passed (log : List Event) (r : MeetingRecord) (b : ResultBundleV1) : Prop where
  valid : b.valid = true
  meeting : b.transcript.meetingId = Home.meetingId
  served : served log b
  bound : r.boundTo (b.manifest r.meeting.attempt)

/-- What `read_results` may tell. -/
inductive ReadsResults (v : View) : Except Exn (TranscriptV1 × InsightsV1) → Prop where
  | bundle (r : MeetingRecord) (b : ResultBundleV1) (hr : v.run readRecord = .ok r) (hb : Passed v.log r b) :
      ReadsResults v (.ok (b.transcript, b.insights))
  | notReady (r : MeetingRecord) (hr : v.run readRecord = .ok r) : ReadsResults v (.error .notReady)
  | absent (h : v.look marker = none) : ReadsResults v (.error .meetingNotFound)

def View.shown (v : View) : Except Exn Meeting := v.run (readRecord.bind fun r => showStatus r.meeting)

/-! ## One reader -/

/-- Without a manifest there are no results; with one, they are a passed bundle's. -/
theorem Inv.results (h : Inv v) (hu : undamaged v.log) (hr : v.run readRecord = .ok r) :
    v.files .manifest = none ∧ v.run readResults = .error .notReady ∨
    ∃ b, v.files .manifest ≠ none ∧ Passed v.log r b ∧ (∀ n x, (n, x) ∈ b.artifacts → v.files n = some x) ∧
      v.run readResults = .ok (b.transcript, b.insights) := by
  have hlook : v.look (.folder, .manifest) = v.files .manifest :=
    look_of_reach (p := (.folder, .manifest)) (readable_reach hr)
  cases hm : v.files .manifest with
  | none =>
    rw [hm] at hlook
    have hman : v.run readManifest = .error .notReady := by rw [run_readManifest hr, hlook]
    refine .inl ⟨rfl, ?_⟩
    simp only [readResults, Prog.bind_eq, run_bind, hman, error_bind]
  | some d =>
    obtain ⟨b, hb⟩ := h.backed.now (inPlay_of_readable hr) r d (files_of_readable hr) hm
    exact .inr ⟨b, (by simp), ⟨hb.valid, hb.meeting, hb.served, hb.bound⟩, hb.artifacts hu, hb.results hr hm hu⟩

theorem Inv.reads (h : Inv v) (hu : undamaged v.log) : ReadsResults v (v.run readResults) := by
  cases hl : v.look marker with
  | none =>
    have hrec : v.run readRecord = .error .meetingNotFound := by
      simp only [readRecord, Prog.bind_eq, run_bind, run_missingAs, hl, error_bind]
    have hres : v.run readResults = .error .meetingNotFound := by
      simp only [readResults, readManifest, Prog.bind_eq, run_bind, hrec, error_bind]
    rw [hres]
    exact .absent hl
  | some d =>
    obtain ⟨r, -, hr⟩ := h.readable hl
    rcases h.results hu hr with ⟨-, hres⟩ | ⟨b, -, hb, -, hres⟩
    · rw [hres]
      exact .notReady r hr
    · rw [hres]
      exact .bundle r b hr hb

/-- A published status is shown only with its results. -/
theorem results_of_shown {m : Meeting} (hm : v.run (showStatus r.meeting) = .ok m) (hp : m.status.published = true) :
    ∃ x, v.run readResults = .ok x := by
  rw [run_showStatus] at hm
  split at hm
  · split at hm
    · next x hx => exact ⟨x, hx⟩
    · next e he =>
      split at hm
      · cases hm
        cases hp
      · cases hm
  · next hs =>
    cases hm
    exact absurd hp hs

theorem Shown.results {A : Env host} {out : Except Exn Meeting} (h : Shown A v out) {m : Meeting} (ho : out = .ok m)
    (hp : m.status.published = true) : ∃ x, v.run readResults = .ok x := by
  cases h with
  | shown r m' b hr hm hb =>
    cases ho
    exact results_of_shown hm hp
  | unreadable | unshown | failed => cases ho

/-! ## Two readers -/

/-- Where nobody has acted yet, nothing was published. -/
def Untouched : Property := fun v _ f => running v.log = none → ∀ r, f .meeting = some (.record r) →
  r.meeting.status = .queued

theorem stable_untouched : Stable (fun _ => True) Untouched where
  absent h0 _ r hr := by rw [h0] at hr; cases hr
  frozen {v e h f} _ hl _ hp hrun := by
    rw [after_log, hl.running] at hrun
    exact hp hrun
  bounds {v e h f} _ he hp hrun := hp (bounds_running he hrun)
  power _ hp hrun := hp hrun
  damaged {v m d h f} _ hn hp hrun r hr := by
    rw [Function.update_of_ne (by rintro rfl; simp [resultNames] at hn)] at hr
    exact hp hrun r hr
  put {v m x} _ hl hm _ hp hrun r hr := by
    rw [Function.update_of_ne hm.symm] at hr
    exact hp hrun r hr
  removed {v m} _ hl hm _ hp hrun r hr := by
    rw [Function.update_of_ne hm.symm] at hr
    exact hp hrun r hr
  moved _ _ _ _ ha _ hrun := absurd hrun ha
  born {v r} _ hl hr hv _ r₁ hr₁ := by
    rw [Function.update_self] at hr₁
    cases hr₁
    cases hl with
    | moved _ _ _ _ _ ha => exact absurd hr ha
    | born => rfl
    | artifact _ _ _ _ _ _ hx => simp [ResultBundleV1.artifacts] at hx

theorem Life.untouched {rot : Prop} (h : Life rot v) : Holds Untouched v := by
  induction h with
  | blank h => exact .blank stable_untouched h
  | legacy h =>
    obtain ⟨metadata, t, kind, hours, extension, -, hrec⟩ := h.isNew
    refine .legacy h fun _ r hr => ?_
    cases hr
    rw [hrec]
    rfl
  | step _ hh ih => exact ih.step stable_untouched trivial hh

/-- From a reader on that saw results, they are fixed. -/
theorem Run.fixed (h : Reach (Step False) c) (hs : Run False c c') (hr : c.world.view.run readRecord = .ok r)
    (hx : c.world.view.run readResults = .ok x) :
    Holds (fun v _ f => undamaged v.log → Fixes r.meeting.attempt c.world.view.files f) c'.world.view := by
  have hi : Inv c.world.view := h.inv
  have hlife : Life False c.world.view := (reach_good (fun _ _ h => h) h).life
  rcases hi.results h.undamaged hr with ⟨-, hres⟩ | ⟨b, hman, hb, hart, -⟩
  · cases hx.symm.trans hres
  have hfiles : ∀ m ∈ resultNames, c.world.view.files m ≠ none := by
    intro m hm
    simp only [resultNames, List.mem_cons, List.not_mem_nil, or_false] at hm
    rcases hm with rfl | rfl | rfl
    · rw [hart .transcript (.transcript b.transcript) (by simp [ResultBundleV1.artifacts])]; rintro ⟨⟩
    · rw [hart .insights (.insights b.insights) (by simp [ResultBundleV1.artifacts])]; rintro ⟨⟩
    · rw [hart .text (.text (transcriptTxt b.transcript)) (by simp [ResultBundleV1.artifacts])]; rintro ⟨⟩
  have hin := inPlay_of_readable hr
  have hrec := files_of_readable hr
  have hact : running c.world.log ≠ none := by
    intro hrun
    obtain ⟨d, hd⟩ := Option.ne_none_iff_exists'.1 hman
    obtain ⟨b', hb'⟩ := hi.backed.now hin r d hrec hd
    have hq : r.meeting.status = .queued := hlife.untouched.now hin hrun r hrec
    rcases hb'.status with hp | hp <;> rw [hq] at hp <;> cases hp
  exact (Run.holds (stable_fixes hfiles) (fun _ _ ha hh => hh.running ha) h hact
    ⟨fun _ _ => .refl hrec, fun _ => hlife.pinned hin r hrec hman⟩ hs).1

/-- In the attempt, a reader that comes later sees the same results, or none. -/
theorem Run.results (h : Reach (Step False) c) (hs : Run False c c') (hr : c.world.view.run readRecord = .ok r)
    (hr' : c'.world.view.run readRecord = .ok r') (ha : r'.meeting.attempt = r.meeting.attempt)
    (hx : c.world.view.run readResults = .ok x) :
    c'.world.view.run readResults = .ok x ∨ c'.world.view.run readResults = .error .notReady := by
  have hi : Inv c.world.view := h.inv
  have hi' : Inv c'.world.view := (h.trans hs).inv
  have hu' : undamaged c'.world.log := (h.trans hs).undamaged
  have hfixed := Run.fixed h hs hr hx
  rcases hi'.results hu' hr' with ⟨-, hres⟩ | ⟨b', -, -, hart', hres'⟩
  · exact .inr hres
  rcases hi.results h.undamaged hr with ⟨-, hres⟩ | ⟨b, -, -, hart, hres⟩
  · cases hx.symm.trans hres
  cases hx.symm.trans hres
  obtain ⟨-, hfix⟩ := hfixed.now (inPlay_of_readable hr') hu' r' (files_of_readable hr')
  have hfile : ∀ n d d', n ∈ resultNames → (n, d) ∈ b.artifacts → (n, d') ∈ b'.artifacts → d' = d := by
    intro n d d' hn hd hd'
    rcases hfix ha n hn with hf | ⟨-, hf⟩
    · rw [hart n d hd, hart' n d' hd'] at hf
      exact Option.some.inj hf
    · rw [hart' n d' hd'] at hf
      cases hf
  have ht := hfile .transcript (.transcript b.transcript) (.transcript b'.transcript) (by simp [resultNames])
    (by simp [ResultBundleV1.artifacts]) (by simp [ResultBundleV1.artifacts])
  have hins := hfile .insights (.insights b.insights) (.insights b'.insights) (by simp [resultNames])
    (by simp [ResultBundleV1.artifacts]) (by simp [ResultBundleV1.artifacts])
  rw [hres']
  injection ht with ht
  injection hins with hins
  rw [ht, hins]
  exact .inl rfl

/-- **Readers see one bundle of the attempt, whole, or none, and always the same one.** -/
theorem publication_is_atomic (h : Reach (Step False) c) :
    ReadsResults c.world.view (c.world.view.run readResults) ∧
    Sat anything (fun _ _ => True) (fun out _ => ∀ m, out = .ok m → m.status.published = true →
      ∃ x, c.world.view.run readResults = .ok x) readMeeting c.world ∧
    ∀ c' r r' x, Run False c c' → c.world.view.run readRecord = .ok r → c'.world.view.run readRecord = .ok r' →
      r'.meeting.attempt = r.meeting.attempt → c.world.view.run readResults = .ok x →
      (c'.world.view.run readResults = .ok x ∨ c'.world.view.run readResults = .error .notReady) ∧
      ∀ m, c'.world.view.shown = .ok m → m.status.published = true → c'.world.view.run readResults = .ok x := by
  have hi : Inv c.world.view := h.inv
  have hg : Good False c := reach_good (fun _ _ h => h) h
  refine ⟨hi.reads h.undamaged, ?_, ?_⟩
  · have hsat := (does_readMeeting (A := anything) (L := fun _ _ => True)) c.world rfl hg.fit
    refine (hsat.mono ?_).weaken (fun _ _ _ h => h) fun _ _ _ => trivial
    intro out w hw m hm hp
    exact hw.2.2.results hm hp
  · intro c' r r' x hs hr hr' ha hx
    have hsame := Run.results h hs hr hr' ha hx
    refine ⟨hsame, fun m hm hp => ?_⟩
    simp only [View.shown, run_bind, hr', ok_bind] at hm
    obtain ⟨x', hx'⟩ := results_of_shown hm hp
    rcases hsame with h | h
    · exact h
    · cases hx'.symm.trans h

end

section
attribute [local instance] Sample.lib Sample.home

theorem publication_is_atomic_sample : ReadsResults Sample.acknowledging.world.view
    (.ok (Sample.first.transcript, Sample.first.insights)) := by
  have hres : Sample.acknowledging.world.view.run readResults = .ok (Sample.first.transcript, Sample.first.insights) := by
    decide +kernel
  have hreach : Reach (Step False) Sample.acknowledging := Sample.reach_created.cues (.inr rfl)
  have h := (publication_is_atomic hreach).1
  rw [hres] at h
  exact h

end

end Tirke
