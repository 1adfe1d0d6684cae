import Tirke.Runs.Weather
import Tirke.Theorems.Export
import Tirke.Theorems.Retry
/-!
# When a meeting fails

`_fail` burns one of three attempts. `fails_for_cause` says of every step that failed a meeting why it did, in terms of
what the step's use of the meeting had seen; `outages_fail_nothing` that a GPU which cannot be reached, together with
failing system calls, crashes and whatever users do, is no such cause.

| here | there |
| --- | --- |
| `Response.unavailable` | the answers `_send` turns into `GPUUnavailable` (`gpu_client.py:152`) |
| `Cause` | the handlers of `_process` and the branches of `_advance` (`coordinator.py:57`, `:121`) |
-/

set_option linter.unusedSectionVars false

namespace Tirke

open CrashProg CrashDisk

section
variable [Lib] [Home] {v v' : View} {r r' : MeetingRecord} {c c' : Config} {e : Event} {rot : Prop} {A : Env host}
  {a : Response} {d : Time} {n : Nat}

/-! ## Causes -/

theorem Move.fails [Weather] (m : Move v r r') (hn : r.meeting.status ≠ .failed) (hf : r'.meeting.status = .failed) :
    ∃ code, r'.meeting.failure = some ⟨code, failureMessage code⟩ ∧ Cause v r code ∧ v.Unpublished := by
  cases m with
  | polledFailed _ _ code _ _ _ _ hm _ hw => exact ⟨code, rfl, hw, unpublished_of hm⟩
  | failed code _ _ _ hx hw => exact ⟨code, rfl, hw, hx⟩
  | published job b t _ _ _ hj => rw [published_eq hj] at hf; cases hf
  | _ => first | exact absurd hf hn | cases hf

/-- The record a lawful change leaves was there, or is a move of it. -/
theorem Legal.moves [Weather] (h : Legal v e) (hr : v.run readRecord = .ok r) (hr' : (v.after e).run readRecord = .ok r') :
    r' = r ∨ Move v r r' := by
  have hvol : v.img.vol (.folder, .meeting) = some (.record r) := files_of_readable hr
  have hvol' := files_of_readable hr'
  have hsame : v.img.vol (.folder, .meeting) = some (.record r') → r' = r := by
    intro h
    rw [hvol] at h
    cases h
    rfl
  cases e with
  | file f =>
    rcases Images.vol_apply hvol' with hx | rfl
    · exact .inl (hsame hx)
    cases h with
    | moved r₁ _ hr₁ _ hm =>
      cases hr.symm.trans hr₁
      exact .inr hm
    | born _ _ _ _ _ _ _ hv =>
      rw [hv.1] at hvol
      cases hvol
    | artifact _ _ _ _ _ _ hx => simp [ResultBundleV1.artifacts] at hx
  | _ => exact .inl (hsame hvol')

/-- **A meeting fails only for cause.** Whatever happens, a step after which the record has failed, and not because an
older record came back when the power failed, stored the code of a cause that was there; and it forgot neither the
attempt nor any job. -/
theorem fails_for_cause (h : Reach (StepIn rot A) c) (hs : StepIn rot A c c') (hr : c.world.view.run readRecord = .ok r)
    (hr' : c'.world.view.run readRecord = .ok r') (hn : r.meeting.status ≠ .failed) (hf : r'.meeting.status = .failed)
    (hp : ∀ log, c'.world.log ≠ .power :: log) :
    (∃ code, r'.meeting.failure = some ⟨code, failureMessage code⟩ ∧ @Cause _ _ ⟨A⟩ c.world.view r code) ∧
      r'.meeting.attempt = r.meeting.attempt ∧
      ∀ j ∈ r.jobs, ∃ j' ∈ r'.jobs, j'.attempt = j.attempt ∧ ∀ id, j.jobId = some id → j'.jobId = some id := by
  let _ : Weather := ⟨A⟩
  have hg : Good rot c := reach_in h
  have hne : r' ≠ r := by
    rintro rfl
    exact hn hf
  have hsame : ∀ {v' : View}, v'.img.vol = c.world.view.img.vol → v'.run readRecord ≠ .ok r' := by
    intro v' hv hread
    have hvol : v'.img.vol (.folder, .meeting) = some (.record r') := files_of_readable hread
    have hvol' : c.world.view.img.vol (.folder, .meeting) = some (.record r) := files_of_readable hr
    rw [hv, hvol'] at hvol
    cases hvol
    exact hne rfl
  rcases hs.step.happens hg with he | hh
  · exact absurd (he ▸ hr') (hsame rfl)
  generalize hv : c'.world.view = v' at hh hr'
  have hlog : c'.world.log = v'.log := congrArg View.log hv
  cases hh with
  | bounds e he => exact absurd hr' (hsame rfl)
  | power => exact absurd hlog (hp _)
  | damaged n d _ hn' =>
    have hvol : Function.update c.world.view.img.vol (.folder, n) d (.folder, .meeting) = some (.record r') :=
      files_of_readable hr'
    rw [Function.update_of_ne (by rintro he; cases he; simp [resultNames] at hn')] at hvol
    have hvol' : c.world.view.img.vol (.folder, .meeting) = some (.record r) := files_of_readable hr
    rw [hvol'] at hvol
    cases hvol
    exact absurd rfl hne
  | lawful e hl =>
    rcases hl.moves hr hr' with he | hmove
    · exact absurd he hne
    have hev := hmove.evolves (readable_ok hr)
    obtain ⟨code, hcode, hcause, -⟩ := hmove.fails hn hf
    refine ⟨⟨code, hcode, hcause⟩, ?_, hev.jobs⟩
    rcases hmove.attempt with ha | ⟨hs, -, -⟩
    · exact ha
    · exact absurd hs hn

/-! ## What an outage is -/

/-- `_send` turns the answer into `GPUUnavailable`. -/
def Response.unavailable : Response → Bool
  | .timeout | .connectionError => true
  | .http status _ => status = 401 || 500 ≤ status

/-- The GPU cannot be reached, the clock shows no time from `d` on, and the recording can be read. -/
def outage (d : Time) : Env host := fun w o ch => match o with
  | .ask _ => ch.answer.unavailable = true
  | .now => w.clock + ch.elapsed < d
  | .file o => o = .read (Path.entry (.folder, .upload)) → ch.fault = none
  | _ => True

theorem accepted_unavailable {expected : Nat} (he : expected < 300) (h : a.unavailable = true) :
    ∃ reason, accepted expected a = .error (.gpuUnavailable reason) := by
  cases a with
  | timeout => exact ⟨_, rfl⟩
  | connectionError => exact ⟨_, rfl⟩
  | http status body =>
    simp only [Response.unavailable, Bool.or_eq_true, decide_eq_true_eq] at h
    have hne : status ≠ expected := by omega
    simp only [accepted, if_neg hne]
    by_cases h401 : status = 401
    · exact ⟨_, by rw [if_pos h401]⟩
    · exact ⟨_, by rw [if_neg h401, if_pos (h.resolve_left h401)]⟩

theorem jobStatus_lt (q : Request) : q.jobStatus < 300 := by
  cases q <;> simp [Request.jobStatus]

theorem jobIn_unavailable {expected : Nat} (he : expected < 300) (h : a.unavailable = true) :
    ∃ reason, jobIn expected a = .error (.gpuUnavailable reason) := by
  obtain ⟨reason, ha⟩ := accepted_unavailable he h
  exact ⟨reason, by rw [jobIn, ha]⟩

theorem bundleIn_unavailable (h : a.unavailable = true) : ∃ reason, bundleIn a = .error (.gpuUnavailable reason) := by
  obtain ⟨reason, ha⟩ := accepted_unavailable (show 200 < 300 by decide) h
  exact ⟨reason, by rw [bundleIn, ha]⟩

theorem refused_unavailable {q : Request} {x : Exn} (h : a.unavailable = true) (hq : q.refused a x) :
    ∃ reason, x = .gpuUnavailable reason := by
  obtain ⟨reason, ha⟩ := accepted_unavailable (show 200 < 300 by decide) h
  obtain ⟨reason', ha'⟩ := accepted_unavailable (show 202 < 300 by decide) h
  cases q with
  | submit =>
    simp only [Request.refused, jobIn, ha', Except.error.injEq] at hq
    exact ⟨reason', hq.symm⟩
  | _ =>
    simp only [Request.refused, heardJob, heardBundle, heardReceipt, jobIn, bundleIn, receiptIn, ha, Except.bind,
      Except.error.injEq] at hq
    exact ⟨reason, hq.symm⟩

/-- The use under way has heard nothing of the GPU. -/
def Unheard (log : List Event) : Prop := ∀ q a, .asked q a ∈ current log → a.unavailable = true

theorem Unheard.untold {log : List Event} {q : Request} {j : JobV1} (h : Unheard log) : ¬ told (current log) q j := by
  rintro ⟨a, ha, hin⟩
  obtain ⟨reason, he⟩ := jobIn_unavailable (jobStatus_lt q) (h q a ha)
  rw [he] at hin
  cases hin

theorem Unheard.unserved {log : List Event} {b : ResultBundleV1} (h : Unheard log) : ¬ served (current log) b := by
  rintro ⟨a, ha, hin⟩
  obtain ⟨reason, he⟩ := bundleIn_unavailable (h _ a ha)
  rw [he] at hin
  cases hin

theorem Unheard.unhears {log : List Event} {job : JobRecord} {remote : JobV1} (h : Unheard log) : ¬ Heard log r job remote := by
  intro hh
  obtain ⟨q, ht⟩ := hh.recently
  exact h.untold ht

/-! ## What an outage leaves alone -/

/-- The record that shows, or is durable, while an outage lasts. -/
structure Awaits (n : Nat) (ids : List (Option UUID)) (d : Time) (f : Name → Option Doc) (r : MeetingRecord) : Prop where
  ongoing : r.meeting.status ≠ .failed
  attempt : r.meeting.attempt = n
  jobIds : r.jobs.map (·.jobId) = ids
  deadline : r.meeting.temporaryExpiresAt = some d
  hashed : r.audioSha256 ≠ none
  source : f .upload ≠ none ∨ f .manifest ≠ none

def Awaiting (n : Nat) (ids : List (Option UUID)) (d : Time) (f : Name → Option Doc) : Prop :=
  ∀ r, f .meeting = some (.record r) → Awaits n ids d f r

/-- No answer is heard of the GPU, and the deadline is not seen to pass. -/
structure Outage (A : Env host) (d : Time) : Prop where
  early : ∀ t, MayShow A t → t < d
  reads : ¬ MayFailAt A (.read (Path.entry (.folder, .upload)))
  answers : ∀ q a, MayAnswer A q a → a.unavailable = true

theorem outage_outage : Outage (outage d) d where
  early t h := by
    obtain ⟨w, ch, h, rfl⟩ := h
    exact h
  reads h := by
    obtain ⟨w, ch, h, hf⟩ := h
    have hnone : ch.fault = none := h rfl
    rw [hnone] at hf
    cases hf
  answers q a h := by
    obtain ⟨w, ch, h, rfl⟩ := h
    exact h

/-- What is known of a view while nothing is heard of the GPU. -/
structure Quieted (v : View) : Prop where
  inv : Inv v
  undamaged : undamaged v.log
  printed : Holds Printed v
  unheard : Unheard v.log
  written : written v.log ≠ []

theorem Reach.printed (h : Reach (Step False) c) : Holds Printed c.world.view := by
  have hg : Good False c := reach_good (fun _ _ h => h) h
  exact hg.life.printed

section
variable [Weather] {ids : List (Option UUID)} {code : FailureCode} {f : Name → Option Doc}

theorem not_late (ho : Outage Weather.admits d) (hd : r.meeting.temporaryExpiresAt = some d) : ¬ r.late := by
  rintro ⟨t, deadline, ht, hdl, hle⟩
  rw [hd] at hdl
  cases hdl
  exact absurd (ho.early t ht) (Nat.not_lt.2 hle)

/-- **There is no cause to fail.** -/
theorem Awaits.uncaused (h : Awaits n ids d v.files r) (ho : Outage Weather.admits d) (hq : Quieted v) (hr : v.run readRecord = .ok r)
    (hx : v.Unpublished) : ¬ Cause v r code := by
  have hman : v.files .manifest = none ∧ v.run readResults = .error .notReady := by
    rcases hq.inv.results hq.undamaged hr with h | ⟨b, -, -, -, hres⟩
    · exact h
    · exact absurd hres (hx _)
  intro hc
  cases hc with
  | absent hu =>
    rw [look_of_reach (p := (.folder, .upload)) (readable_reach hr)] at hu
    exact h.source.elim (fun hn => hn hu) fun hn => hn hman.1
  | late hl => exact not_late ho h.deadline hl
  | undated hn => rw [h.deadline] at hn; cases hn
  | unhashed hn => exact h.hashed hn
  | jobExpired q remote ht | jobFailed q remote ht => exact hq.unheard.untold ht
  | mismatched q remote a b ht => exact hq.unheard.untold ht
  | sourceGone q a status code ha he | rejected q a status code ha he =>
    obtain ⟨reason, hx⟩ := refused_unavailable (hq.unheard q a ha) he
    cases hx
  | malformed q a ha he =>
    obtain ⟨reason, hx⟩ := refused_unavailable (hq.unheard q a ha) he
    cases hx
  | unreadable e he hne =>
    rw [hman.2] at he
    cases he
    exact hne rfl
  | unmarked hs =>
    exact ((hq.printed.now (inPlay_of_readable hr) hq.undamaged r (files_of_readable hr)).approved hs).1 hman.1
  | conflict b hb => exact hq.unheard.unserved hb
  | unread hf => exact ho.reads hf

theorem JobMoved.sameId {j j' : JobRecord} (h : JobMoved v r r' j j') (hu : Unheard v.log) : j'.jobId = j.jobId := by
  cases h with
  | polled remote hj hh => exact absurd hh hu.unhears
  | published b hj hid => exact hid.symm
  | expired =>
    unfold JobRecord.expired
    split <;> rfl
  | _ => rfl

theorem Awaits.moved (h : Awaits n ids d v.files r) (ho : Outage Weather.admits d) (hq : Quieted v) (hr : v.run readRecord = .ok r)
    (m : Move v r r') : Awaits n ids d (Function.update v.files .meeting (some (.record r'))) r' := by
  have hid := m.identity
  have hs : r'.meeting.status ≠ .failed := by
    intro hf
    obtain ⟨code, -, hc, hx⟩ := m.fails h.ongoing hf
    exact h.uncaused ho hq hr hx hc
  have ha : r'.meeting.attempt = r.meeting.attempt := by
    rcases m.attempt with ha | ⟨hf, -⟩
    · exact ha
    · exact absurd hf h.ongoing
  refine ⟨hs, ha.trans h.attempt, ?_, (congrArg Identity.temporaryExpiresAt hid).trans h.deadline, ?_, ?_⟩
  · rcases m.jobs (readable_ok hr) with hf | ⟨-, hn⟩
    · rw [← h.jobIds]
      refine List.forall₂_eq_eq_eq ▸ List.forall₂_map_left_iff.2 (List.forall₂_map_right_iff.2 ?_)
      exact hf.flip.imp fun j j' hj => hj.sameId hq.unheard
    · omega
  · have hsha : r'.audioSha256 = r.audioSha256 := congrArg Identity.audioSha256 hid
    rw [hsha]
    exact h.hashed
  · simpa only [ne_eq, reduceCtorEq, not_false_eq_true, Function.update_of_ne] using h.source

theorem stable_awaiting (ho : Outage Weather.admits d) : Stable Quieted fun _ _ f => Awaiting n ids d f where
  absent h0 r hr := by rw [h0] at hr; cases hr
  frozen _ _ _ hp := hp
  bounds _ _ hp := hp
  power _ hp := hp
  damaged {v m x h f} _ hn hp r hr := by
    rw [Function.update_of_ne (by rintro rfl; simp [resultNames] at hn)] at hr
    obtain ⟨h₁, h₂, h₃, h₄, h₅, h₆⟩ := hp r hr
    refine ⟨h₁, h₂, h₃, h₄, h₅, ?_⟩
    rwa [Function.update_of_ne (by rintro rfl; simp [resultNames] at hn),
      Function.update_of_ne (by rintro rfl; simp [resultNames] at hn)]
  put {v m x} _ hl hm _ hp r hr := by
    rw [Function.update_of_ne hm.symm] at hr
    obtain ⟨h₁, h₂, h₃, h₄, h₅, h₆⟩ := hp r hr
    exact ⟨h₁, h₂, h₃, h₄, h₅, h₆.imp put_ne_none put_ne_none⟩
  removed {v m} hi hl hm _ hp r hr := by
    rw [Function.update_of_ne hm.symm] at hr
    have hw := hp r hr
    refine ⟨hw.ongoing, hw.attempt, hw.jobIds, hw.deadline, hw.hashed, ?_⟩
    cases hl with
    | withdrawn => exact absurd rfl hm
    | dropped r₀ n x hr₀ hs =>
      obtain rfl := readable_unique hr₀ hr
      exact absurd hs hw.ongoing
    | pdfDropped r₀ n hr₀ hname =>
      rw [Function.update_of_ne (by rintro rfl; rcases hname with h | h <;> cases h),
        Function.update_of_ne (by rintro rfl; rcases hname with h | h <;> cases h)]
      exact hw.source
    | uploadDropped r₀ hr₀ hc =>
      obtain rfl := readable_unique hr₀ hr
      rcases hc with ⟨man, hman⟩ | hlate
      · right
        rw [Function.update_of_ne (by decide)]
        exact manifest_of_ready hr₀ (by rw [hman]; rintro ⟨⟩)
      · exact absurd hlate (not_late ho hw.deadline)
  moved {v r r'} hi hr hok hm ha hp r₁ hr₁ := by
    rw [Function.update_self] at hr₁
    cases hr₁
    exact (hp r (files_of_readable hr)).moved ho hi hr hm
  born {v r} hi hl hr _ := by
    cases hl with
    | moved _ _ _ _ _ ha => exact absurd hr ha
    | born _ _ _ _ _ _ _ _ _ _ _ _ hw => exact absurd hw hi.written
    | artifact _ _ _ _ _ _ hx => simp [ResultBundleV1.artifacts] at hx

theorem Unheard.cons {log : List Event} (h : Unheard log) (he : current (e :: log) = e :: current log)
    (ha : ∀ q a, e = .asked q a → a.unavailable = true) : Unheard (e :: log) := by
  intro q a hm
  rw [he] at hm
  rcases List.mem_cons.1 hm with hm | hm
  · exact ha q a hm.symm
  · exact h q a hm

theorem unheard_act {w : World} {o : Op} {ch : Choice} (ho : Outage Weather.admits d) (h : Weather.admits w o ch)
    (hu : Unheard w.log) : Unheard (w.act o ch).2.log := by
  cases o with
  | ask q =>
    have ha : ch.answer.unavailable = true := ho.answers q _ ⟨w, ch, h, rfl⟩
    refine hu.cons (e := .asked q ch.answer) rfl ?_
    rintro q' a he
    cases he
    exact ha
  | file o =>
    cases he : w.disk.effect o ch.fault with
    | none => simpa only [World.act, World.tick, he] using hu
    | some e =>
      have hlog : Unheard (.file e :: w.log) := hu.cons (e := .file e) rfl fun _ _ he => by cases he
      simpa only [World.act, World.tick, he] using hlog
  | respond pdf => exact hu.cons (e := .responded pdf) rfl fun _ _ he => by cases he
  | now | flock b | stale => exact hu

theorem keeping_awaiting (ho : Outage Weather.admits d) : Keeping Unheard (Awaiting n ids d) Quieted where
  stable := stable_awaiting ho
  known _ h hu hw := ⟨h.inv, h.undamaged, h.printed, hu, hw⟩
  started _ _ _ _ h := nomatch h
  act _ _ _ := unheard_act ho

end

/-- What is known of a meeting when the outage begins: it has not failed, and its recording is there, or its results. -/
structure Underway (d : Time) (r : MeetingRecord) (v : View) : Prop where
  readable : v.run readRecord = .ok r
  ongoing : r.meeting.status ≠ .failed
  deadline : r.meeting.temporaryExpiresAt = some d
  hashed : r.audioSha256 ≠ none
  source : v.look (.folder, .upload) ≠ none ∨ v.look (.folder, .manifest) ≠ none

theorem Underway.awaits (h : Underway d r v) {f : Name → Option Doc} (hf : ∀ n, v.look (.folder, n) = f n) {r₁ : MeetingRecord}
    (hr : f .meeting = some (.record r₁)) : Awaits r.meeting.attempt (r.jobs.map (·.jobId)) d f r₁ := by
  have hl := readable_look h.readable
  rw [hf, hr] at hl
  cases hl
  refine ⟨h.ongoing, rfl, rfl, h.deadline, h.hashed, ?_⟩
  rw [← hf, ← hf]
  exact h.source

/-- **Outages fail no meeting.** From a meeting that has not failed, and is on disk as it shows: as long as the GPU cannot
be reached, the clock does not show its deadline to have passed and the recording itself can be read, nothing that
happens, be it failing system calls, crashes, power failures or other uses of the meeting, leaves it failed, begins
another attempt, or forgets or replaces the identity of a job. -/
theorem outages_fail_nothing (h : Reach (Step False) c) (hidle : c.idle) (hr : Underway d r c.world.view)
    (hl : Underway d r c.world.view.afterPower) (hrun : Relation.ReflTransGen (StepIn False (outage d)) c c')
    (hr' : c'.world.view.run readRecord = .ok r') : r'.meeting.status ≠ .failed ∧ r'.meeting.attempt = r.meeting.attempt ∧
      r'.jobs.map (·.jobId) = r.jobs.map (·.jobId) := by
  let _ : Weather := ⟨outage d⟩
  have hstart : Kept Unheard (Awaiting r.meeting.attempt (r.jobs.map (·.jobId)) d) c := by
    refine .start h hidle hr.readable ⟨fun _ r₁ h₁ => hr.awaits (fun n => ?_) h₁, fun r₁ h₁ => hl.awaits (fun n => ?_) h₁⟩
    · exact look_of_reach (p := (.folder, n)) (readable_reach hr.readable)
    · exact look_of_reach (p := (.folder, n)) (readable_reach hl.readable)
  have hend := hstart.run (keeping_awaiting outage_outage) hrun
  obtain ⟨hs, ha, hj, -⟩ := hend.holds.now (inPlay_of_readable hr') r' (files_of_readable hr')
  exact ⟨hs, ha, hj⟩

end

section
attribute [local instance] Sample.lib Sample.home

namespace Sample

/-- The replacement that fails the meeting. -/
def failsMarker : World → Op → Bool := fun w o => match o with
  | .file (.replace p (.folder, .named .meeting)) => match (w.disk.lookup p).map w.disk.data with
    | some (.record r) => r.meeting.status = .failed
    | _ => false
  | _ => false

/-- The GPU has failed the job, and the record does not say so yet. -/
def doomed : Config := created.cues [.start .processOnce, .play failsMarker (answering failing)]

def timingOut : World → Op → Choice := answering fun _ => .timeout

/-- A use of the meeting while the GPU does not answer. -/
def unanswered : Config :=
  ⟨(host.play never timingOut Action.processOnce.program (created.begin .processOnce).world).2,
    some (host.play never timingOut Action.processOnce.program (created.begin .processOnce).world).1⟩

def isPower : Event → Bool
  | .power => true
  | _ => false

end Sample

theorem fails_for_cause_sample : ∃ code, (Sample.recordOf (Sample.doomed.cue (.perform [.calm]))).meeting.failure =
    some ⟨code, failureMessage code⟩ ∧
      @Cause _ _ ⟨anything⟩ Sample.doomed.world.view (Sample.recordOf Sample.doomed) code := by
  have hreach : Reach (StepIn False anything) Sample.doomed := by
    have hdoomed : Reach (Step False) Sample.doomed := Sample.reach_created.cues (.inr rfl)
    obtain ⟨c₀, h₀, hs⟩ := hdoomed
    exact ⟨c₀, h₀, Relation.ReflTransGen.mono (fun _ _ h => h.anyhow) _ _ hs⟩
  have hstep : Step False Sample.doomed (Sample.doomed.cue (.perform [.calm])) := step_perform (by decide +kernel)
  have hlog : (Sample.doomed.cue (.perform [.calm])).world.log.head?.any Sample.isPower = false := by decide +kernel
  have hr : Sample.doomed.world.view.run readRecord = .ok (Sample.recordOf Sample.doomed) := by decide +kernel
  have hr' : (Sample.doomed.cue (.perform [.calm])).world.view.run readRecord =
      .ok (Sample.recordOf (Sample.doomed.cue (.perform [.calm]))) := by decide +kernel
  have hpower : ∀ log, (Sample.doomed.cue (.perform [.calm])).world.log ≠ .power :: log := by
    intro log h
    rw [h] at hlog
    cases hlog
  exact (fails_for_cause hreach hstep.anyhow hr hr' (by decide +kernel) (by decide +kernel) hpower).1

theorem outages_fail_nothing_sample : (Sample.recordOf Sample.unanswered).meeting.status ≠ .failed ∧
    (Sample.recordOf Sample.unanswered).meeting.attempt = (Sample.recordOf Sample.created).meeting.attempt ∧
    (Sample.recordOf Sample.unanswered).jobs.map (·.jobId) = (Sample.recordOf Sample.created).jobs.map (·.jobId) := by
  have hrun : Relation.ReflTransGen (StepIn False (outage 86400001000)) Sample.created Sample.unanswered := by
    refine .head (.other _ _ (.start _ .processOnce trivial) (.inl rfl)) (run_playIn
      (ψ := fun _ w' => w'.clock < 86400001000) (fun w o h => ?_) (by decide +kernel))
    cases o with
    | ask q => rfl
    | now =>
      have hlt : (w.act .now (Sample.timingOut w .now)).2.clock < 86400001000 := of_decide_eq_true h
      exact hlt
    | file o => exact fun _ => rfl
    | _ => trivial
  have hr : Sample.created.world.view.run readRecord = .ok (Sample.recordOf Sample.created) ∧
      Sample.created.world.view.afterPower.run readRecord = .ok (Sample.recordOf Sample.created) ∧
      (Sample.recordOf Sample.created).meeting.status ≠ .failed ∧
      (Sample.recordOf Sample.created).meeting.temporaryExpiresAt = some 86400001000 ∧
      (Sample.recordOf Sample.created).audioSha256 ≠ none ∧
      Sample.created.world.view.look (.folder, .upload) ≠ none ∧
      Sample.created.world.view.afterPower.look (.folder, .upload) ≠ none := by decide +kernel
  obtain ⟨hnow, hlater, hs, hd, ha, hu, hul⟩ := hr
  exact outages_fail_nothing (r := Sample.recordOf Sample.created) Sample.reach_created rfl ⟨hnow, hs, hd, ha, .inl hu⟩
    ⟨hlater, hs, hd, ha, .inl hul⟩ hrun (by decide +kernel)

end

end Tirke
