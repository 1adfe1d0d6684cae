import Tirke.Theorems.Failing
/-!
# The recording and its deadline

Before `temporary_expires_at` the recording goes only once results are committed; from then on nothing is submitted and
no further attempt begins, and a janitor's sweep that nothing disturbs leaves neither name nor bytes of it.

| here | there |
| --- | --- |
| `early`, `late` | what `datetime.now(UTC)` may return: never, or only, the deadline or a later time |
| `undisturbed` | `LocalJanitor._sweep_entry` reaching the meeting after the deadline, and no call failing (`local_janitor.py:88`) |
-/

set_option linter.unusedSectionVars false

namespace Tirke

open CrashProg CrashDisk

section
variable [Lib] [Home] {v v' : View} {r r' : MeetingRecord} {c c' : Config} {e : Event} {A : Env host} {d : Time} {n : Nat}

/-- No clock shows `d` or a later time. -/
def early (d : Time) : Env host := fun w o ch => match o with
  | .now => w.clock + ch.elapsed < d
  | _ => True

/-- No clock shows a time before `d`. -/
def late (d : Time) : Env host := fun w o ch => match o with
  | .now => d ≤ w.clock + ch.elapsed
  | _ => True

/-! ## Before the deadline -/

theorem Step.early {rot : Prop} (h : Step rot c c') (hw : c'.world.clock < d) : StepIn rot (early d) c c' := by
  refine h.within fun w o ch hc' => ?_
  rw [hc'] at hw
  cases o with
  | now => exact hw
  | _ => trivial

/-- The recording is there, or results are committed; and these outlive no failure. -/
structure Stocked (d : Time) (f : Name → Option Doc) (r : MeetingRecord) : Prop where
  failed : r.meeting.status = .failed → f .manifest = none
  source : (∀ d', r.meeting.temporaryExpiresAt = some d' → d ≤ d') → f .upload ≠ none ∨ f .manifest ≠ none

/-- Where nothing rots, every record is stocked. -/
def Stocking (d : Time) : Property := fun v _ f => undamaged v.log → ∀ r, f .meeting = some (.record r) → Stocked d f r

section
variable [Weather]

/-- The weather shows no time from `d` on. -/
def Early (d : Time) : Prop := ∀ t, Weather.shows t → t < d

theorem Early.not_late (he : Early d) (hd : ∀ d', r.meeting.temporaryExpiresAt = some d' → d ≤ d') : ¬ r.late := by
  rintro ⟨t, deadline, ht, hdl, hle⟩
  exact absurd (he t ht) (Nat.not_lt.2 (Nat.le_trans (hd deadline hdl) hle))

theorem Stocked.moved (h : Stocked d v.files r) (hi : Inv v) (hu : undamaged v.log) (hr : v.run readRecord = .ok r)
    (m : Move v r r') : Stocked d (Function.update v.files .meeting (some (.record r'))) r' := by
  have hman : Function.update v.files .meeting (some (.record r')) .manifest = v.files .manifest :=
    Function.update_of_ne (by decide) _ _
  have hup : Function.update v.files .meeting (some (.record r')) .upload = v.files .upload :=
    Function.update_of_ne (by decide) _ _
  refine ⟨fun hf => ?_, fun hd => ?_⟩
  · rw [hman]
    by_cases hs : r.meeting.status = .failed
    · exact h.failed hs
    · -- whoever fails the meeting finds no results
      obtain ⟨code, -, -, hx⟩ := m.fails hs hf
      rcases hi.results hu hr with ⟨hnone, -⟩ | ⟨b, -, -, -, hres⟩
      · exact hnone
      · exact absurd hres (hx _)
  · rw [hman, hup]
    have hid : r'.meeting.temporaryExpiresAt = r.meeting.temporaryExpiresAt := congrArg Identity.temporaryExpiresAt m.identity
    exact h.source (hid ▸ hd)

theorem stable_stocking (he : Early d) : Stable (fun v => Inv v) (Stocking d) where
  absent h0 _ r hr := by rw [h0] at hr; cases hr
  frozen _ _ _ hp hu := hp (undamaged_cons (after_log ▸ hu))
  bounds _ _ hp hu := hp (undamaged_cons hu)
  power _ hp hu := hp (undamaged_cons hu)
  damaged {v n d h f} _ _ _ hu := absurd List.mem_cons_self (hu n d)
  put {v m x} _ hl hm _ hp hu r hr := by
    rw [Function.update_of_ne hm.symm] at hr
    have h := hp (undamaged_cons hu) r hr
    refine ⟨fun hf => ?_, fun hd => (h.source hd).imp put_ne_none put_ne_none⟩
    rw [Function.update_of_ne, h.failed hf]
    rintro rfl
    cases hl with
    | manifest r₀ b hpub hs =>
      obtain rfl := readable_unique hpub.readable hr
      rw [hs] at hf
      cases hf
    | artifact _ _ _ _ _ _ hx => simp [ResultBundleV1.artifacts] at hx
  removed {v m} _ hl hm _ hp hu r hr := by
    rw [Function.update_of_ne hm.symm] at hr
    have h := hp (undamaged_cons hu) r hr
    refine ⟨fun hf => ?_, fun hd => ?_⟩
    · rw [Function.update_apply, h.failed hf, ite_self]
    have hother : m ≠ .upload → m ≠ .manifest → Function.update v.files m none .upload ≠ none ∨
        Function.update v.files m none .manifest ≠ none := by
      intro h₁ h₂
      rw [Function.update_of_ne h₁.symm, Function.update_of_ne h₂.symm]
      exact h.source hd
    cases hl with
    | withdrawn => exact absurd rfl hm
    | dropped r₀ m x hr₀ hs hx _ hname =>
      obtain rfl := readable_unique hr₀ hr
      have hup : m ≠ .upload := by rintro rfl; simp [originals] at hname
      refine hother hup ?_
      rintro rfl
      have hx' : v.files .manifest = some x := vol_of_look hx
      rw [h.failed hs] at hx'
      cases hx'
    | pdfDropped r₀ m hr₀ hname => rcases hname with rfl | rfl <;> exact hother (by simp) (by simp)
    | uploadDropped r₀ hr₀ hc =>
      obtain rfl := readable_unique hr₀ hr
      rcases hc with ⟨man, hman⟩ | hlate
      · right
        rw [Function.update_of_ne (by decide)]
        exact manifest_of_ready hr₀ (by rw [hman]; rintro ⟨⟩)
      · exact absurd hlate (he.not_late hd)
  moved {v r r'} hi hr _ hm _ hp hu r₁ hr₁ := by
    rw [Function.update_self] at hr₁
    cases hr₁
    have hu' := undamaged_cons hu
    exact (hp hu' r (files_of_readable hr)).moved hi hu' hr hm
  born {v r} _ hl hr hv _ r₁ hr₁ := by
    rw [Function.update_self] at hr₁
    cases hr₁
    cases hl with
    | moved _ _ _ _ _ ha => exact absurd hr ha
    | born metadata t kind hours audio extension _ _ _ hup =>
      refine ⟨(by rintro ⟨⟩), fun _ => .inl ?_⟩
      have hup' : v.files .upload = some (.blob audio) := vol_of_look hup
      rw [Function.update_of_ne (by decide), hup']
      rintro ⟨⟩
    | artifact _ _ _ _ _ _ hx => simp [ResultBundleV1.artifacts] at hx

theorem Life.stocking {rot : Prop} (he : Early d) (h : Life rot v) : Holds (Stocking d) v := by
  induction h with
  | blank h => exact .blank (stable_stocking he) h
  | @legacy v r audio h =>
    refine .legacy h fun _ r₁ hr₁ => ?_
    obtain ⟨metadata, t, kind, hours, extension, -, hrec⟩ := h.isNew
    have hr₁' : some (Doc.record r) = some (.record r₁) := hr₁
    cases hr₁'
    refine ⟨fun hf => ?_, fun _ => .inl nofun⟩
    rw [hrec] at hf
    cases hf
  | step h hh ih => exact ih.step (stable_stocking he) h.inv hh

end

/-- **Before its deadline a recording goes only once its results are there.** In every run in which no clock shows `d`, a
meeting that is due at `d` or later has the recording it was created with, or committed results that can be read. -/
theorem recording_is_retained (h : Reach (StepIn False (early d)) c) (hr : c.world.view.run readRecord = .ok r)
    (hd : ∀ d', r.meeting.temporaryExpiresAt = some d' → d ≤ d') :
    (∃ audio, c.world.view.look (.folder, .upload) = some audio ∧ r.audioSha256 = some (Lib.sha256 audio)) ∨
      ∃ m t i, c.world.view.Committed m t i := by
  let _ : Weather := ⟨early d⟩
  have hg : Good False c := reach_in h
  have he : Early d := by
    rintro t ⟨w, ch, ht, rfl⟩
    exact ht
  have hi : Inv c.world.view := hg.life.inv
  have hin := inPlay_of_readable hr
  have hrec := files_of_readable hr
  rcases ((hg.life.stocking he).now hin hg.life.undamaged r hrec).source hd with hup | hman
  · left
    obtain ⟨x, hx⟩ := Option.ne_none_iff_exists'.1 hup
    obtain ⟨audio, hst, hsha, -⟩ := hi.sourced.now hin r hrec
    have hsame : some audio = some x := hst.symm.trans (hi.uploaded x (.inl hx))
    cases hsame
    exact ⟨x, (look_of_reach (p := (.folder, .upload)) (readable_reach hr)).trans hx, hsha⟩
  · right
    rcases hi.results hg.life.undamaged hr with ⟨hnone, -⟩ | ⟨b, -, -, -, hres⟩
    · exact absurd hnone hman
    · obtain ⟨m, _, hm, -⟩ := readResults_ok.1 hres
      exact ⟨m, _, _, hm, hres⟩

/-! ## From the deadline on -/

/-- The record is due at `d`, and its attempt is at most `n`. -/
def DueAt (n : Nat) (d : Time) (f : Name → Option Doc) : Prop :=
  ∀ r, f .meeting = some (.record r) → r.meeting.temporaryExpiresAt = some d ∧ r.meeting.attempt ≤ n

section
variable [Weather]

/-- The weather shows no time before `d`. -/
def Late (d : Time) : Prop := ∀ t, Weather.shows t → d ≤ t

theorem Late.not_timely (hl : Late d) (hd : r.meeting.temporaryExpiresAt = some d) : ¬ r.timely := by
  rintro ⟨t, deadline, ht, hdl, hlt⟩
  rw [hd] at hdl
  cases hdl
  exact absurd (hl t ht) (Nat.not_le.2 hlt)

/-- Nothing moves a record to another deadline, and there is no further attempt. -/
theorem Late.moved (hl : Late d) (m : Move v r r') (h : r.meeting.temporaryExpiresAt = some d ∧ r.meeting.attempt ≤ n) :
    r'.meeting.temporaryExpiresAt = some d ∧ r'.meeting.attempt ≤ n := by
  have hid : r'.meeting.temporaryExpiresAt = r.meeting.temporaryExpiresAt := congrArg Identity.temporaryExpiresAt m.identity
  refine ⟨hid.trans h.1, ?_⟩
  cases m with
  | retried t _ _ _ _ _ hd => exact absurd hd (hl.not_timely h.1)
  | published job b t _ _ _ hj => rw [published_eq hj]; exact h.2
  | _ => exact h.2

theorem keeping_dueAt (hl : Late d) : Keeping (fun _ => True) (DueAt n d) (fun v => Tirke.written v.log ≠ []) where
  stable := by
    refine ⟨fun h0 r hr => ?_, fun _ _ _ hp => hp, fun _ _ hp => hp, fun _ hp => hp, fun _ hn hp r hr => ?_,
      fun _ _ hn _ hp r hr => ?_, fun _ _ hn _ hp r hr => ?_, fun _ hr _ hm _ hp r₁ hr₁ => ?_, fun hw hb hr _ => ?_⟩
    · rw [h0] at hr
      cases hr
    · rw [Function.update_of_ne (by rintro rfl; simp [resultNames] at hn)] at hr
      exact hp r hr
    · rw [Function.update_of_ne hn.symm] at hr
      exact hp r hr
    · rw [Function.update_of_ne hn.symm] at hr
      exact hp r hr
    · rw [Function.update_self] at hr₁
      cases hr₁
      exact hl.moved hm (hp _ (files_of_readable hr))
    · cases hb with
      | moved _ _ _ _ _ ha => exact absurd hr ha
      | born _ _ _ _ _ _ _ _ _ _ _ _ hw' => exact absurd hw' hw
      | artifact _ _ _ _ _ _ hx => simp [ResultBundleV1.artifacts] at hx
  known _ _ _ hw := hw
  started _ _ := trivial
  act _ _ _ _ _ := trivial

/-- Nothing is submitted by an operation of a use that begins after the deadline. -/
theorem Kept.sends {w : World} {o : Op} {k : o.Reply → Serv Unit} (h : Kept (fun _ => True) (DueAt n d) ⟨w, some (.op o k)⟩)
    (hl : Late d) (ch : Choice) : Tirke.sends (w.act o ch).2.log = Tirke.sends w.log := by
  rcases (guarded_act h.reach.fit (h.obeys _ rfl).1.1 ch).2 with he | ⟨e, hlaw, he⟩
  · exact congrArg (Tirke.sends ∘ View.log) he
  have hlog : (w.act o ch).2.log = e :: w.log := (congrArg View.log he).trans after_log
  rw [hlog]
  rcases hlaw.sends with hs | ⟨key, context, audio, suffix, a, r, job, sha, rfl, hsub⟩
  · exact hs
  · have hdue := h.holds.now (inPlay_of_readable hsub.readable) r (files_of_readable hsub.readable)
    exact absurd hsub.timely (hl.not_timely hdue.1)

theorem Kept.unsent (h : Kept (fun _ => True) (DueAt n d) c) (hl : Late d) (hs : StepIn False Weather.admits c c') :
    Tirke.sends c'.world.log = Tirke.sends c.world.log := by
  cases hs with
  | op w o k ch hch => exact h.sends hl ch
  | other c c' hstep hp =>
    cases hstep with
    | op => rcases hp with hp | hp <;> cases hp
    | _ => rfl

end

/-- **From its deadline on, no recording is submitted.** In every run of a meeting during which no clock shows a time
before its deadline, no audio is sent and no further attempt begins, whatever the uses of it are; and the deadline stays. -/
theorem deadline_is_final (h : Reach (Step False) c) (hidle : c.idle) (hr : c.world.view.run readRecord = .ok r)
    (hd : r.meeting.temporaryExpiresAt = some d) (hrun : Relation.ReflTransGen (StepIn False (late d)) c c') :
    sends c'.world.log = sends c.world.log ∧ ∀ r', c'.world.view.run readRecord = .ok r' →
      r'.meeting.temporaryExpiresAt = some d ∧ r'.meeting.attempt ≤ r.meeting.attempt := by
  let _ : Weather := ⟨late d⟩
  have hl : Late d := by
    rintro t ⟨w, ch, ht, rfl⟩
    exact ht
  have hstart : Kept (fun _ => True) (DueAt r.meeting.attempt d) c := by
    refine .start h hidle hr ⟨fun _ r₁ hr₁ => ?_, fun r₁ hr₁ => ?_⟩
    · rw [files_of_readable hr] at hr₁
      cases hr₁
      exact ⟨hd, Nat.le_refl _⟩
    · obtain ⟨k, hk, rfl⟩ := h.inv.kept_hist hr₁
      have hid := congrArg Identity.temporaryExpiresAt (h.inv.identity hr hk)
      refine ⟨hid.trans hd, ?_⟩
      rcases h.inv.newest (inPlay_of_readable hr) (files_of_readable hr) hk with heq | hev
      · exact Nat.le_of_eq (congrArg (·.meeting.attempt) heq)
      · exact hev.attempt
  have hall : Kept (fun _ => True) (DueAt r.meeting.attempt d) c' ∧ sends c'.world.log = sends c.world.log := by
    induction hrun with
    | refl => exact ⟨hstart, rfl⟩
    | tail _ hstep ih => exact ⟨ih.1.step (keeping_dueAt hl) hstep, (ih.1.unsent hl hstep).trans ih.2⟩
  exact ⟨hall.2, fun r' hr' => hall.1.holds.now (inPlay_of_readable hr') r' (files_of_readable hr')⟩

/-! ## The sweep -/

/-- Nothing fails, the lifecycle lock is free, and no clock shows a time before `d`. -/
def undisturbed (d : Time) : Env host := fun w o ch => ch.fault = none ∧ w.busy = false ∧
  match o with
  | .now => d ≤ w.clock + ch.elapsed
  | _ => True

/-- What a sweep leaves of an overdue recording. -/
structure Expunged (v : View) (r : MeetingRecord) (out : Except Exn Unit) (v' : View) : Prop where
  gone : v'.uploadGone
  recorded : out = .ok () → (r.meeting.status.published = true → ∃ x, v.run readResults = .ok x) ∧
    ∃ r', v'.run readRecord = .ok r' ∧ r'.localCleanupStatus = .expired ∧ r'.meeting.sourceAvailable = false
  raised : ∀ e, out = .error e → r.meeting.status.published = true ∧ v.run readResults = .error e

/-- What an undisturbed sweep relies on. -/
structure Undisturbed (A : Env host) (d : Time) : Prop where
  calm : ¬ MayFail A
  free : ¬ MayBlock A
  late : ∀ t, MayShow A t → d ≤ t

theorem undisturbed_undisturbed : Undisturbed (undisturbed d) d where
  calm := by
    rintro ⟨w, o, ch, h, hf⟩
    rw [h.1] at hf
    cases hf
  free := by
    rintro ⟨w, ch, h, hb⟩
    rw [h.2.1] at hb
    cases hb
  late := by
    rintro t ⟨w, ch, h, rfl⟩
    exact h.2.2

theorem overdue_of_late {t : Time} (hp : r.localCleanupStatus = .pending) (hd : r.meeting.temporaryExpiresAt = some d)
    (ht : d ≤ t) : r.overdue t = true := by
  simp [MeetingRecord.overdue, hp, hd, ht]

theorem does_expire_undisturbed (hu : Undisturbed A d) (hr : v.run readRecord = .ok r) (hp : r.localCleanupStatus = .pending)
    (hd : r.meeting.temporaryExpiresAt = some d) (hact : running v.log ≠ none) :
    Does A Legal expireUpload v (Expunged v r) := by
  refine Does.readThen readOnly_readRecord (fun r₁ h => ?_) (fun e h => ?_) fun hf => absurd hf hu.calm
  swap
  · rw [hr] at h; cases h
  cases hr.symm.trans h
  refine Does.bind (R := fun out v' => v' = v ∧ ∃ t, out = .ok t ∧ MayShow A t)
    (Does.now fun t ht => ⟨rfl, t, rfl, ht⟩) ?_ fun _ _ h => by obtain ⟨-, t, ht, -⟩ := h; cases ht
  rintro t v ⟨rfl, _, ht, hshow⟩
  cases ht
  have hover : r.overdue t = true := overdue_of_late hp hd (hu.late t hshow)
  rw [if_pos hover]
  -- nothing keeps the upload from being removed
  refine Does.bind (R := fun out v' => Frame (· = ((.folder, .upload) : Path)) v v' ∧ out = .ok true ∧ v'.uploadGone) ?_ ?_ ?_
  · refine Does.handle (R := fun out v' => Frame (· = ((.folder, .upload) : Path)) v v' ∧ out = .ok true ∧ v'.uploadGone) ?_
      (fun _ _ h => h) fun e v' h => by cases h.2.1
    refine Does.bind (does_deleteUpload hr (.inr (late_of_overdue hover hshow))) ?_ ?_
    · rintro ⟨⟩ v' ⟨hf, hg, -⟩
      exact .ret ⟨hf, rfl, hg⟩
    · rintro e v' ⟨-, -, hk⟩
      exact absurd hk.mayFail hu.calm
  swap
  · rintro e v' h
    cases h.2.1
  rintro removed v₁ ⟨hf, h, hg⟩
  cases h
  have hr₁ : v₁.run readRecord = .ok r := (hf.run readOnly_readRecord fun q hq => by rw [hq]; decide).trans hr
  have hres : v₁.run readResults = v.run readResults := hf.run readOnly_readResults fun q hq => by
    rintro rfl
    rcases hq with h | h | h | h | h <;> cases h
  have hm : Move v₁ r (r.expired t) := .expired t hover hg
  refine Does.bind (does_update hr₁ hm rfl (by rw [hf.log.running]; exact hact)) ?_ ?_
  · rintro m v' h
    cases h with
    | done b hx =>
      refine .ret ⟨uploadGone_sync (show (v₁.mark (r.expired t)).img.vol (.folder, .upload) = none from ?_),
        fun _ => ⟨fun hpub => ?_, ?_⟩, nofun⟩
      · exact (vol_put_of_ne (by decide)).trans hg.1
      · obtain ⟨x, hx⟩ := hx hpub
        exact ⟨x, hres.symm.trans hx⟩
      · exact ⟨_, hm.readable_marked hr₁, rfl, rfl⟩
  · rintro e v' h
    cases h with
    | refused _ hpub he =>
      refine ⟨hg, nofun, fun e' he' => ?_⟩
      cases he'
      exact ⟨hpub, hres ▸ he⟩
    | nothing hf | shown hf | synced hf => exact absurd hf hu.calm

theorem does_sweep_undisturbed (hu : Undisturbed A d) (hr : v.run readRecord = .ok r) (hp : r.localCleanupStatus = .pending)
    (hd : r.meeting.temporaryExpiresAt = some d) (hact : running v.log ≠ none) :
    Does A Legal sweepEntry v (Expunged v r) := by
  have hlive : v.img.slot .folder = .live := live_of_reach (readable_reach hr) (by simp [Dir.chain])
  refine Does.bind (R := fun out v' => v' = v ∧ out = .ok .live) (Does.probe ⟨rfl, congrArg Except.ok hlive⟩ fun hf => absurd hf hu.calm)
    ?_ fun _ _ h => by cases h.2
  rintro s v ⟨rfl, hs⟩
  cases hs
  refine Does.bind (R := fun out v' => v' = v ∧ out = .ok true)
    (Does.exists ⟨rfl, by rw [readable_look hr]; rfl⟩ fun hf => absurd hf hu.calm) ?_ fun _ _ h => by cases h.2
  rintro b v ⟨rfl, hb⟩
  cases hb
  refine does_lifecycleLock (fun r₁ b hr₁ hb => ?_) (fun e he => ?_) fun hf => absurd hf hu.calm
  swap
  · rw [hr] at he; cases he
  have hb' : b = true := hb.resolve_right fun h => hu.free h.2
  subst hb'
  exact does_expire_undisturbed hu hr hp hd hact

/-- **A sweep after the deadline removes the recording.** From any reachable state in which the local cleanup is pending, a
sweep that nothing disturbs leaves no upload, not even one a power failure would bring back. If the meeting is half
published, `NotReady` escapes from it; otherwise it has recorded that the copy expired. -/
theorem sweep_removes_recording (h : Reach (Step False) c) (hr : c.world.view.run readRecord = .ok r)
    (hp : r.localCleanupStatus = .pending) (hd : r.meeting.temporaryExpiresAt = some d) :
    Sat (undisturbed d) (fun _ _ => True) (fun out (w' : World) => w'.view.uploadGone ∧
      (r.meeting.status.published = true ∧ c.world.view.files .manifest = none → out = .error .notReady) ∧
      (¬ (r.meeting.status.published = true ∧ c.world.view.files .manifest = none) → out = .ok () ∧
        ∃ r', w'.view.run readRecord = .ok r' ∧ r'.localCleanupStatus = .expired ∧ r'.meeting.sourceAvailable = false))
      sweepEntry (c.begin .sweep).world := by
  have hr' : (c.begin .sweep).world.view.run readRecord = .ok r := (run_note readOnly_readRecord).trans hr
  have hdoes := does_sweep_undisturbed undisturbed_undisturbed hr' hp hd (show running (c.begin .sweep).world.log ≠ none from nofun)
  refine ((hdoes (c.begin .sweep).world rfl h.fit).weaken (fun _ _ _ h => h) fun _ _ _ => trivial).mono ?_
  rintro out w' ⟨-, hout⟩
  have hnote : (c.world.view.note (.started .sweep)).run readResults = c.world.view.run readResults :=
    run_note readOnly_readResults
  refine ⟨hout.gone, ?_⟩
  cases out with
  | ok u =>
    obtain ⟨hread, hrec⟩ := hout.recorded rfl
    refine ⟨fun hhalf => ?_, fun _ => ⟨rfl, hrec⟩⟩
    obtain ⟨x, hx⟩ := hread hhalf.1
    rcases h.inv.results h.undamaged hr with ⟨-, hres⟩ | ⟨b, hman, -⟩
    · cases hres.symm.trans (hnote.symm.trans hx)
    · exact absurd hhalf.2 hman
  | error e =>
    obtain ⟨hpub, he⟩ := hout.raised e rfl
    rcases h.inv.results h.undamaged hr with ⟨hnone, hres⟩ | ⟨b, -, -, -, hres⟩
    · cases hres.symm.trans (hnote.symm.trans he)
      exact ⟨fun _ => rfl, fun hn => absurd ⟨hpub, hnone⟩ hn⟩
    · cases hres.symm.trans (hnote.symm.trans he)

end

section
attribute [local instance] Sample.lib Sample.home

namespace Sample

/-- The deadline has passed. -/
def outdated : Config := created.cue (.wait 86400001000 false)

/-- A use of the meeting after the deadline. -/
def belated : Config :=
  ⟨(host.play never (answering (gpu first)) Action.processOnce.program (outdated.begin .processOnce).world).2,
    some (host.play never (answering (gpu first)) Action.processOnce.program (outdated.begin .processOnce).world).1⟩

theorem reach_outdated : Reach (Step False) outdated := reach_created.trans (run_cue (.inr rfl))

theorem due_outdated : outdated.world.view.run readRecord = .ok (recordOf outdated) ∧
    (recordOf outdated).localCleanupStatus = .pending ∧
    (recordOf outdated).meeting.temporaryExpiresAt = some 86400001000 := by decide +kernel

end Sample

theorem early_acknowledging : Reach (StepIn False (early 86400001000)) Sample.acknowledging := by
  have hearly : ∀ c c' : Config, Step False c c' → decide (c'.world.clock < 86400001000) = true →
      StepIn False (early 86400001000) c c' := fun _ _ hs h => hs.early (of_decide_eq_true h)
  refine ⟨Sample.creation, Sample.initial, Relation.ReflTransGen.trans (b := Sample.created) ?_ ?_⟩
  · exact cues_keep (ψ := fun _ w' => decide (w'.clock < 86400001000)) hearly rfl (by decide +kernel)
  · exact cues_keep (ψ := fun _ w' => decide (w'.clock < 86400001000)) hearly rfl (by decide +kernel)

theorem recording_is_retained_sample : Sample.acknowledging.world.view.look (.folder, .upload) = none ∧
    ∃ m t i, Sample.acknowledging.world.view.Committed m t i := by
  have hr : Sample.acknowledging.world.view.run readRecord = .ok (Sample.recordOf Sample.acknowledging) := by decide +kernel
  have hd : (Sample.recordOf Sample.acknowledging).meeting.temporaryExpiresAt = some 86400001000 := by decide +kernel
  have hgone : Sample.acknowledging.world.view.look (.folder, .upload) = none := by decide +kernel
  refine ⟨hgone, (recording_is_retained early_acknowledging hr fun d' hd' => ?_).resolve_left ?_⟩
  · rw [hd] at hd'
    cases hd'
    exact Nat.le_refl _
  · rintro ⟨audio, hu, -⟩
    rw [hgone] at hu
    cases hu

theorem deadline_is_final_sample : sends Sample.belated.world.log = [] ∧
    (Sample.recordOf Sample.belated).meeting.attempt ≤ (Sample.recordOf Sample.outdated).meeting.attempt := by
  have hrun : Relation.ReflTransGen (StepIn False (late 86400001000)) Sample.outdated Sample.belated := by
    refine .head (.other _ _ (.start _ .processOnce trivial) (.inl rfl)) (run_playIn
      (ψ := fun _ w' => 86400001000 ≤ w'.clock) (fun w o h => ?_) (by decide +kernel))
    cases o with
    | now =>
      have hle : 86400001000 ≤ (w.act .now (Sample.answering (Sample.gpu Sample.first) w .now)).2.clock := of_decide_eq_true h
      exact hle
    | _ => trivial
  obtain ⟨hr, -, hd⟩ := Sample.due_outdated
  have hr' : Sample.belated.world.view.run readRecord = .ok (Sample.recordOf Sample.belated) := by decide +kernel
  obtain ⟨hs, hall⟩ := deadline_is_final Sample.reach_outdated rfl hr hd hrun
  exact ⟨hs.trans (by decide +kernel), (hall _ hr').2⟩

theorem sweep_removes_recording_sample : Sat (undisturbed 86400001000) (fun _ _ => True) (fun out (w' : World) =>
    w'.view.uploadGone ∧ out = .ok () ∧ ∃ r', w'.view.run readRecord = .ok r' ∧ r'.localCleanupStatus = .expired ∧
      r'.meeting.sourceAvailable = false) sweepEntry (Sample.outdated.begin .sweep).world := by
  obtain ⟨hr, hp, hd⟩ := Sample.due_outdated
  have hs : (Sample.recordOf Sample.outdated).meeting.status.published = false := by decide +kernel
  refine (sweep_removes_recording Sample.reach_outdated hr hp hd).mono ?_
  rintro out w' ⟨hgone, -, hrec⟩
  exact ⟨hgone, hrec (by simp [hs])⟩

end

end Tirke
