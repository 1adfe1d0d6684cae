import Tirke.Theorems.AckPending
import Tirke.Theorems.Retention
/-!
# Half-published meetings

A publication that was stopped between the record and the manifest is finished by the coordinator or not at all. Until
then the record says `review_required` and there are no results: every request is refused, and a sweep after the
deadline raises `ArtifactNotReady`, which the loop of `sweep` does not expect.

| here | there |
| --- | --- |
| `HalfPublished` | `publish_results` was stopped after `_write_record` (`artifact_store.py:541`) |
| `Tidies` | what `delete_upload` does to the folder, whoever calls it |
| `Aside` | anything but `process_once` |
-/

set_option linter.unusedSectionVars false

namespace Tirke

open CrashProg CrashDisk

section
variable [Lib] [Home] {v v' : View} {r r' : MeetingRecord} {c c' : Config} {e : Event} {rot : Prop} {A : Env host} {d : Time}

/-- The record says that there are results to review, and there is no manifest. -/
structure HalfPublished (v : View) (r : MeetingRecord) : Prop where
  readable : v.run readRecord = .ok r
  status : r.meeting.status = .reviewRequired
  manifest : v.look (.folder, .manifest) = none
  pending : r.localCleanupStatus = .pending

/-- What a use of such a meeting may do. -/
inductive Tidies : Law where
  | upload {v : View} : Tidies v (.file (.removed (.folder, .upload)))
  | synced {v : View} (d : Dir) : Tidies v (.file (.synced d))

/-- What was asked of the GPU, with its answers. -/
def requested (log : List Event) : List Event := log.filter fun e => match e with
  | .asked _ _ => true
  | _ => false

namespace HalfPublished

theorem results (h : HalfPublished v r) : v.run readResults = .error .notReady := by
  simp only [readResults, Prog.bind_eq, run_bind, run_readManifest h.readable, h.manifest]
  rfl

theorem current (h : HalfPublished v r) : v.run (readCurrentLocked r.meeting) = .error .notReady := by
  simp only [readCurrentLocked, Prog.bind_eq, run_bind, run_demand, h.status, MeetingStatus.published, demand_bind,
    h.results]
  rfl

/-! ## Every request is refused -/

/-- It raised, and changed nothing. -/
def Refused {α : Type} (v : View) (out : Except Exn α) (v' : View) : Prop := v' = v ∧ ∃ e, out = .error e

theorem Refused.raised {α : Type} {e : Exn} : Refused (α := α) v (.error e) v := ⟨rfl, e, rfl⟩

/-- A request reads the record under the lock. -/
theorem does_locked {α : Type} {f : MeetingRecord → Serv α} (h : HalfPublished v r)
    (hf : Does A Tidies (f r) v (Refused v)) :
    Does A Tidies (lifecycleLock true fun _ => readRecord.bind f) v (Refused v) := by
  refine does_lifecycleLock (fun _ _ _ _ => ?_) (fun _ _ => .raised) fun _ => .raised
  refine Does.readThen readOnly_readRecord (fun r₁ hr => ?_) (fun _ _ => .raised) fun _ => .raised
  cases h.readable.symm.trans hr
  exact hf

theorem does_discard {α : Type} {p : Serv α} (h : Does A Tidies p v (Refused v)) :
    Does A Tidies (discard p) v (Refused v) :=
  Does.bind h (fun _ _ hr => by obtain ⟨-, e, he⟩ := hr; cases he) fun e _ hr => ⟨hr.1, e, rfl⟩

theorem does_discarded {α : Type} {p : Serv α} {P : Prop} {x : Exn}
    (h : Does A Tidies p v fun out _ => out = .error x ∨ P) :
    Does A Tidies (discard p) v fun out _ => out = .error x ∨ P :=
  Does.bind h (fun _ _ hq => .ret (hq.imp_left nofun)) fun e _ hq => hq.imp_left fun he => by cases he; rfl

theorem does_demands {α : Type} {b : Bool} {x : Exn} {f : Unit → Serv α}
    (hf : b = true → Does A Tidies (f ()) v (Refused v)) : Does A Tidies ((demand b x).bind f) v (Refused v) := by
  refine Does.bind does_demand ?_ fun e _ he => ⟨he.1, e, rfl⟩
  rintro ⟨⟩ v' ⟨rfl, hb⟩
  exact hf hb

/-- What is read there raises. -/
theorem does_unread {α β : Type} {S : Path → Prop} {p : Serv α} {f : α → Serv β} {x : Exn} (hp : ReadOnly S p)
    (hx : v.run p = .error x) : Does A Tidies (p.bind f) v (Refused v) :=
  Does.readThen hp (fun _ ha => by rw [hx] at ha; cases ha) (fun _ _ => .raised) fun _ => .raised

theorem does_retry (h : HalfPublished v r) : Does A Tidies Lifecycle.retryMeeting v (Refused v) :=
  h.does_locked <| does_demands fun hs => by simp [h.status] at hs

theorem does_delete {suffix : UUID} (h : HalfPublished v r) :
    Does A Tidies (Lifecycle.deleteMeeting suffix) v (Refused v) := by
  refine h.does_locked <| does_demands fun _ => ?_
  have hp : Lifecycle.anythingPending r = .ret true := by
    simp [Lifecycle.anythingPending, MeetingRecord.cleanupPending, h.pending]
  rw [hp]
  exact does_demands (by simp)

theorem does_review {q : ReviewRequest} (h : HalfPublished v r) : Does A Tidies (Tirke.updateReview q) v (Refused v) :=
  h.does_locked <| does_demands fun _ => does_demands fun _ => does_unread readOnly_readResults h.results

theorem does_approve {q : ApprovalRequest} (h : HalfPublished v r) : Does A Tidies (approveReview q) v (Refused v) :=
  h.does_locked <| does_demands fun _ => does_demands fun _ => does_unread readOnly_readCurrentLocked h.current

theorem does_export (h : HalfPublished v r) : Does A Tidies getExportPdf v (Refused v) := by
  simp only [getExportPdf, buildExportUnlocked, Prog.bind_eq, Prog.bind_assoc]
  exact h.does_locked <| does_demands fun hs => by simp [h.status] at hs

/-! ## A sweep changes nothing but the upload -/

theorem mark_refused (h : HalfPublished v r) (hm : Move v r r') (ha : r'.meeting.attempt = r.meeting.attempt)
    (hs : r'.meeting.status.published = true) :
    Does A Tidies (updateMeeting r') v fun out _ => out = .error .notReady ∨ MayFail A := by
  refine (does_updateUnder h.readable hm ha (fun hx => ?_) (.synced _)).mono ?_
  · obtain ⟨x, hx⟩ := hx hs
    cases h.results.symm.trans hx
  · rintro out v' hu
    cases hu with
    | done b hx =>
      obtain ⟨x, hx⟩ := hx hs
      cases h.results.symm.trans hx
    | refused e _ he =>
      cases h.results.symm.trans he
      exact .inl rfl
    | nothing hf | shown hf | synced hf => exact .inr hf

theorem dropped (h : HalfPublished v r) : HalfPublished (v.drop (.folder, .upload)) r := by
  have hl : ∀ n, n ≠ .upload → (v.drop (.folder, .upload)).look (.folder, n) = v.look (.folder, n) := fun n hn =>
    look_drop_of_ne fun he => hn (congrArg Prod.snd he)
  exact ⟨(run_congr readOnly_readRecord fun q hq => by rw [hq, hl .meeting nofun]).trans h.readable, h.status,
    (hl .manifest nofun).trans h.manifest, h.pending⟩

theorem synced (h : HalfPublished v r) (d : Dir) : HalfPublished (v.sync d) r :=
  ⟨(run_sync readOnly_readRecord).trans h.readable, h.status, h.manifest, h.pending⟩

theorem does_deleteUpload (h : HalfPublished v r) : Does A Tidies deleteUpload v fun out v' => HalfPublished v' r ∧
    match out with
    | .ok () => v'.uploadGone
    | .error e => e = .osError ∧ MayFail A := by
  refine Does.readThen readOnly_readRecord.discard (fun _ _ => ?_) (fun e he => ?_) fun hf => ⟨h, rfl, hf⟩
  swap
  · rw [run_discard, h.readable] at he; cases he
  refine Does.bind (R := fun out v' => HalfPublished v' r ∧ match out with
      | .ok () => v'.img.vol (.folder, .upload) = none
      | .error e => e = .osError ∧ MayFail A)
    (Does.unlink (p := (.folder, .upload)) (fun _ => .upload) (fun _ => ⟨h.dropped, ?_⟩) (fun hn => ?_)
      fun hf => ⟨h, rfl, hf.mayFail⟩) ?_ fun _ _ hq => hq
  · simp [Images.apply]
  · exact ⟨h, by rw [← look_of_reach (p := (.folder, .upload)) (readable_reach h.readable)]; exact hn⟩
  · rintro ⟨⟩ v₁ ⟨h₁, hn⟩
    refine Does.syncDirectory (.inl (readable_notVoid h₁.readable)) (fun _ => .synced _)
      (fun _ => ⟨h₁.synced _, uploadGone_sync hn⟩) (fun hr => ?_) fun hf => ⟨h₁, rfl, hf.mayFail⟩
    rw [readable_reach h₁.readable] at hr
    cases hr

theorem does_expireUpload (h : HalfPublished v r) : Does A Tidies expireUpload v fun out _ =>
    (∀ t, MayShow A t → r.overdue t = true) → out = .error .notReady ∨ MayFail A := by
  refine Does.readThen readOnly_readRecord (fun r₁ hr => ?_) (fun e he => ?_) fun hf _ => .inr hf
  swap
  · rw [h.readable] at he; cases he
  cases h.readable.symm.trans hr
  refine Does.bind (R := fun out v' => v' = v ∧ ∃ t, out = .ok t ∧ MayShow A t)
    (Does.now fun t ht => ⟨rfl, t, rfl, ht⟩) ?_ fun _ _ hq => by obtain ⟨-, t, ht, -⟩ := hq; cases ht
  rintro t v ⟨rfl, _, ht, hshow⟩
  cases ht
  split
  swap
  · next hn => exact .ret fun hall => absurd (hall t hshow) hn
  next hover =>
  refine Does.bind (R := fun out v' => HalfPublished v' r ∧ ∃ b, out = .ok b ∧ (b = true → v'.uploadGone)) ?_ ?_
    fun _ _ hq => by obtain ⟨-, b, hb, -⟩ := hq; cases hb
  · refine Does.handle (R := fun out v' => HalfPublished v' r ∧ match out with
        | .ok b => b = true → v'.uploadGone
        | .error e => e = .osError) ?_ (fun b _ hq => ⟨hq.1, b, rfl, hq.2⟩) ?_
    · refine Does.bind h.does_deleteUpload ?_ fun e v' hq => ⟨hq.1, hq.2.1⟩
      rintro ⟨⟩ v' ⟨h', hg⟩
      exact .ret ⟨h', fun _ => hg⟩
    · rintro e v' ⟨h', rfl⟩
      exact .ret ⟨h', false, rfl, nofun⟩
  rintro removed v₁ ⟨h₁, _, hb, hgone⟩
  cases hb
  have hpub : r.meeting.status.published = true := by rw [h.status]; rfl
  cases removed with
  | false => exact (does_discarded (h₁.mark_refused (.deferred t hover) rfl hpub)).mono fun _ _ hq _ => hq
  | true => exact (does_discarded (h₁.mark_refused (.expired t hover (hgone rfl)) rfl hpub)).mono fun _ _ hq _ => hq

theorem does_sweepEntry (h : HalfPublished v r) : Does A Tidies sweepEntry v fun out _ =>
    Undisturbed A d → r.meeting.temporaryExpiresAt = some d → out = .error .notReady := by
  have hlive : v.img.slot .folder = .live := live_of_reach (readable_reach h.readable) (by simp [Dir.chain])
  have hmark : (v.look marker).isSome = true := by rw [readable_look h.readable]; rfl
  refine Does.bind (R := fun out v' => v' = v ∧ (out = .ok .live ∨ out = .error .osError ∧ MayFail A))
    (Does.probe ⟨rfl, .inl (congrArg Except.ok hlive)⟩ fun hf => ⟨rfl, .inr ⟨rfl, hf⟩⟩) ?_ fun _ _ hq hu => ?_
  swap
  · obtain ⟨-, he | ⟨-, hf⟩⟩ := hq
    · cases he
    · exact absurd hf hu.calm
  rintro slot v ⟨rfl, hs | ⟨hs, -⟩⟩ <;> cases hs
  refine Does.bind (R := fun out v' => v' = v ∧ (out = .ok true ∨ out = .error .osError ∧ MayFail A))
    (Does.exists ⟨rfl, .inl (congrArg Except.ok hmark)⟩ fun hf => ⟨rfl, .inr ⟨rfl, hf⟩⟩) ?_ fun _ _ hq hu => ?_
  swap
  · obtain ⟨-, he | ⟨-, hf⟩⟩ := hq
    · cases he
    · exact absurd hf hu.calm
  rintro there v ⟨rfl, hs | ⟨hs, -⟩⟩ <;> cases hs
  refine does_lifecycleLock (fun _ b _ hb => ?_) (fun e he => ?_) fun hf hu => absurd hf hu.calm
  swap
  · rw [h.readable] at he; cases he
  cases b with
  | false => exact .ret fun hu => (hb.resolve_left (by simp)).2 |> hu.free |>.elim
  | true =>
    refine h.does_expireUpload.mono fun out v' hq hu hd => ?_
    exact (hq fun t ht => overdue_of_late h.pending hd (hu.late t ht)).resolve_right hu.calm

/-! ## It stays half published -/

/-- **Only the coordinator does anything about it.** -/
theorem does_program {a : Action} (h : HalfPublished v r) (ha : a ≠ .processOnce ∧ a ≠ .step) :
    Does A Tidies a.program v fun out _ => a ≠ .sweep → ∃ e, out = .error e := by
  have hrefused : ∀ {p : Serv Unit}, Does A Tidies p v (Refused v) →
      Does A Tidies p v fun out _ => a ≠ .sweep → ∃ e, out = .error e := fun hp => hp.mono fun _ _ hq _ => hq.2
  cases a with
  | processOnce => exact absurd rfl ha.1
  | step => exact absurd rfl ha.2
  | sweep => exact (h.does_sweepEntry (d := 0)).mono fun _ _ _ hn => absurd rfl hn
  | retry => exact hrefused (does_discard h.does_retry)
  | delete suffix => exact hrefused h.does_delete
  | updateReview q => exact hrefused (does_discard h.does_review)
  | approve q => exact hrefused (does_discard h.does_approve)
  | exportPdf => exact hrefused h.does_export

theorem step (h : HalfPublished v r) (he : Tidies v e) : HalfPublished (v.after e) r := by
  cases he with
  | upload => exact h.dropped
  | synced d => exact h.synced d

theorem congr (h : HalfPublished v r) (hl : ∀ n, n = .meeting ∨ n = .manifest → v'.look (.folder, n) = v.look (.folder, n)) :
    HalfPublished v' r :=
  ⟨(run_congr readOnly_readRecord fun q hq => by rw [hq]; exact hl .meeting (.inl rfl)).trans h.readable, h.status,
    (hl .manifest (.inr rfl)).trans h.manifest, h.pending⟩

/-- What a power failure would leave, too. -/
theorem later (h : HalfPublished v r) (hl : HalfPublished v.afterPower r) (he : Tidies v e) :
    HalfPublished (v.after e).afterPower r := by
  cases he with
  | upload => exact hl.congr fun _ _ => rfl
  | synced d =>
    have hroot : v.Rooted .folder := ⟨readable_reach h.readable, readable_reach hl.readable⟩
    have hdur : ∀ n, n = .meeting ∨ n = .manifest → v.img.dur (.folder, n) = v.img.vol (.folder, n) := by
      rintro n (rfl | rfl)
      · rw [← look_afterPower (q := marker) hroot, ← look_of_reach (p := marker) hroot.now, readable_look hl.readable,
          readable_look h.readable]
      · rw [← look_afterPower (q := (.folder, .manifest)) hroot, ← look_of_reach (p := (.folder, .manifest)) hroot.now,
          hl.manifest, h.manifest]
    refine hl.congr fun n hn => ?_
    refine (look_afterPower (q := (.folder, n)) (rooted_sync hroot d)).trans (Eq.trans ?_ (look_afterPower (q := (.folder, n)) hroot).symm)
    simp only [View.sync, View.change_img, Images.apply]
    split
    · exact (hdur n hn).symm
    · rfl

end HalfPublished

/-- Anything happens to the meeting but a visit of the coordinator. -/
def Aside (c c' : Config) : Prop := Step False c c' ∧ (c'.prog ≠ none → ¬ coordinating c'.world.log)

/-- A half-published meeting, with what is under way on it. -/
structure Frozen (r : MeetingRecord) (c : Config) : Prop where
  reach : Reach (Step False) c
  half : HalfPublished c.world.view r
  later : HalfPublished c.world.view.afterPower r
  going : ∀ p, c.prog = some p → ∃ a, running c.world.log = some a ∧
    Sat anything (Guarded Tidies) (fun out _ => a ≠ .sweep → ∃ e, out = .error e) p c.world

theorem Tidies.requested (he : Tidies v e) : Tirke.requested (v.after e).log = Tirke.requested v.log := by
  cases he <;> rfl

theorem Tidies.running (he : Tidies v e) : Tirke.running (v.after e).log = Tirke.running v.log := by
  cases he <;> rfl

theorem Frozen.step (h : Frozen r c) (hs : Aside c c') : Frozen r c' ∧ requested c'.world.log = requested c.world.log := by
  obtain ⟨hstep, haside⟩ := hs
  have hreach : Reach (Step False) c' := h.reach.trans (.single hstep)
  cases hstep with
  | op w o k ch =>
    obtain ⟨a, ha, hsat⟩ := h.going _ rfl
    obtain ⟨-, hact⟩ := guarded_act h.reach.fit hsat.1 ch
    rcases hact with he | ⟨e, htidy, he⟩
    · have hlog : (w.act o ch).2.log = w.log := congrArg View.log he
      refine ⟨⟨hreach, he ▸ h.half, he ▸ h.later, fun p hp => ?_⟩, congrArg Tirke.requested hlog⟩
      cases hp
      exact ⟨a, (congrArg Tirke.running hlog).trans ha, hsat.2 ch trivial⟩
    · have hlog : (w.act o ch).2.log = (w.view.after e).log := congrArg View.log he
      refine ⟨⟨hreach, he ▸ h.half.step htidy, he ▸ h.half.later h.later htidy, fun p hp => ?_⟩,
        (congrArg Tirke.requested hlog).trans htidy.requested⟩
      cases hp
      exact ⟨a, (congrArg Tirke.running hlog).trans (htidy.running.trans ha), hsat.2 ch trivial⟩
  | start w a ha =>
    have hne : a ≠ .processOnce ∧ a ≠ .step := by
      have hn := haside nofun
      refine ⟨fun he => hn (.inl ?_), fun he => hn (.inr ?_)⟩ <;> exact congrArg some he
    have hhalf : HalfPublished (w.note (.started a)).view r := h.half.congr fun _ _ => rfl
    refine ⟨⟨hreach, hhalf, h.later.congr fun _ _ => rfl, fun p hp => ?_⟩, rfl⟩
    cases hp
    exact ⟨a, rfl, (hhalf.does_program hne _ rfl h.reach.fit).mono fun _ _ hq => hq.2⟩
  | returned w => exact ⟨⟨hreach, h.half.congr fun _ _ => rfl, h.later.congr fun _ _ => rfl, nofun⟩, rfl⟩
  | raised w x => exact ⟨⟨hreach, h.half.congr fun _ _ => rfl, h.later.congr fun _ _ => rfl, nofun⟩, rfl⟩
  | killed w p => exact ⟨⟨hreach, h.half.congr fun _ _ => rfl, h.later.congr fun _ _ => rfl, nofun⟩, rfl⟩
  | power w p => exact ⟨⟨hreach, h.later.congr fun _ _ => rfl, h.later.congr fun _ _ => rfl, nofun⟩, rfl⟩
  | waited w t busy => exact ⟨⟨hreach, h.half.congr fun _ _ => rfl, h.later.congr fun _ _ => rfl, nofun⟩, rfl⟩
  | damaged w n x hrot => exact hrot.elim

theorem Frozen.run (h : Frozen r c) (hs : Relation.ReflTransGen Aside c c') :
    Frozen r c' ∧ requested c'.world.log = requested c.world.log := by
  induction hs with
  | refl => exact ⟨h, rfl⟩
  | tail _ hstep ih =>
    obtain ⟨hf, hasked⟩ := ih.1.step hstep
    exact ⟨hf, hasked.trans ih.2⟩

theorem Frozen.start (h : Reach (Step False) c) (hidle : c.idle) (hh : HalfPublished c.world.view r)
    (hl : HalfPublished c.world.view.afterPower r) : Frozen r c :=
  ⟨h, hh, hl, fun p hp => by rw [hidle] at hp; cases hp⟩

/-- A sweep after the deadline that nothing disturbs. -/
theorem Frozen.sweep (h : Frozen r c) (hd : r.meeting.temporaryExpiresAt = some d) :
    Sat (undisturbed d) (fun _ _ => True) (fun out _ => out = .error .notReady) sweepEntry (c.begin .sweep).world := by
  have hhalf : HalfPublished (c.begin .sweep).world.view r := h.half.congr fun _ _ => rfl
  exact ((hhalf.does_sweepEntry (d := d) _ rfl h.reach.fit).weaken (fun _ _ _ h => h) fun _ _ _ => trivial).mono
    fun _ _ hq => hq.2 undisturbed_undisturbed hd

/-- **A half-published meeting stays half published until the coordinator comes.** Whatever else happens to it, after any
failures, crashes and power failures: its record stays, there is no manifest, the GPU is not asked anything, a request
never returns, and a sweep after the deadline that nothing disturbs raises `NotReady`. -/
theorem half_published_is_frozen (h : Reach (Step False) c) (hidle : c.idle) (hh : HalfPublished c.world.view r)
    (hl : HalfPublished c.world.view.afterPower r) (hs : Relation.ReflTransGen Aside c c') :
    HalfPublished c'.world.view r ∧ requested c'.world.log = requested c.world.log ∧
    (c'.prog = some (.ret ()) → running c'.world.log = some .sweep) ∧
    ∀ d, r.meeting.temporaryExpiresAt = some d → Sat (undisturbed d) (fun _ _ => True)
      (fun out _ => out = .error .notReady) sweepEntry (c'.begin .sweep).world := by
  obtain ⟨hf, hasked⟩ := (Frozen.start h hidle hh hl).run hs
  refine ⟨hf.half, hasked, fun hret => ?_, fun d hd => hf.sweep hd⟩
  obtain ⟨a, ha, hsat⟩ := hf.going _ hret
  by_contra hne
  obtain ⟨e, he⟩ := hsat fun hsw => hne (ha.trans (congrArg some hsw))
  cases he

end

section
attribute [local instance] Sample.lib Sample.home

namespace Sample

/-- The publication is interrupted between the record and the manifest. -/
def severed : Config := created.cues [.start .processOnce, .play linksManifest (answering (gpu first)), .kill]

theorem half_severed : HalfPublished severed.world.view (recordOf severed) ∧
    HalfPublished severed.world.view.afterPower (recordOf severed) :=
  ⟨⟨by decide +kernel, by decide +kernel, by decide +kernel, by decide +kernel⟩,
    ⟨by decide +kernel, by decide +kernel, by decide +kernel, by decide +kernel⟩⟩

/-- The coordinator is not at work. -/
def elsewhere (_ w' : World) : Bool := running w'.log != some .processOnce && running w'.log != some .step

/-- Someone tries again. -/
def severedCues : List Cue := [.start .retry, .play never (answering (gpu first)), .finish, .wait 86400001000 false]

end Sample

theorem half_published_is_frozen_sample : running (Sample.severed.cues Sample.severedCues).world.log = some .retry ∧
    HalfPublished (Sample.severed.cues Sample.severedCues).world.view (Sample.recordOf Sample.severed) := by
  have hs : Relation.ReflTransGen Aside Sample.severed (Sample.severed.cues Sample.severedCues) := by
    refine cues_keep (ψ := Sample.elsewhere) (fun c c' (hstep : Step False c c') h => ⟨hstep, fun _ hc => ?_⟩) rfl
      (by decide +kernel)
    simp only [Sample.elsewhere, Bool.and_eq_true, bne_iff_ne] at h
    exact hc.elim h.1 h.2
  obtain ⟨hh, hl⟩ := Sample.half_severed
  have hreach : Reach (Step False) Sample.severed := Sample.reach_created.cues (.inr rfl)
  exact ⟨by decide +kernel, (half_published_is_frozen hreach rfl hh hl hs).1⟩

end

end Tirke
