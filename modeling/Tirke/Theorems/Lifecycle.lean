import Tirke.Runs.Written
import Tirke.Theorems.Publication
/-!
# The public lifecycle

What `read_meeting` shows between any two file operations follows the transition table of `API_CONTRACT.md:11`. The
record and the view differ while a publication is under way: the record is `review_required`, and readers are shown
`processing` until there is a manifest. The one exception is a power failure: readers do not wait for a rename to be
durable, so they may find the record again that was last made durable.
-/

set_option linter.unusedSectionVars false

namespace Tirke

open CrashProg CrashDisk

section
variable [Lib] [Home] {v v' : View} {r r' : MeetingRecord} {m m' : Meeting} {e : Event} {c c' : Config} {rot : Prop}

/-! ## The table -/

/-- The transitions that keep the revision. -/
def transitions : List (MeetingStatus × MeetingStatus) :=
  [(.queued, .processing), (.queued, .failed), (.processing, .reviewRequired), (.processing, .failed),
    (.reviewRequired, .approved)]

inductive Follows (m m' : Meeting) : Prop where
  | stays (hs : m'.status = m.status) (ha : m'.attempt = m.attempt) (hr : m'.revision = m.revision)
  | advances (hs : (m.status, m'.status) ∈ transitions) (ha : m'.attempt = m.attempt) (hr : m'.revision = m.revision)
  | reviewed (hs : m.status.published = true) (hs' : m'.status = .reviewRequired) (ha : m'.attempt = m.attempt)
      (hr : m'.revision = m.revision + 1)
  | retried (hs : m.status = .failed) (hs' : m'.status = .queued) (ha : m'.attempt = m.attempt + 1) (hr : m'.revision = 0)

/-- What never changes. -/
structure SameMeeting (m m' : Meeting) : Prop where
  id : m'.id = m.id
  createdAt : m'.createdAt = m.createdAt
  metadata : m'.toMeetingMetadata = m.toMeetingMetadata
  source : m'.source = m.source
  temporaryExpiresAt : m'.temporaryExpiresAt = m.temporaryExpiresAt

/-- What is so of every view. -/
structure Presentable (m : Meeting) : Prop where
  attempt : 1 ≤ m.attempt ∧ m.attempt ≤ 3
  failure : m.failure ≠ none ↔ m.status = .failed
  stage : ∀ s, m.stage = some s → m.status = if s = .exporting then .approved else .processing

/-- What readers are shown of a record, with or without committed results. -/
def Meeting.presented (m : Meeting) (committed : Bool) : Meeting :=
  if m.status.published && !committed then { m with status := .processing, stage := some .savingResults } else m

section
variable {b : Bool}

@[simp] theorem presented_attempt : (m.presented b).attempt = m.attempt := by
  unfold Meeting.presented; split <;> rfl

@[simp] theorem presented_revision : (m.presented b).revision = m.revision := by
  unfold Meeting.presented; split <;> rfl

theorem presented_status : (m.presented b).status = if m.status.published && !b then .processing else m.status := by
  unfold Meeting.presented; split <;> rfl

end

/-! ## Every record -/

/-- What holds of every record. -/
structure Regular (r : MeetingRecord) : Prop where
  attempt : r.meeting.attempt ≤ 3
  failure : r.meeting.failure ≠ none ↔ r.meeting.status = .failed

theorem Move.regular (m : Move v r r') (h : Regular r) : Regular r' := by
  have hnone : r.meeting.status ≠ .failed → r.meeting.failure = none := fun hs => by
    by_contra hne
    exact hs (h.failure.1 hne)
  cases m with
  | begun job t hs => exact ⟨h.attempt, iff_of_false (not_not.2 (hnone hs)) nofun⟩
  | progressed job remote t hs => exact ⟨h.attempt, iff_of_false (not_not.2 (hnone hs)) nofun⟩
  | polledFailed | failed => exact ⟨h.attempt, iff_of_true nofun rfl⟩
  | published job b t hb hsv hst hj =>
    rw [published_eq hj]
    exact ⟨h.attempt, iff_of_false (not_not.2 rfl) nofun⟩
  | retried t hs ha => exact ⟨ha, iff_of_false (not_not.2 rfl) nofun⟩
  | reviewed q original i res t hq hs =>
    refine ⟨h.attempt, iff_of_false (not_not.2 (hnone fun hf => ?_)) nofun⟩
    rw [hf] at hs
    cases hs
  | approved q transcript insights t hq hs =>
    refine ⟨h.attempt, iff_of_false (not_not.2 (hnone fun hf => ?_)) nofun⟩
    rw [hf] at hs
    cases hs
  | _ => exact ⟨h.attempt, h.failure⟩

theorem Reach.conforming (h : Reach (Step rot) c) : Reach (Conforming rot fun _ _ => True) c := by
  obtain ⟨c₀, h₀, hs⟩ := h
  exact ⟨c₀, h₀, Relation.ReflTransGen.mono (fun _ _ hstep => ⟨hstep, fun _ _ _ _ _ _ => trivial⟩) _ _ hs⟩

theorem Reach.regular (h : Reach (Step rot) c) (hr : c.world.view.run readRecord = .ok r) : Regular r := by
  refine h.conforming.written ?_ ?_ (fun v r r' _ _ hm hr => hm.regular hr) r (h.inv.written hr)
  · intro metadata t kind hours audio extension
    exact ⟨(by decide : 1 ≤ 3), iff_of_false (not_not.2 rfl) nofun⟩
  · intro metadata t kind hours audio extension
    exact ⟨(by decide : 1 ≤ 3), iff_of_false (not_not.2 rfl) nofun⟩

/-! ## One view -/

/-- Whether a manifest stands in the folder. -/
def View.committed (v : View) : Bool := (v.files .manifest).isSome

theorem Inv.shown (h : Inv v) (hu : undamaged v.log) (hr : v.run readRecord = .ok r) :
    v.shown = .ok (r.meeting.presented v.committed) := by
  simp only [View.shown, run_bind, hr, ok_bind]
  rw [run_showStatus]
  unfold Meeting.presented View.committed
  rcases h.results hu hr with ⟨hman, hres⟩ | ⟨b, hman, -, -, hres⟩
  · rw [hres, hman]
    by_cases hp : r.meeting.status.published = true
    · simp [hp]
    · simp [hp]
  · obtain ⟨d, hd⟩ := Option.ne_none_iff_exists'.1 hman
    rw [hres, hd]
    by_cases hp : r.meeting.status.published = true
    · simp [hp]
    · simp [hp]

/-- A view that is shown is a readable record's. -/
theorem readable_of_shown (hm : v.shown = .ok m) : ∃ r, v.run readRecord = .ok r := by
  cases hr : v.run readRecord with
  | ok r => exact ⟨r, rfl⟩
  | error e =>
    simp only [View.shown, run_bind, hr, error_bind] at hm
    cases hm

theorem presented_regular {b : Bool} (hok : r.ok = true) (h : Regular r) : Presentable (r.meeting.presented b) := by
  obtain ⟨hvalid, -⟩ := ok_iff.1 hok
  obtain ⟨-, h1, -, -, hst⟩ := meeting_valid_iff.1 hvalid
  unfold Meeting.presented
  split
  · next hp =>
    have hp' : r.meeting.status.published = true := (Bool.and_eq_true_iff.1 hp).1
    have hnf : r.meeting.status ≠ .failed := fun hf => by rw [hf] at hp'; cases hp'
    have hnone : r.meeting.failure = none := by
      by_contra hne
      exact hnf (h.failure.1 hne)
    refine ⟨⟨h1, h.attempt⟩, iff_of_false (not_not.2 hnone) nofun, ?_⟩
    rintro s ⟨⟩
    rfl
  · refine ⟨⟨h1, h.attempt⟩, h.failure, fun s hs => ?_⟩
    simp only [Meeting.validStage, hs, Option.all_some, decide_eq_true_eq] at hst
    exact hst

theorem SameMeeting.symm (h : SameMeeting m m') : SameMeeting m' m :=
  ⟨h.id.symm, h.createdAt.symm, h.metadata.symm, h.source.symm, h.temporaryExpiresAt.symm⟩

theorem SameMeeting.trans {m'' : Meeting} (h : SameMeeting m m') (h' : SameMeeting m' m'') : SameMeeting m m'' :=
  ⟨h'.id.trans h.id, h'.createdAt.trans h.createdAt, h'.metadata.trans h.metadata, h'.source.trans h.source,
    h'.temporaryExpiresAt.trans h.temporaryExpiresAt⟩

theorem presented_same {b : Bool} : SameMeeting m (m.presented b) := by
  unfold Meeting.presented
  split <;> exact ⟨rfl, rfl, rfl, rfl, rfl⟩

theorem same_of_identity (h : r'.identity = r.identity) : SameMeeting r.meeting r'.meeting :=
  ⟨congrArg Identity.id h, congrArg Identity.createdAt h, congrArg Identity.metadata h, congrArg Identity.source h,
    congrArg Identity.temporaryExpiresAt h⟩

/-! ## Two views -/

theorem Follows.refl : Follows m m := .stays rfl rfl rfl

/-- What a move does to what is shown. -/
theorem Move.follows (hm : Move v r r') (h : Inv v) (hu : undamaged v.log) (hr : v.run readRecord = .ok r) :
    Follows (r.meeting.presented v.committed) (r'.meeting.presented v.committed) := by
  have hunready : v.Unpublished → v.committed = false := by
    intro hx
    rcases h.results hu hr with ⟨hman, -⟩ | ⟨b, -, -, -, hres⟩
    · simp [View.committed, hman]
    · exact absurd hres (hx _)
  have hready : ∀ x, v.run readResults = .ok x → v.committed = true := by
    intro x hx
    rcases h.results hu hr with ⟨-, hres⟩ | ⟨b, hman, -, -, -⟩
    · rw [hx] at hres
      cases hres
    · exact Option.isSome_iff_ne_none.2 hman
  -- the same status, attempt and revision
  have hsame : r'.meeting.status = r.meeting.status → r'.meeting.attempt = r.meeting.attempt →
      r'.meeting.revision = r.meeting.revision →
      Follows (r.meeting.presented v.committed) (r'.meeting.presented v.committed) := by
    intro hs ha hrev
    refine .stays ?_ (by simpa using ha) (by simpa using hrev)
    rw [presented_status, presented_status, hs]
  -- nothing is committed: the meeting is being processed now
  have hbusy : r.meeting.status ≠ .failed → v.committed = false → r'.meeting.status = .processing →
      r'.meeting.attempt = r.meeting.attempt → r'.meeting.revision = r.meeting.revision →
      Follows (r.meeting.presented v.committed) (r'.meeting.presented v.committed) := by
    intro hne hc hs ha hrev
    by_cases hq : r.meeting.status = .queued
    · refine .advances ?_ (by simpa using ha) (by simpa using hrev)
      rw [presented_status, presented_status, hs, hq]
      simp [MeetingStatus.published, transitions]
    · refine .stays ?_ (by simpa using ha) (by simpa using hrev)
      rw [presented_status, presented_status, hs, hc]
      cases hst : r.meeting.status <;> simp_all [MeetingStatus.published]
  -- nothing is committed: the meeting has failed now
  have hfails : r.meeting.status ≠ .failed → v.committed = false → r'.meeting.status = .failed →
      r'.meeting.attempt = r.meeting.attempt → r'.meeting.revision = r.meeting.revision →
      Follows (r.meeting.presented v.committed) (r'.meeting.presented v.committed) := by
    intro hne hc hs ha hrev
    refine .advances ?_ (by simpa using ha) (by simpa using hrev)
    rw [presented_status, presented_status, hs, hc]
    cases hst : r.meeting.status <;> simp_all [MeetingStatus.published, transitions]
  cases hm with
  | begun job t hs hj hid hman => exact hbusy hs (hunready (unpublished_of hman)) rfl rfl rfl
  | progressed job remote t hs hj hh hman => exact hbusy hs (hunready (unpublished_of hman)) rfl rfl rfl
  | polledFailed job remote code t hs hj hh hman => exact hfails hs (hunready (unpublished_of hman)) rfl rfl rfl
  | failed code t hs hc hx => exact hfails hs (hunready hx) rfl rfl rfl
  | published job b t hb hsv hst hj hid hman =>
    rw [published_eq hj]
    have hl : v.files .manifest = none :=
      (look_of_reach (p := (.folder, .manifest)) (readable_reach hr)).symm.trans hman
    have hc : v.committed = false := by simp [View.committed, hl]
    refine .stays ?_ (by simp [MeetingRecord.setJob]) (by simp [MeetingRecord.setJob])
    rw [presented_status, presented_status, hc, hst]
    rfl
  | retried t hs =>
    refine .retried ?_ ?_ (by simp [MeetingRecord.retried]) (by simp [MeetingRecord.retried])
    · rw [presented_status, hs]
      rfl
    · rw [presented_status]
      rfl
  | reviewed q original i res t hq hs hb ho =>
    refine .reviewed ?_ ?_ (by simp [MeetingRecord.reviewed, MeetingRecord.mapMeeting])
      (by simp [MeetingRecord.reviewed, MeetingRecord.mapMeeting])
    · rw [presented_status, hready _ ho]
      simpa using hs
    · rw [presented_status, hready _ ho]
      simp [MeetingRecord.reviewed, MeetingRecord.mapMeeting]
  | approved q transcript insights t hq hs hb hc =>
    obtain ⟨x, hx⟩ : ∃ x, v.run readResults = .ok x := by
      simp only [readCurrentLocked, Prog.bind_eq, run_bind, bind_eq_ok] at hc
      obtain ⟨-, -, x, hx, -⟩ := hc
      exact ⟨x, hx⟩
    refine .advances ?_ (by simp [MeetingRecord.approved, MeetingRecord.mapMeeting])
      (by simp [MeetingRecord.approved, MeetingRecord.mapMeeting])
    rw [presented_status, presented_status, hready _ hx, hs]
    simp [MeetingRecord.approved, MeetingRecord.mapMeeting, transitions]
  | _ => exact hsame rfl rfl rfl

/-- What a lawful change does to what is shown. -/
theorem Legal.follows (hl : Legal v e) (h : Inv v) (hu : Tirke.undamaged v.log) (hr : v.run readRecord = .ok r)
    (hr' : (v.after e).run readRecord = .ok r') :
    r'.identity = r.identity ∧ Follows (r.meeting.presented v.committed) (r'.meeting.presented (v.after e).committed) := by
  have hrec := files_of_readable hr
  have hrec' := files_of_readable hr'
  have hkeep : (v.after e).files .meeting = v.files .meeting → (v.after e).files .manifest = v.files .manifest →
      r'.identity = r.identity ∧ Follows (r.meeting.presented v.committed) (r'.meeting.presented (v.after e).committed) := by
    intro hmeet hman
    rw [hmeet, hrec] at hrec'
    cases hrec'
    refine ⟨rfl, ?_⟩
    rw [View.committed, View.committed, hman]
    exact .refl
  have hput : ∀ (n : Name) (x : Doc), e = .file (.put (.folder, n) x) → n ≠ .meeting → n ≠ .manifest →
      r'.identity = r.identity ∧ Follows (r.meeting.presented v.committed) (r'.meeting.presented (v.after e).committed) := by
    rintro n x rfl hn hn'
    exact hkeep (after_put_of_ne hn.symm) (after_put_of_ne hn'.symm)
  have hdrop : ∀ n : Name, e = .file (.removed (.folder, n)) → n ≠ .meeting → n ≠ .manifest →
      r'.identity = r.identity ∧ Follows (r.meeting.presented v.committed) (r'.meeting.presented (v.after e).committed) := by
    rintro n rfl hn hn'
    exact hkeep (after_drop_of_ne hn.symm) (after_drop_of_ne hn'.symm)
  cases hl with
  | moved r₀ r₁ hr₀ hok hm ha =>
    cases hr.symm.trans hr₀
    have hne : Name.manifest ≠ .meeting := by simp
    rw [after_put_self] at hrec'
    cases hrec'
    have hc : (v.after (.file (.put (.folder, .meeting) (.record r')))).committed = v.committed := by
      unfold View.committed
      rw [after_put_of_ne hne]
    rw [hc]
    exact ⟨hm.identity, hm.follows h hu hr⟩
  | manifest r₀ b hp hs =>
    cases hr.symm.trans hp.readable
    have hne : Name.meeting ≠ .manifest := by simp
    have hnone : v.files .manifest = none :=
      (look_of_reach (p := (.folder, .manifest)) (readable_reach hr)).symm.trans hp.unpublished
    rw [after_put_of_ne hne, hrec] at hrec'
    cases hrec'
    refine ⟨rfl, .advances ?_ (by simp) (by simp)⟩
    rw [presented_status, presented_status, View.committed, View.committed, after_put_self, hnone, hs]
    simp [MeetingStatus.published, transitions]
  | dropped r₀ n x hr₀ hs hx hn hname =>
    by_cases hman : n = .manifest
    · subst hman
      cases hr.symm.trans hr₀
      have hne : Name.meeting ≠ .manifest := by simp
      rw [after_drop_of_ne hne, hrec] at hrec'
      cases hrec'
      refine ⟨rfl, .stays ?_ (by simp) (by simp)⟩
      rw [presented_status, presented_status, hs]
      rfl
    · exact hdrop n rfl (by rintro rfl; simp [originals] at hname) hman
  | born metadata t kind hours audio extension hm hv => cases hrec.symm.trans hv.1
  | uploaded x hv => cases hrec.symm.trans hv.1
  | withdrawn => cases hrec'.symm.trans after_drop_self
  | artifact r₀ b n x hp hs hx =>
    rcases artifact_name hx with rfl | rfl | rfl
    · exact hput .transcript x rfl (by simp) (by simp)
    · exact hput .insights x rfl (by simp) (by simp)
    · exact hput .text x rfl (by simp) (by simp)
  | archived r₀ n x =>
    have hne : ∀ m : Name, ((.folder, m) : Path) ≠ (.attempt r₀.meeting.attempt, n) := fun _ => (by simp)
    exact hkeep (vol_put_of_ne (v := v) (x := x) (hne _)) (vol_put_of_ne (v := v) (x := x) (hne _))
  | snapshot r₀ s => exact hput (.snapshot _) _ rfl (by simp) (by simp)
  | review x => exact hput .review x rfl (by simp) (by simp)
  | pdf r₀ t i => exact hput (.pdf _) _ rfl (by simp) (by simp)
  | pdfMarker r₀ t i => exact hput (.pdfMarker _) _ rfl (by simp) (by simp)
  | pdfDropped r₀ n hr₀ hn =>
    rcases hn with rfl | rfl
    · exact hdrop (.pdf _) rfl (by simp) (by simp)
    · exact hdrop (.pdfMarker _) rfl (by simp) (by simp)
  | uploadDropped r₀ => exact hdrop .upload rfl (by simp) (by simp)
  | wiped left hw =>
    obtain ⟨-, hnone⟩ := wiped_inPlay hw (inPlay_of_readable hr')
    cases hrec.symm.trans hnone
  | _ => exact hkeep rfl rfl

/-- A record of the marker's history describes the same meeting. -/
theorem Inv.identity {k : Commit} (h : Inv v) (hr : v.run readRecord = .ok r) (hk : k ∈ v.hist) :
    k.record.identity = r.identity := by
  rcases h.newest (inPlay_of_readable hr) (files_of_readable hr) hk with heq | hev
  · rw [heq]
  · exact hev.identity.symm

/-- From a record that shows on, the meeting stays the same one. -/
theorem Run.identity (h : Reach (Step rot) c) (hr : c.world.view.run readRecord = .ok r) (hs : Run rot c c')
    (hr' : c'.world.view.run readRecord = .ok r') : r'.identity = r.identity := by
  have hw : Tirke.written c.world.log ≠ [] := List.ne_nil_of_mem (h.inv.written hr)
  have hnow : Holds (Recorded fun r₁ => r₁.identity = r.identity) c.world.view := by
    refine ⟨fun _ r₁ hr₁ => ?_, fun r₁ hr₁ => ?_⟩
    · rw [files_of_readable hr] at hr₁
      cases hr₁
      rfl
    · obtain ⟨k, hk, rfl⟩ := h.inv.kept_hist hr₁
      exact h.inv.identity hr hk
  exact (Run.recorded (fun _ _ _ _ hm hq => hm.identity.trans hq) h hw hnow hs).now (inPlay_of_readable hr') r'
    (files_of_readable hr')

/-- **The table is followed from any view to the next, unless the power fails; the meeting stays the same one.** -/
theorem lifecycle_is_public (h : Reach (Step False) c) (hm : c.world.view.shown = .ok m) : Presentable m ∧
    (∀ c' m', Step False c c' → c'.world.view.shown = .ok m' → SameMeeting m m' ∧
      (Follows m m' ∨ c'.world.log = .power :: c.world.log ∧ m'.attempt ≤ m.attempt ∧
        ∃ k ∈ c.world.view.hist, ∃ b, m' = k.record.meeting.presented b)) ∧
    ∀ c' m', Run False c c' → c'.world.view.shown = .ok m' → SameMeeting m m' := by
  have hi : Inv c.world.view := h.inv
  have hg : Good False c := reach_good (fun _ _ h => h) h
  obtain ⟨r, hr⟩ := readable_of_shown hm
  cases hm.symm.trans (hi.shown h.undamaged hr)
  have hsame : ∀ {r' : MeetingRecord} {b : Bool}, r'.identity = r.identity →
      SameMeeting (r.meeting.presented c.world.view.committed) (r'.meeting.presented b) := fun hid =>
    presented_same.symm.trans ((same_of_identity hid).trans presented_same)
  refine ⟨presented_regular (readable_ok hr) (h.regular hr), fun c' m' hs hm' => ?_, fun c' m' hs hm' => ?_⟩
  swap
  · obtain ⟨r', hr'⟩ := readable_of_shown hm'
    cases hm'.symm.trans ((h.trans hs).inv.shown (h.trans hs).undamaged hr')
    exact hsame (Run.identity h hr hs hr')
  have h' : Reach (Step False) c' := h.trans (.single hs)
  obtain ⟨r', hr'⟩ := readable_of_shown hm'
  cases hm'.symm.trans (h'.inv.shown h'.undamaged hr')
  rcases hs.happens hg with he | hh
  · rw [he] at hr' ⊢
    cases hr.symm.trans hr'
    exact ⟨⟨rfl, rfl, rfl, rfl, rfl⟩, .inl .refl⟩
  generalize hv : c'.world.view = v' at hh hr' ⊢
  have hlog : c'.world.log = v'.log := congrArg View.log hv
  cases hh with
  | lawful e hl =>
    obtain ⟨hid, hf⟩ := hl.follows hi h.undamaged hr hr'
    exact ⟨hsame hid, .inl hf⟩
  | bounds e he =>
    cases hr.symm.trans ((run_note readOnly_readRecord).symm.trans hr')
    exact ⟨hsame rfl, .inl .refl⟩
  | power =>
    obtain ⟨k, hk, rfl⟩ := hi.kept_hist (files_of_readable hr')
    have hatt : k.record.meeting.attempt ≤ r.meeting.attempt := by
      rcases hi.newest (inPlay_of_readable hr) (files_of_readable hr) hk with heq | hev
      · exact Nat.le_of_eq (congrArg (fun r => r.meeting.attempt) heq)
      · exact hev.attempt
    exact ⟨hsame (hi.identity hr hk), .inr ⟨hlog, by simpa using hatt, k, hk, _, rfl⟩⟩
  | damaged n d hrot => exact hrot.elim

end

section
attribute [local instance] Sample.lib Sample.home

namespace Sample

/-- The operation makes the folder durable. -/
def syncsFolder : World → Op → Bool := fun _ o => match o with
  | .file (.syncDir .folder) => true
  | _ => false

/-- The record says `processing`, and that is not durable yet. -/
def begun : Config := created.cues [.start .processOnce, .play syncsFolder (answering (gpu first))]

theorem reach_begun : Reach (Step False) begun := reach_created.cues (.inr rfl)

end Sample

/-- A power failure takes the view from `processing` back to `queued`. -/
theorem lifecycle_goes_back : ¬ ∀ (c c' : Config) (m m' : Meeting), Reach (Step False) c → Step False c c' →
    c.world.view.shown = .ok m → c'.world.view.shown = .ok m' → Follows m m' := by
  intro h
  have hs : Step False Sample.begun ⟨Sample.begun.world.restarted, none⟩ := .power _ _
  have hm : Sample.begun.world.view.shown = .ok ((Sample.recordOf Sample.begun).meeting) := by decide +kernel
  have hm' : Sample.begun.world.restarted.view.shown = .ok ((Sample.recordOf Sample.created).meeting) := by decide +kernel
  have hst : (Sample.recordOf Sample.begun).meeting.status = .processing := by decide +kernel
  have hst' : (Sample.recordOf Sample.created).meeting.status = .queued := by decide +kernel
  cases h _ _ _ _ Sample.reach_begun hs hm hm' with
  | stays hs => rw [hst, hst'] at hs; cases hs
  | advances hs => rw [hst, hst'] at hs; simp [transitions] at hs
  | reviewed hs => rw [hst] at hs; cases hs
  | retried hs => rw [hst] at hs; cases hs

theorem lifecycle_is_public_sample : Presentable (Sample.recordOf Sample.begun).meeting :=
  (lifecycle_is_public Sample.reach_begun (by decide +kernel)).1

end

end Tirke
