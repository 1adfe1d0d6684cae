import Tirke.Lib.Interference
import Tirke.Runs.System
import Tirke.Services.DemoFixture
/-!
# Seeding next to the scheduler

Between two of its calls of the store the scheduler may visit the meeting. In the setting `sheltered` it keeps away while
the meeting is visible without results and while its record is being rewritten, and the calls that undo a failed seeding
succeed.

| here | there |
| --- | --- |
| `Meanwhile.ticked` | `CoordinatorRuntime.tick` finding the meeting's folder: the janitor or the coordinator, stopped anywhere |

A meeting is `Absent`, or `Standing` on disk; when its results are readable it is `Serving` them, and the scheduler
keeps it so.
-/

set_option linter.unusedSectionVars false

namespace Tirke

open CrashProg CrashDisk

variable [Lib] [Home] {A : Env host} {v v' : View} {w w' : World} {r r' : MeetingRecord} {b : ResultBundleV1} {e : Event}

/-! ## The setting -/

inductive Meanwhile (may : World → Prop) (w : World) : World → Prop where
  | waited (t : Time) (busy : Bool) : Meanwhile may w (w.waited t busy)
  | ticked (a : Action) (cs : List Choice) (ha : a = .step ∨ a = .sweep) (hs : w.view.img.slot .folder ≠ .absent)
      (hm : may w) : Meanwhile may w (host.exec cs a.program (w.note (.started a))).2

/-- The record was read, and is written next. -/
def StoreOp.rewrites : StoreOp → Bool
  | .now | .updateMeeting _ => true
  | _ => false

/-- The scheduler may visit the meeting: it is not there or its results are, and nobody is about to overwrite its record. -/
def Unguarded (o : Option StoreOp) (w : World) : Prop :=
  ((∀ r, w.view.run readRecord ≠ .ok r) ∨ ∃ x, w.view.run readResults = .ok x) ∧ o.any StoreOp.rewrites = false

/-- The calls that undo work: the marker's removal in `create_meeting`, and `delete_meeting`. -/
def StoreOp.spared : StoreOp → Env host
  | .createMeeting _ _ => fun _ o c => o = .file (.unlink (Path.entry (.folder, .meeting)) true) → c.fault = none
  | .deleteMeeting _ => fun _ _ c => c.fault = none
  | _ => anything

def sheltered : Setting Store World :=
  ⟨fun o w out w' => Ran o.spared o.program w out w', fun o => Meanwhile (Unguarded o)⟩

/-! ## What the meeting is like -/

structure Standing (v : View) (r : MeetingRecord) : Prop where
  readable : v.run readRecord = .ok r
  rooted : v.Rooted .folder
  files : ∀ n, v.img.vol (.meetings, n) = none
  plain : ∀ d t, v.img.slot d = .moved t → d = .folder
  unsent : sends v.log = []

/-- The results are this bundle's, and the record's job is the one they came from. -/
structure Serving (v : View) (r : MeetingRecord) (b : ResultBundleV1) : Prop extends Standing v r where
  status : r.meeting.status = .reviewRequired
  stage : r.meeting.stage = none
  valid : b.valid = true
  meeting : b.transcript.meetingId = Home.meetingId
  artifacts : ∀ n x, (n, x) ∈ b.artifacts → v.look (.folder, n) = some x
  manifest : v.look (.folder, .manifest) = some (.manifest (b.manifest r.meeting.attempt))
  bound : r.boundTo (b.manifest r.meeting.attempt)

/-- No meeting is visible. -/
structure Absent (v : View) : Prop where
  gone : v.img.vol (.folder, .meeting) = none ∨ v.img.slot .folder ≠ .live
  grounded : Grounded v
  unsent : sends v.log = []

theorem Standing.grounded (h : Standing v r) : Grounded v :=
  ⟨fun _ => reach_parent (readable_reach h.readable) (by simp [Dir.chain]), h.files, h.plain⟩

theorem Quiet.sends {l₁ l₂ : List Event} (h : Quiet l₁ l₂) : Tirke.sends l₂ = Tirke.sends l₁ :=
  h.fold (f := Tirke.sends) fun _ l he => quiet_cases (P := fun e => Tirke.sends (e :: l) = Tirke.sends l)
    (fun _ => rfl) (fun _ _ => rfl) (fun _ _ => rfl) (fun _ _ _ => rfl) he

/-- Nothing a reader of the results looks at has changed. -/
theorem Standing.same (h : Standing v r) (hl : ∀ q, resultFiles q → v'.look q = v.look q) (hr : v'.Rooted .folder)
    (hf : ∀ n, v'.img.vol (.meetings, n) = v.img.vol (.meetings, n))
    (hp : ∀ d t, v'.img.slot d = .moved t → v.img.slot d = .moved t) (hs : sends v'.log = sends v.log) :
    Standing v' r where
  readable := (run_congr readOnly_readRecord fun q hq => hl q (.inl hq)).trans h.readable
  rooted := hr
  files n := (hf n).trans (h.files n)
  plain d t ht := h.plain d t (hp d t ht)
  unsent := hs.trans h.unsent

/-- Files that are no result of the meeting. -/
def Unread (q : Path) : Prop := ¬ resultFiles q ∧ q.1 ≠ .meetings

theorem artifact_resultFile {n : Name} {x : Doc} (h : (n, x) ∈ b.artifacts) : resultFiles (.folder, n) := by
  rcases named_artifacts ⟨_, h, rfl⟩ with h | h | h
  · exact .inr (.inr (.inl h))
  · exact .inr (.inr (.inr (.inl h)))
  · exact .inr (.inr (.inr (.inr h)))

theorem Serving.same (h : Serving v r b) (hl : ∀ q, resultFiles q → v'.look q = v.look q) (hr : v'.Rooted .folder)
    (hf : ∀ n, v'.img.vol (.meetings, n) = v.img.vol (.meetings, n))
    (hp : ∀ d t, v'.img.slot d = .moved t → v.img.slot d = .moved t) (hs : sends v'.log = sends v.log) :
    Serving v' r b :=
  { h.toStanding.same hl hr hf hp hs with
    status := h.status
    stage := h.stage
    valid := h.valid
    meeting := h.meeting
    artifacts := fun n x hx => (hl _ (artifact_resultFile hx)).trans (h.artifacts n x hx)
    manifest := (hl _ (.inr (.inl rfl))).trans h.manifest
    bound := h.bound }

theorem Serving.frame (h : Serving v r b) (hf : Frame Unread v v') : Serving v' r b :=
  h.same (fun _ hq => hf.look fun hu => hu.1 hq) (hf.rooted _ h.rooted) (fun _ => hf.vol _ fun hu => hu.2 rfl)
    (fun _ _ ht => hf.slot ▸ ht) hf.log.sends

theorem Serving.committed (h : Serving v r b) : v.Committed (b.manifest r.meeting.attempt) b.transcript b.insights :=
  committed_of h.readable h.valid h.meeting h.artifacts h.manifest

theorem Serving.published (h : Serving v r b) : r.meeting.status.published = true := by rw [h.status]; rfl

/-- The record is rewritten, and its job stays the one of the results. -/
theorem Serving.rewrite (h : Serving v r b) (hok : r'.ok = true) (ho : r'.ownerId = r.ownerId)
    (hi : r'.meeting.id = r.meeting.id) (ha : r'.meeting.attempt = r.meeting.attempt)
    (hs : r'.meeting.status = .reviewRequired) (ht : r'.meeting.stage = none)
    (hb : r'.boundTo (b.manifest r.meeting.attempt)) : Serving (v.mark r') r' b where
  readable := readable_rewritten h.readable hok ho hi
  rooted := ⟨h.rooted.now, h.rooted.later⟩
  files n := (vol_put_of_ne (p := marker) (by simp)).trans (h.files n)
  plain := h.plain
  unsent := h.unsent
  status := hs
  stage := ht
  valid := h.valid
  meeting := h.meeting
  artifacts n x hx := (look_mark fun he => by
    rcases named_artifacts ⟨_, hx, rfl⟩ with hn | hn | hn <;> rw [he] at hn <;> cases hn).trans (h.artifacts n x hx)
  manifest := by rw [ha]; exact (look_mark (by decide)).trans h.manifest
  bound := by rw [ha]; exact hb

theorem Absent.unreadable (h : Absent v) : ∀ r, v.run readRecord ≠ .ok r := by
  intro r hr
  have hl := readable_look hr
  rcases h.gone with hg | hg
  · rw [vol_of_look hl] at hg
    cases hg
  · exact hg (live_of_reach (reach_of_look hl) (by simp [Dir.chain]))

/-! ## The scheduler at work -/

/-- The janitor or the coordinator is at work, and nobody has just moved the folder. -/
structure Ticking (v : View) : Prop where
  acting : running v.log = some .step ∨ running v.log = some .sweep
  still : ∀ t log, v.log ≠ .file (.renamed .folder t) :: log

namespace Ticking
variable [Weather]

theorem acts (h : Ticking v) : running v.log ≠ none := by
  rcases h.acting with h | h <;> rw [h] <;> nofun

theorem isNot (h : Ticking v) {a : Action} (ha : running v.log = some a) (hs : a ≠ .step) (hw : a ≠ .sweep) : False := by
  rcases h.acting with h | h
  · exact hs (Option.some.inj (ha.symm.trans h))
  · exact hw (Option.some.inj (ha.symm.trans h))

theorem after (h : Ticking v) (hl : Legal v e) : Ticking (v.after e) := by
  refine ⟨by rw [after_log, hl.running]; exact h.acting, fun t log he => ?_⟩
  rw [after_log] at he
  cases he
  cases hl with
  | renamed r t hr hc hj hu hq =>
    obtain ⟨s, hs⟩ := hq
    exact h.isNot hs nofun nofun

end Ticking

section
variable [Weather]

/-- The scheduler rewrites the record of a meeting whose results are there. -/
theorem Serving.move (h : Serving v r b) (ht : Ticking v) (hok : r'.ok = true) (m : Move v r r') :
    Serving (v.mark r') r' b := by
  have hman : v.run readManifest = .ok (b.manifest r.meeting.attempt) := h.committed.manifest
  have hready : v.run readManifest ≠ .error .notReady := by rw [hman]; nofun
  obtain ⟨job, hj, hid, hh⟩ := h.bound
  have hnone : v.look (.folder, .manifest) ≠ none := by rw [h.manifest]; nofun
  have hatt : r'.meeting.attempt = r.meeting.attempt := by
    rcases m.attempt with ha | ⟨hs, -⟩
    · exact ha
    · rw [h.status] at hs
      cases hs
  have hbound : r'.boundTo (b.manifest r.meeting.attempt) := by
    rcases m.jobs (readable_ok h.readable) with hf | ⟨-, ha⟩
    · obtain ⟨job', hj', hm⟩ := job_moved hf hatt hj
      refine ⟨job', hj', hm.jobId hid, ?_⟩
      cases hm with
      | published b' _ _ hn => exact absurd hn hnone
      | expired _ => unfold JobRecord.expired; split <;> exact hh
      | _ => exact hh
    · omega
  have hstatus : r'.meeting.status = .reviewRequired ∧ r'.meeting.stage = none := by
    have hs := h.status
    cases m with
    | begun job t _ _ _ hm | progressed job remote t _ _ _ hm | polledFailed job remote code t _ _ _ hm =>
      exact absurd hm hready
    | flagged job t hp => rw [hs] at hp; cases hp
    | failed code t _ _ hx => exact absurd h.committed.results (hx _)
    | published job b' t _ _ hp => rw [hs] at hp; cases hp
    | retried t hp => rw [hs] at hp; cases hp
    | reviewed q original i res t hq | approved q transcript insights t hq => exact (ht.isNot hq nofun nofun).elim
    | exporting t hp => rw [hs] at hp; cases hp
    | exported t hp => rw [h.stage] at hp; cases hp
    | _ => exact ⟨hs, h.stage⟩
  exact h.rewrite hok (congrArg Identity.ownerId m.identity) (congrArg Identity.id m.identity) hatt hstatus.1 hstatus.2
    hbound

/-- **Whatever the scheduler does, the results stay**, and so does where the meeting came from. -/
theorem Serving.legal (h : Serving v r b) (ht : Ticking v) (hl : Legal v e) :
    ∃ r', Serving (v.after e) r' b ∧ r'.meeting.source = r.meeting.source := by
  have hkeep : ∀ {v'}, Frame Unread v v' → ∃ r', Serving v' r' b ∧ r'.meeting.source = r.meeting.source :=
    fun hf => ⟨r, h.frame hf, rfl⟩
  have hunread : ∀ n, n ∉ [Name.meeting, .manifest, .transcript, .insights, .text] → Unread (.folder, n) := by
    intro n hn
    simp only [List.mem_cons, List.not_mem_nil, or_false, not_or] at hn
    obtain ⟨h₁, h₂, h₃, h₄, h₅⟩ := hn
    refine ⟨?_, (by simp)⟩
    rintro (h | h | h | h | h)
    · exact h₁ (congrArg Prod.snd h)
    · exact h₂ (congrArg Prod.snd h)
    · exact h₃ (congrArg Prod.snd h)
    · exact h₄ (congrArg Prod.snd h)
    · exact h₅ (congrArg Prod.snd h)
  have hone : ∀ {r₁}, v.run readRecord = .ok r₁ → r₁.meeting.status = .reviewRequired := by
    intro r₁ hr₁
    cases h.readable.symm.trans hr₁
    exact h.status
  have hnote : ∀ e, sends (e :: v.log) = sends v.log → ∃ r', Serving (v.note e) r' b ∧ r'.meeting.source = r.meeting.source :=
    fun e he => ⟨r, h.same (fun _ _ => rfl) ⟨h.rooted.now, h.rooted.later⟩ (fun _ => rfl) (fun _ _ ht => ht) he, rfl⟩
  have hlive := reach_iff.1 h.rooted.now
  cases hl with
  | synced d hr => exact hkeep (.sync d)
  | made d hd =>
    have hreach : (v.change (.made d)).reach .folder = true := reach_iff.2 fun c hc => by
      simp only [View.change_img, Images.apply, Function.update_apply]
      split
      · rfl
      · exact hlive c hc
    refine ⟨r, h.same (fun q hq => ?_) ⟨hreach, h.rooted.later⟩ (fun _ => rfl) (fun c t hc => ?_) rfl, rfl⟩
    · obtain ⟨c, n⟩ := q
      obtain rfl : c = .folder := resultFiles_folder hq
      rw [after_file, look_of_reach (p := (.folder, n)) hreach, look_of_reach (p := (.folder, n)) h.rooted.now]
      rfl
    · rw [after_file] at hc
      simp only [View.change_img, Images.apply, Function.update_apply] at hc
      split at hc
      · cases hc
      · exact hc
  | uploaded x hv hr hd => exact absurd hr ht.acts
  | born metadata t kind hours audio extension hm hv hr => exact absurd hr ht.acts
  | withdrawn hr => exact absurd hr ht.acts
  | moved r₁ r' hr hok hm ha =>
    cases h.readable.symm.trans hr
    exact ⟨r', h.move ht hok hm, congrArg Identity.source hm.identity⟩
  | artifact r₁ b₁ n x hp | manifest r₁ b₁ hp =>
    have hn := hp.unpublished
    rw [h.manifest] at hn
    cases hn
  | archived r₁ n x hr hs | dropped r₁ n x hr hs => rw [hone hr] at hs; cases hs
  | pdf r₁ t i hr hs | pdfMarker r₁ t i hr hs => rw [hone hr] at hs; cases hs
  | responded r₁ pdf hr hs => rw [hone hr] at hs; cases hs
  | snapshot r₁ s hr hs => exact hkeep (.put (hunread _ (by simp)))
  | review x => exact hkeep (.put (hunread _ (by simp)))
  | pdfDropped r₁ n hr hn =>
    rcases hn with rfl | rfl <;> exact hkeep (.drop (hunread _ (by simp)))
  | uploadDropped r₁ hr hc => exact hkeep (.drop (hunread _ (by simp)))
  | renamed r₁ t hr hc hj hu hq =>
    obtain ⟨s, hs⟩ := hq
    exact (ht.isNot hs (by simp) (by simp)).elim
  | restored t log hr => exact absurd hr (ht.still t log)
  | wiped left hw hr =>
    rcases hw with hw | hw
    · exact absurd (hlive .folder (by simp [Dir.chain])) hw
    · rw [vol_of_look (readable_look h.readable)] at hw
      cases hw
  | submit key context audio suffix a r₁ job sha hs =>
    cases h.readable.symm.trans hs.readable
    obtain ⟨job', hj, hid, -⟩ := h.bound
    cases hj.symm.trans hs.isJob
    rw [hs.unbound] at hid
    cases hid
  | getJob | getJobByKey | getResult | ack => exact hnote _ rfl

/-- **The scheduler does not bring a meeting back.** -/
theorem Absent.legal (h : Absent v) (ht : Ticking v) (hl : Legal v e) : Absent (v.after e) := by
  have hnone : ∀ {r}, v.run readRecord = .ok r → False := fun hr => h.unreadable _ hr
  have hnote : ∀ e, sends (e :: v.log) = sends v.log → Absent (v.note e) := fun e he =>
    ⟨h.gone, ⟨h.grounded.parents, h.grounded.files, h.grounded.plain⟩, he.trans h.unsent⟩
  cases hl with
  | synced d hr => exact ⟨h.gone, ⟨h.grounded.parents, h.grounded.files, h.grounded.plain⟩, h.unsent⟩
  | made d hd =>
    have hslot : ∀ c, c ≠ d → (v.change (.made d)).img.slot c = v.img.slot c := fun c hc => Function.update_of_ne hc _ _
    refine ⟨h.gone.imp_right fun hg => ?_, ⟨fun hm => reach_iff.2 fun c hc => ?_, h.grounded.files, fun c t hc => ?_⟩,
      h.unsent⟩
    · rcases hd with hd | hd
      · rw [after_file, hslot _ hd.symm]; exact hg
      · exact absurd hd.2 ht.acts
    · by_cases he : c = d
      · rw [he]; exact Function.update_self ..
      · rw [after_file, hslot _ he]; exact reach_iff.1 (h.grounded.parents hm) c hc
    · by_cases he : c = d
      · rw [he] at hc
        simp [Images.apply] at hc
      · rw [after_file, hslot _ he] at hc
        exact h.grounded.plain c t hc
  | uploaded x hv hr hd => exact absurd hr ht.acts
  | born metadata t kind hours audio extension hm hv hr => exact absurd hr ht.acts
  | withdrawn hr => exact absurd hr ht.acts
  | review x =>
    have hvol : ∀ q : Path, q ≠ (.folder, .review) → (v.put (.folder, .review) x).img.vol q = v.img.vol q := fun q hq =>
      vol_put_of_ne hq
    refine ⟨h.gone.imp_left fun hg => (hvol _ (by simp)).trans hg, ⟨fun hm => h.grounded.parents ?_, fun n => ?_, h.grounded.plain⟩,
      h.unsent⟩
    · rwa [after_file, show (v.change (.put (.folder, .review) x)).img.vol marker = v.img.vol marker from hvol _ (by simp)] at hm
    · exact (hvol _ (by simp)).trans (h.grounded.files n)
  | wiped left hw hr =>
    have hvol : ∀ q, (v.change (.wiped .folder left)).img.vol q = none ∨
        (v.change (.wiped .folder left)).img.vol q = v.img.vol q := by
      intro q
      simp only [View.change_img, Images.apply]
      split
      · split
        · split
          · exact .inr rfl
          · exact .inl rfl
        · exact .inl rfl
      · exact .inr rfl
    have hslot : ∀ c, (v.change (.wiped .folder left)).img.slot c = v.img.slot c ∨
        c = .folder ∧ (v.change (.wiped .folder left)).img.slot c = .absent := by
      intro c
      simp only [View.change_img, Images.apply]
      split
      · exact .inl rfl
      · by_cases hc : c = .folder
        · rw [hc]; exact .inr ⟨rfl, Function.update_self ..⟩
        · exact .inl (Function.update_of_ne hc _ _)
    refine ⟨?_, ⟨fun hm => reach_iff.2 fun c hc => ?_, fun n => ?_, fun c t hc => ?_⟩, h.unsent⟩
    · rcases h.gone with hg | hg
      · rcases hvol marker with he | he
        · exact .inl he
        · exact .inl (he.trans hg)
      · rcases hslot .folder with he | ⟨-, he⟩
        · exact .inr (by rw [after_file, he]; exact hg)
        · exact .inr (by rw [after_file, he]; rintro ⟨⟩)
    · have hm' : v.img.vol marker ≠ none := by
        rcases hvol marker with he | he
        · exact absurd he hm
        · rw [← he]; exact hm
      rcases hslot c with he | ⟨rfl, -⟩
      · rw [after_file, he]; exact reach_iff.1 (h.grounded.parents hm') c hc
      · simp [Dir.chain] at hc
    · rcases hvol (.meetings, n) with he | he
      · exact he
      · exact he.trans (h.grounded.files n)
    · rcases hslot c with he | ⟨rfl, -⟩
      · exact h.grounded.plain c t (he ▸ hc)
      · rfl
  | renamed r₁ t hr | moved r₁ r' hr | archived r₁ n x hr | dropped r₁ n x hr | pdf r₁ t i hr | pdfMarker r₁ t i hr
  | responded r₁ pdf hr | snapshot r₁ s hr | pdfDropped r₁ n hr | uploadDropped r₁ hr => exact (hnone hr).elim
  | artifact r₁ b₁ n x hp | manifest r₁ b₁ hp => exact (hnone hp.readable).elim
  | restored t log hr => exact absurd hr (ht.still t log)
  | submit key context audio suffix a r₁ job sha hs => exact (hnone hs.readable).elim
  | getJob | getJobByKey | getResult | ack => exact hnote _ rfl

end

end Tirke
