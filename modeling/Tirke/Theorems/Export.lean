import Tirke.Runs.Exporting
import Tirke.Theorems.FailedReview
import Tirke.Theorems.Lifecycle
/-!
# Exports

What is exported is the content that was approved and that readers get now. An export that is stopped anywhere has
changed the stage of the record and the two files of its cache at most.
-/

set_option linter.unusedSectionVars false

namespace Tirke

open CrashProg CrashDisk

section
variable [Lib] [Home] {v v' v'' : View} {r r' r'' : MeetingRecord} {c c' : Config} {e : Event} {rot : Prop}

/-! ## What is exported -/

/-- These bytes are the layout of what readers get, which is what was approved, and nothing else is cached. -/
structure UpToDate (v : View) (pdf : Bytes) (r : MeetingRecord) (t : TranscriptV1) (i : InsightsV1) : Prop where
  readable : v.run readRecord = .ok r
  read : v.run readReviewedResultsUnlocked = .ok (t, i)
  rendered : renderPdf r.meeting t i = .ok pdf
  approvable : Approvable t i
  since : StillApproved v.hist
  cache : ∀ n d, n.isCache → v.files n = some d → (n, d) ∈ pdfCache r.meeting.revision pdf

theorem renderPdf_of {m : Meeting} {t : TranscriptV1} {i : InsightsV1} (hs : m.status = .approved)
    (hid : t.meetingId = m.id) (hrev : t.revision = m.revision) (hi : i.validateAgainst t = true) :
    renderPdf m t i = .ok (Lib.layout m.rendered t i) := by
  have hnone : i.inconsistency t = none := by simpa [InsightsV1.validateAgainst] using hi
  simp [renderPdf, hs, hid, hrev, hnone]

theorem run_reviewed (hr : v.run readRecord = .ok r) :
    v.run readReviewedResultsUnlocked = v.run (readCurrentLocked r.meeting) := by
  simp only [readReviewedResultsUnlocked, Prog.bind_eq, run_bind, hr, ok_bind]

/-- What an approved record prints. -/
theorem Life.upToDate (h : Life False v) (hr : v.run readRecord = .ok r) (hs : r.meeting.status = .approved) :
    ∃ t i, UpToDate v (Lib.layout r.meeting.rendered t i) r t i := by
  have hin := inPlay_of_readable hr
  have hrec := files_of_readable hr
  have hp := h.printed.now hin h.undamaged r hrec
  obtain ⟨hman, hstill, t, i, hreads, hok⟩ := hp.approved hs
  obtain ⟨d, hd⟩ := Option.ne_none_iff_exists'.1 hman
  obtain ⟨b, hb⟩ := h.inv.backed.now hin r d hrec hd
  obtain ⟨b', t', i', hc⟩ := h.inv.content h.undamaged hr (published_of_approved hs) (hb.read hr hd)
  have hcur : v.run (readCurrentLocked r.meeting) = .ok (t', i') := (run_reviewed hr).symm.trans hc.read
  cases (reads_of_read hcur).unique hreads
  have hid : t.meetingId = r.meeting.id := (read_meetingId hcur).trans (readRecord_ok.1 hr).2.2.2.symm
  refine ⟨t, i, hr, hc.read, renderPdf_of hs hid hc.transcript hok.evidence, hok, hstill, fun n d hn hd => ?_⟩
  obtain ⟨-, t₁, i₁, hreads₁, hmem⟩ := hp.cache n d hn hd
  cases hreads.unique hreads₁
  exact hmem

/-- The bytes that are about to leave. -/
def Config.response (c : Config) : Option Bytes :=
  match c.prog with
  | some (.op (.respond pdf) _) => some pdf
  | _ => none

/-- **Only the approved content is exported**: while the response is sent, its bytes are the layout of what readers
get, which was approved and not edited since. -/
theorem exports_are_current (h : Reach (Step False) c) {pdf : Bytes} (hp : c.response = some pdf) :
    ∃ r t i, UpToDate c.world.view pdf r t i := by
  have hg : Good False c := reach_good (fun _ _ h => h) h
  unfold Config.response at hp
  split at hp
  · next pdf' k hprog =>
    cases hp
    have hl : Legal c.world.view (.responded pdf) := (hg.obeys _ hprog).1
    cases hl with
    | responded r _ hr hs hpdf =>
      obtain ⟨t, i, hup⟩ := hg.life.upToDate hr hs
      cases pdfCache_unique (hup.cache (.pdf r.meeting.revision) _ trivial (vol_of_look hpdf)) (.head _)
      exact ⟨r, t, i, hup⟩
  · cases hp

/-! ## What a stopped export leaves -/

/-- The marker, and the cache of the revision. -/
def exportFiles (revision : Nat) (q : Path) : Prop := q = marker ∨ pdfFiles revision q

/-- The stage aside, and the time of the last change, it is the same record. -/
def Restage (r r' : MeetingRecord) : Prop :=
  r' = r.mapMeeting fun m => { m with stage := r'.meeting.stage, updatedAt := r'.meeting.updatedAt }

theorem Restage.refl (r : MeetingRecord) : Restage r r := rfl

theorem Restage.exporting (h : Restage r r') (t : Time) : Restage r (r'.exporting t) := by
  unfold Restage at h
  rw [h]
  rfl

theorem Restage.exported (h : Restage r r') (t : Time) : Restage r (r'.exported t) := by
  unfold Restage at h
  rw [h]
  rfl

namespace Restage

theorem status (h : Restage r r') : r'.meeting.status = r.meeting.status := by rw [h]; rfl
theorem revision (h : Restage r r') : r'.meeting.revision = r.meeting.revision := by rw [h]; rfl
theorem attempt (h : Restage r r') : r'.meeting.attempt = r.meeting.attempt := by rw [h]; rfl

end Restage

/-- What an export has done so far, of the record `r`. -/
structure Exported (v : View) (r : MeetingRecord) (v' : View) : Prop where
  readable : ∃ r', v'.run readRecord = .ok r' ∧ Restage r r'
  vol : ∀ q, ¬ exportFiles r.meeting.revision q → v'.img.vol q = v.img.vol q
  dur : ∀ q, ¬ exportFiles r.meeting.revision q → v'.img.dur q = v.img.dur q ∨ v'.img.dur q = v.img.vol q
  durable : v.img.dur marker = some (.record r) → ∃ r', v'.img.dur marker = some (.record r') ∧ r'.ok = true ∧ Restage r r'
  slot : v'.img.slot = v.img.slot
  rooted : v.Rooted .folder → v'.Rooted .folder
  sends : sends v'.log = sends v.log

namespace Exported

theorem start (hr : v.run readRecord = .ok r) : Exported v r (v.note (.started .exportPdf)) where
  readable := ⟨r, (run_note readOnly_readRecord).trans hr, .refl r⟩
  vol _ _ := rfl
  dur _ _ := .inl rfl
  durable h := ⟨r, h, readable_ok hr, .refl r⟩
  slot := rfl
  rooted h := ⟨h.now, h.later⟩
  sends := rfl

theorem look (h : Exported v r v') {q : Path} (hq : ¬ exportFiles r.meeting.revision q) : v'.look q = v.look q := by
  simp only [View.look, Images.look, h.vol q hq, h.slot]

/-- Another file of the export changes. -/
theorem change (h : Exported v r v') (hr : v''.run readRecord = v'.run readRecord)
    (hv : ∀ q, ¬ exportFiles r.meeting.revision q → v''.img.vol q = v'.img.vol q) (hd : v''.img.dur = v'.img.dur)
    (hs : v''.img.slot = v'.img.slot) (hroot : v'.Rooted .folder → v''.Rooted .folder)
    (hlog : Tirke.sends v''.log = Tirke.sends v'.log) : Exported v r v'' where
  readable := by rw [hr]; exact h.readable
  vol q hq := (hv q hq).trans (h.vol q hq)
  dur q hq := by rw [hd]; exact h.dur q hq
  durable hm := by rw [hd]; exact h.durable hm
  slot := hs.trans h.slot
  rooted hr := hroot (h.rooted hr)
  sends := hlog.trans h.sends

theorem pdf (h : Exported v r v') {p : Path} (hp : pdfFiles r.meeting.revision p) {x : Doc} : Exported v r (v'.put p x) := by
  have hm : marker ≠ p := by rintro rfl; rcases hp with hp | hp <;> cases hp
  refine h.change (run_congr readOnly_readRecord fun q hq => ?_) (fun q hq => vol_put_of_ne ?_) rfl rfl
    (fun hr => ⟨hr.now, hr.later⟩) rfl
  · rw [hq]
    exact look_put_of_ne hm
  · rintro rfl
    exact hq (.inr hp)

theorem dropped (h : Exported v r v') {p : Path} (hp : pdfFiles r.meeting.revision p) : Exported v r (v'.drop p) := by
  have hm : marker ≠ p := by rintro rfl; rcases hp with hp | hp <;> cases hp
  refine h.change (run_congr readOnly_readRecord fun q hq => ?_) (fun q hq => Function.update_of_ne ?_ _ _) rfl rfl
    (fun hr => ⟨hr.now, hr.later⟩) rfl
  · rw [hq]
    exact look_drop_of_ne hm
  · rintro rfl
    exact hq (.inr hp)

theorem marked (h : Exported v r v') (hr : v'.run readRecord = .ok r') (hs : Restage r r'') (hok : r''.ok = true)
    (ho : r''.ownerId = r'.ownerId) (hi : r''.meeting.id = r'.meeting.id) : Exported v r (v'.mark r'') where
  readable := ⟨r'', readable_rewritten hr hok ho hi, hs⟩
  vol q hq := (vol_put_of_ne fun hm => hq (.inl hm)).trans (h.vol q hq)
  dur := h.dur
  durable := h.durable
  slot := h.slot
  rooted hr := ⟨(h.rooted hr).now, (h.rooted hr).later⟩
  sends := h.sends

theorem synced (h : Exported v r v') (d : Dir) : Exported v r (v'.sync d) where
  readable := by
    obtain ⟨r', hr, hs⟩ := h.readable
    exact ⟨r', (run_sync readOnly_readRecord).trans hr, hs⟩
  vol := h.vol
  dur q hq := by
    simp only [View.sync, View.change_img, Images.apply]
    split
    · exact .inr (h.vol q hq)
    · exact h.dur q hq
  durable hm := by
    simp only [View.sync, View.change_img, Images.apply]
    split
    · obtain ⟨r', hr, hs⟩ := h.readable
      exact ⟨r', vol_of_look (readable_look hr), readable_ok hr, hs⟩
    · exact h.durable hm
  slot := h.slot
  rooted hr := rooted_sync (h.rooted hr) d
  sends := h.sends

/-- **One event of an export.** -/
theorem step (h : Exported v r v') (he : Exports v' e) : Exported v r (v'.after e) := by
  obtain ⟨r₀, hr₀, hs₀⟩ := h.readable
  have hpdf : ∀ {q}, pdfFiles r₀.meeting.revision q → pdfFiles r.meeting.revision q := by
    rw [hs₀.revision]
    exact id
  cases he with
  | synced d => exact h.synced d
  | exporting r₁ t hr₁ hs hq hok =>
    cases hr₀.symm.trans hr₁
    exact h.marked hr₁ (hs₀.exporting t) hok rfl rfl
  | exported r₁ t hr₁ hs hq hok =>
    cases hr₀.symm.trans hr₁
    exact h.marked hr₁ (hs₀.exported t) hok rfl rfl
  | pdf r₁ t i hr₁ =>
    cases hr₀.symm.trans hr₁
    exact h.pdf (hpdf (.inl rfl))
  | pdfMarker r₁ t i hr₁ =>
    cases hr₀.symm.trans hr₁
    exact h.pdf (hpdf (.inr rfl))
  | pdfDropped r₁ n hr₁ hn =>
    cases hr₀.symm.trans hr₁
    refine h.dropped (hpdf ?_)
    rcases hn with rfl | rfl
    · exact .inl rfl
    · exact .inr rfl
  | responded r₁ pdf hr₁ =>
    exact h.change (run_note readOnly_readRecord) (fun _ _ => rfl) rfl rfl (fun hr => ⟨hr.now, hr.later⟩) rfl

end Exported

theorem performs_exports {v₀ : View} (hf : Fit c.world.disk)
    (h : Performs (c.begin .exportPdf) c') (hstart : Exported v₀ r (c.begin .exportPdf).world.view) :
    Fit c'.world.disk ∧ Exported v₀ r c'.world.view := by
  have hd : Does anything Exports getExportPdf (c.begin .exportPdf).world.view fun _ _ => True :=
    does_getExportPdf (v := (c.begin .exportPdf).world.view) rfl
  have hsat := hd _ rfl hf
  induction h with
  | refl => exact ⟨hf, hstart⟩
  | @tail c₁ c₂ hperf hstep ih =>
    cases hstep with
    | op w o k ch =>
      have hs := Performs.sat hperf rfl hsat rfl
      obtain ⟨hf', hact⟩ := guarded_act ih.1 hs.1 ch
      refine ⟨hf', ?_⟩
      rcases hact with he | ⟨e, hexp, he⟩
      · rw [he]
        exact ih.2
      · rw [he]
        exact ih.2.step hexp

/-! ## What readers see of it -/

theorem observed_restaged (hr : v.run readRecord = .ok r) (hr' : v'.run readRecord = .ok r') (hs : Restage r r')
    (hl : ∀ q, reviewedFiles r.meeting.revision q → q ≠ marker → v'.look q = v.look q) : v'.observed = v.observed := by
  have hres := readResults_congr hr hr' hs.attempt fun n hn => hl (.folder, n) (by
    simp only [List.mem_cons, List.not_mem_nil, or_false] at hn
    rcases hn with rfl | rfl | rfl | rfl
    · exact .inl (.inr (.inl rfl))
    · exact .inl (.inr (.inr (.inl rfl)))
    · exact .inl (.inr (.inr (.inr (.inl rfl))))
    · exact .inl (.inr (.inr (.inr (.inr rfl))))) (by rintro he; cases he; simp at hn)
  have hsnap : v'.look (.folder, .snapshot r.meeting.revision) = v.look (.folder, .snapshot r.meeting.revision) :=
    hl _ (.inr rfl) nofun
  rw [observed_of_readable hr, observed_of_readable hr', run_showStatus, run_showStatus]
  refine Prod.ext ?_ ?_
  · simp only [hs.status, hres.2]
    split
    · cases v.run readResults with
      | ok x => simp [Except.map, hs.status, hs.revision, hs.attempt]
      | error e =>
        simp only
        split
        · simp [Except.map, hs.revision, hs.attempt]
        · rfl
    · simp [Except.map, hs.status, hs.revision, hs.attempt]
  · simp only [readCurrentLocked, Prog.bind_eq, run_bind, run_demand, demand_bind, hs.status, hs.revision, hres.2]
    split
    swap
    · rfl
    congr 1
    funext x
    split
    · rfl
    · rw [run_handle readOnly_readSnapshot, run_handle readOnly_readSnapshot]
      have hread : v'.run (readSnapshot x.1 r.meeting.revision) = v.run (readSnapshot x.1 r.meeting.revision) := by
        simp only [readSnapshot, Prog.bind_eq, run_bind, run_discard, hr, hr', ok_bind, run_read, hsnap, run_parse,
          run_demand, run_ofExcept]
      rw [hread]
      rfl

theorem not_export_of_reviewed {k : Nat} {q : Path} (h : reviewedFiles k q) (hm : q ≠ marker) : ¬ exportFiles k q := by
  rintro (he | rfl | rfl)
  · exact hm he
  · rcases h with (h | h | h | h | h) | h <;> cases h
  · rcases h with (h | h | h | h | h) | h <;> cases h

theorem Exported.unchanged (h : Exported v r v') (hr : v.run readRecord = .ok r) : Unchanged v v' := by
  obtain ⟨r', hr', hs⟩ := h.readable
  refine ⟨observed_restaged hr hr' hs fun q hq hm => h.look (not_export_of_reviewed hq hm), fun hset => ?_⟩
  obtain ⟨r₁, hr₁, hroot, hd⟩ := hset
  cases hr.symm.trans hr₁
  have hdm : v.img.dur marker = some (.record r) := (hd marker (.inl (.inl rfl))).trans (vol_of_look (readable_look hr))
  obtain ⟨r'', hdur, hok, hs''⟩ := h.durable hdm
  have hroot' := h.rooted hroot
  obtain ⟨-, -, ho, hi⟩ := readRecord_ok.1 hr
  have hr'' : v'.afterPower.run readRecord = .ok r'' :=
    readRecord_ok.2 ⟨(look_afterPower (q := marker) hroot').trans hdur, hok, by rw [hs'']; exact ho, by rw [hs'']; exact hi⟩
  refine observed_restaged hr hr'' hs'' fun q hq hm => ?_
  have hfolder := folder_of_reviewed hq
  have hne := not_export_of_reviewed hq hm
  rw [look_afterPower (by rw [hfolder]; exact hroot'), look_of_reach (by rw [hfolder]; exact readable_reach hr)]
  rcases h.dur q hne with he | he
  · exact he.trans (hd q hq)
  · exact he

/-- **An export that is stopped anywhere**, after any failures, has left the record but for its stage and the time of
its change, every other file as it shows and as it is durable, and what readers get now and after a power failure. -/
theorem export_is_failure_atomic (h : Reach (Step rot) c) (hr : c.world.view.run readRecord = .ok r)
    (hs : Performs (c.begin .exportPdf) c') :
    Exported c.world.view r c'.world.view ∧ Unchanged c.world.view c'.world.view := by
  have hg : Good rot c := reach_good (fun _ _ h => h) h
  have he := (performs_exports hg.fit hs (.start hr)).2
  exact ⟨he, he.unchanged hr⟩

end

section
attribute [local instance] Sample.lib Sample.home

namespace Sample

/-- The bytes are about to leave. -/
def responds : World → Op → Bool := fun _ o => match o with
  | .respond _ => true
  | _ => false

/-- The edited results are approved. -/
def approved : Config :=
  edited.cues [.finish, .start (.approve ⟨1⟩), .play never (answering (gpu first)), .finish]

/-- Their export is about to be sent. -/
def exported : Config := approved.cues [.start .exportPdf, .play responds (answering (gpu first))]

/-- Their export was stopped when the marker said that it had begun. -/
def stopped : Config :=
  ⟨(host.play syncsFolder (answering (gpu first)) getExportPdf (approved.begin .exportPdf).world).2,
    some (host.play syncsFolder (answering (gpu first)) getExportPdf (approved.begin .exportPdf).world).1⟩

theorem reach_approved : Reach (Step False) approved := reach_created.cues (.inr rfl) |>.cues (.inr rfl)

end Sample

theorem exports_are_current_sample : Sample.exported.response = some [37, 1] ∧
    ∃ r t i, UpToDate Sample.exported.world.view [37, 1] r t i := by
  have h : Sample.exported.response = some [37, 1] := by decide +kernel
  exact ⟨h, exports_are_current (Sample.reach_approved.cues (.inr rfl)) h⟩

theorem export_is_failure_atomic_sample : (Sample.recordOf Sample.stopped).meeting.stage = some .exporting ∧
    Unchanged Sample.approved.world.view Sample.stopped.world.view := by
  have hr : Sample.approved.world.view.run readRecord = .ok (Sample.recordOf Sample.approved) := by decide +kernel
  exact ⟨by decide +kernel, (export_is_failure_atomic Sample.reach_approved hr performs_play).2⟩

end

end Tirke
