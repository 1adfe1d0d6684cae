import Tirke.Theorems.Export
/-!
# Exports heal

Whatever earlier exports, edits, crashes and power failures have left of the cache and of the stage: once nothing
fails any more, the next export of an approved meeting sends the PDF of its content.

`Printing` is what such an export relies on and keeps. Its lemmas follow the functions of the route.
-/

set_option linter.unusedSectionVars false

namespace Tirke

open CrashProg CrashDisk

section
variable [Lib] [Home] {v v' : View} {r r' : MeetingRecord} {c : Config} {pdf : Bytes}

/-! ## What an export relies on -/

/-- The content is laid out as `pdf`, a PDF, and whatever is cached belongs to it. -/
structure Printing (v : View) (r : MeetingRecord) (pdf : Bytes) : Prop extends Approved v r where
  content : ∃ t i, v.run readReviewedResultsUnlocked = .ok (t, i) ∧ t.revision = r.meeting.revision ∧
    i.revision = r.meeting.revision ∧ renderPdf r.meeting t i = .ok pdf
  results : ∃ x, v.run readResults = .ok x
  valid : Lib.validPdf pdf = true
  cache : ∀ n d, n.isCache → v.look (.folder, n) = some d → (n, d) ∈ pdfCache r.meeting.revision pdf

theorem not_result_of_cache {n : Name} (hn : n.isCache) {k : Nat} {q : Path} (hq : reviewedFiles k q) :
    q ≠ (.folder, n) := by
  rintro rfl
  rcases hq with (h | h | h | h | h) | h <;> cases h <;> exact hn

theorem pdfFiles_isCache {k : Nat} {q : Path} (hq : pdfFiles k q) : ∃ n : Name, n.isCache ∧ q = (.folder, n) := by
  rcases hq with rfl | rfl
  · exact ⟨.pdf k, trivial, rfl⟩
  · exact ⟨.pdfMarker k, trivial, rfl⟩

namespace Printing

/-- Nothing but the cache has changed, and what is cached belongs to the content. -/
theorem frame (h : Printing v r pdf) (hf : Frame (pdfFiles r.meeting.revision) v v')
    (hc : ∀ n d, n.isCache → v'.look (.folder, n) = some d → (n, d) ∈ pdfCache r.meeting.revision pdf) :
    Printing v' r pdf := by
  have hne : ∀ k q, reviewedFiles k q → ¬ pdfFiles r.meeting.revision q := by
    intro k q hq hp
    obtain ⟨n, hn, rfl⟩ := pdfFiles_isCache hp
    exact not_result_of_cache hn hq rfl
  have hr : v'.run readRecord = .ok r :=
    (hf.run readOnly_readRecord fun q hq => hne 0 q (.inl (.inl hq))).trans h.readable
  have hres : v'.run readReviewedResultsUnlocked = v.run readReviewedResultsUnlocked := by
    rw [run_reviewed hr, run_reviewed h.readable]
    exact hf.run readOnly_readCurrentLocked (hne _)
  refine ⟨⟨hr, h.approved, by rw [hf.log.running]; exact h.acting⟩, ?_, ?_, h.valid, hc⟩
  · rw [hres]
    exact h.content
  · rw [hf.run readOnly_readResults fun q hq => hne 0 q (.inl hq)]
    exact h.results

/-- The stage of the record is rewritten. -/
theorem restaged (h : Printing v r pdf) (hs : Restage r r') (hr' : (v.mark r').run readRecord = .ok r') :
    Printing (v.marked r') r' pdf := by
  have hread : (v.marked r').run readRecord = .ok r' := (run_sync readOnly_readRecord).trans hr'
  have hlook : ∀ q, q ≠ marker → (v.marked r').look q = v.look q := fun q hq =>
    look_mark (v := v) (r := r') hq
  have hobs := congrArg Prod.snd (observed_restaged h.readable hread hs fun q _ hq => hlook q hq)
  obtain ⟨t, i, hc, ht, hi, hp⟩ := h.content
  have hmeeting : r'.meeting = { r.meeting with stage := r'.meeting.stage, updatedAt := r'.meeting.updatedAt } :=
    congrArg MeetingRecord.meeting hs
  have hren : renderPdf r'.meeting t i = renderPdf r.meeting t i := by rw [hmeeting]; rfl
  refine ⟨⟨hread, by rw [hs.status]; exact h.approved, h.acting⟩, ⟨t, i, ?_, ?_, ?_, by rw [hren]; exact hp⟩, ?_, h.valid,
    fun n d hn hd => ?_⟩
  · exact hobs.trans hc
  · rw [hs.revision]; exact ht
  · rw [hs.revision]; exact hi
  · have hres := (readResults_congr h.readable hread hs.attempt fun n hn => hlook (.folder, n) (by
      rintro he; cases he; simp at hn)).2
    rw [hres]
    exact h.results
  · rw [hs.revision]
    rw [hlook _ fun he => isCache_ne hn id (congrArg Prod.snd he)] at hd
    exact h.cache n d hn hd

theorem reach (h : Printing v r pdf) : v.reach .folder = true := readable_reach h.readable

end Printing

/-! ## The cache -/

theorem readPdfCache_error {k : Nat} {e : Exn} (hr : v.run readRecord = .ok r) (h : v.run (readPdfCache k) = .error e) :
    e = .fileNotFound ∨ ∃ message, e = .integrity message := by
  simp only [readPdfCache, Prog.bind_eq, run_bind, run_pdfPath hr, ok_bind, bind_eq_error, run_read] at h
  rcases h with h | ⟨d, -, h⟩
  · cases hl : v.look (.folder, .pdf k) with
    | none => rw [hl] at h; cases h; exact .inl rfl
    | some d => rw [hl] at h; cases h
  · right
    rcases h with h | ⟨m, -, h⟩
    · rw [run_missingAs] at h
      cases hl : v.look (.folder, .pdfMarker k) with
      | none => rw [hl] at h; cases h; exact ⟨_, rfl⟩
      | some d => rw [hl] at h; cases h
    · rcases h with h | ⟨-, -, h⟩
      · rw [run_demand] at h
        split at h
        · cases h
        · cases h; exact ⟨_, rfl⟩
      · cases h

theorem does_dropCache {α : Type} (h : Printing v r pdf) :
    Does quiet Exports (do deletePdfCache r.meeting.revision; return none : Serv (Option α)) v fun out v' =>
      Printing v' r pdf ∧ out = .ok none := by
  refine Does.bind (does_deletePdfCache h.readable) ?_ ?_
  swap
  · rintro e v' ⟨-, -, hf⟩
    exact absurd hf quiet_calm
  rintro ⟨⟩ v' ⟨hf, hpdf, hmark⟩
  refine .ret ⟨h.frame hf fun n d hn hd => ?_, rfl⟩
  by_cases hk : pdfFiles r.meeting.revision (.folder, n)
  · rcases hk with he | he
    · rw [he, hpdf] at hd; cases hd
    · rw [he, hmark] at hd; cases hd
  · rw [hf.look hk] at hd
    exact h.cache n d hn hd

/-- **`cached`**: the PDF, or nothing. -/
theorem does_cachedPdf_calm (h : Printing v r pdf) : Does quiet Exports (cachedPdf r.meeting.revision) v fun out v' =>
    Printing v' r pdf ∧ ((out = .ok (some pdf) ∧ v'.look (.folder, .pdf r.meeting.revision) = some (.blob pdf)) ∨
      out = .ok none) := by
  refine Does.bind (R := fun out v' => Printing v' r pdf ∧ ((out = .ok (some (.blob pdf)) ∧
    v'.look (.folder, .pdf r.meeting.revision) = some (.blob pdf)) ∨ out = .ok none)) ?_ ?_ ?_
  · refine Does.handle (R := fun out v' => v' = v ∧ ((out = .ok (some (.blob pdf)) ∧
      v'.look (.folder, .pdf r.meeting.revision) = some (.blob pdf)) ∨ ∃ e, out = .error e ∧
      (e = .fileNotFound ∨ ∃ message, e = .integrity message))) ?_ ?_ ?_
    · refine Does.readThen readOnly_readPdfCache (fun d hd => .ret ⟨rfl, .inl ?_⟩)
        (fun e he => ⟨rfl, .inr ⟨e, rfl, readPdfCache_error h.readable he⟩⟩) fun hf => absurd hf quiet_calm
      have hl := readPdfCache_ok hd
      cases pdfCache_unique (h.cache (.pdf _) d trivial hl) (.head _)
      exact ⟨rfl, hl⟩
    · rintro data v' ⟨rfl, ⟨hd, hl⟩ | ⟨e, he, -⟩⟩
      · cases hd
        exact ⟨h, .inl ⟨rfl, hl⟩⟩
      · cases he
    · rintro e v' ⟨rfl, ⟨hd, -⟩ | ⟨e', he, hcase⟩⟩
      · cases hd
      cases he
      rcases hcase with rfl | ⟨message, rfl⟩
      · exact .ret ⟨h, .inr rfl⟩
      · show Does quiet Exports (do deletePdfCache r.meeting.revision; return none) v' _
        refine (does_dropCache h).mono ?_
        rintro out v' ⟨hp, ho⟩
        exact ⟨hp, .inr ho⟩
  · rintro data v' ⟨hp, ⟨hd, hl⟩ | hd⟩
    · cases hd
      have hvalid : (Doc.blob pdf).pdf = some pdf := by simp [Doc.pdf, h.valid]
      dsimp only
      rw [hvalid]
      exact .ret ⟨hp, .inl ⟨rfl, hl⟩⟩
    · cases hd
      exact .ret ⟨hp, .inr rfl⟩
  · rintro e v' ⟨-, ⟨hd, -⟩ | hd⟩
    · cases hd
    · cases hd

/-- A file of the cache is written, or was there. -/
theorem does_writeCached (h : Printing v r pdf) {n : Name} {x : Doc} (hmem : (n, x) ∈ pdfCache r.meeting.revision pdf)
    (law : Exports v (.file (.put (.folder, n) x))) :
    Does quiet Exports (writeOriginal (.folder, n) x) v fun out v' => out = .ok () ∧ Printing v' r pdf ∧
      v'.look (.folder, n) = some x ∧ Frame (· = ((.folder, n) : Path)) v v' := by
  have hfiles : pdfFiles r.meeting.revision (.folder, n) := by
    rcases pdfCache_name hmem with rfl | rfl
    · exact .inl rfl
    · exact .inr rfl
  have hcache : ∀ {v'}, Frame (· = ((.folder, n) : Path)) v v' → v'.look (.folder, n) = some x → Printing v' r pdf := by
    intro v' hf hl
    refine h.frame (hf.mono fun q hq => hq ▸ hfiles) fun m d hm hd => ?_
    by_cases hne : m = n
    · subst hne
      cases hl.symm.trans hd
      exact hmem
    · rw [hf.look fun he => hne (congrArg Prod.snd he)] at hd
      exact h.cache m d hm hd
  refine (does_writeOriginal (p := (.folder, n)) (readable_notVoid h.readable) h.reach (fun _ => law)
    (fun _ => .synced _ h.reach) fun _ => .synced _ h.reach).mono fun out v' hw => ?_
  have hok : out = .ok () := by
    cases hw with
    | new _ hw =>
      cases hw with
      | done => rfl
      | nothing hf | shown hf | synced hf => exact absurd hf quiet_calm
    | same => rfl
    | other hl hne => exact absurd (pdfCache_unique (h.cache n _ (pdfCache_isCache hmem) hl) hmem) hne
    | failed hf => exact absurd hf quiet_calm
  subst hok
  exact ⟨rfl, hcache (hw.frame rfl) (hw.done h.reach).1, (hw.done h.reach).1, hw.frame rfl⟩

/-- **`write_pdf_cache`** goes through. -/
theorem does_writePdfCache_calm (h : Printing v r pdf) : Does quiet Exports (writePdfCache r.meeting.revision (.blob pdf)) v
    fun out v' => out = .ok () ∧ Printing v' r pdf ∧ v'.look (.folder, .pdf r.meeting.revision) = some (.blob pdf) := by
  have hread : ∀ {v}, Printing v r pdf → ∃ t i, v.run (readCurrentLocked r.meeting) = .ok (t, i) ∧
      pdf = Lib.layout r.meeting.rendered t i := by
    intro v h
    obtain ⟨t, i, hc, -, -, hp⟩ := h.content
    exact ⟨t, i, (run_reviewed h.readable).symm.trans hc, renderPdf_ok hp⟩
  refine Does.readThen readOnly_pdfPath (fun path hp => ?_) (fun e he => ?_) fun hf => absurd hf quiet_calm
  swap
  · rw [run_pdfPath h.readable] at he; cases he
  rw [run_pdfPath h.readable] at hp
  cases hp
  obtain ⟨t, i, hc, hlay⟩ := hread h
  refine Does.bind (does_writeCached h (.head _) (by rw [hlay]; exact .pdf r t i h.readable h.approved hc)) ?_
    fun e v' he => by cases he.1
  rintro ⟨⟩ v₁ ⟨-, h₁, hl₁, -⟩
  obtain ⟨t₁, i₁, hc₁, hlay₁⟩ := hread h₁
  have hlaw : Exports v₁ (.file (.put (.folder, .pdfMarker r.meeting.revision)
      (pdfCacheMarker r.meeting.revision (.blob pdf)))) := by
    rw [hlay₁]
    exact .pdfMarker r t₁ i₁ h₁.readable h₁.approved hc₁
  refine (does_writeCached h₁ (.tail _ (.head _)) hlaw).mono ?_
  rintro out v₂ ⟨ho, h₂, -, hf⟩
  exact ⟨ho, h₂, (hf.look (q := (.folder, .pdf r.meeting.revision)) nofun).trans hl₁⟩

/-! ## The stage -/

/-- The marker is rewritten with another stage. -/
theorem does_restage (h : Printing v r pdf) (m : Move v r r') (hs : Restage r r')
    (law : r'.ok = true → Exports v (.file (.put marker (.record r')))) :
    Does quiet Exports (discard (updateMeeting r')) v fun out v' => out = .ok () ∧ Printing v' r' pdf ∧
      ∀ q, q ≠ marker → v'.look q = v.look q := by
  have hread := m.readable h.readable
  refine Does.bind (does_updateUnder h.readable m hs.attempt (fun _ => law (m.ok (readable_ok h.readable)))
    (.synced _ (readable_reach hread))) ?_ ?_
  · rintro x v' hu
    cases hu with
    | done b _ => exact .ret ⟨rfl, h.restaged hs hread, fun q hq => look_mark (v := v) (r := r') hq⟩
  · rintro e v' hu
    cases hu with
    | refused e hp he =>
      obtain ⟨x, hx⟩ := h.results
      cases hx.symm.trans he
    | nothing hf | shown hf | synced hf => exact absurd hf quiet_calm

/-- **`_clear_exporting_stage`** leaves no stage. -/
theorem does_clearExportingStage_calm (h : Printing v r pdf) : Does quiet Exports clearExportingStage v fun out v' =>
    out = .ok () ∧ (∃ r', Printing v' r' pdf ∧ Restage r r' ∧ r'.meeting.stage = none) ∧
      ∀ q, q ≠ marker → v'.look q = v.look q := by
  refine Does.readThen readOnly_readRecord (fun r₁ h₁ => ?_) (fun e he => ?_) fun hf => absurd hf quiet_calm
  swap
  · rw [h.readable] at he; cases he
  cases h.readable.symm.trans h₁
  split
  · next hs =>
    refine Does.bind (R := fun out v' => v' = v ∧ ∃ t, out = .ok t) (Does.now fun t _ => ⟨rfl, t, rfl⟩) ?_
      fun _ _ h => by obtain ⟨-, t, ht⟩ := h; cases ht
    rintro t v ⟨rfl, _, ht⟩
    cases ht
    refine (does_restage h (.exported t hs) ((Restage.refl r).exported t)
      fun hok => .exported r t h.readable hs h.acting hok).mono ?_
    rintro out v' ⟨ho, hp, hl⟩
    exact ⟨ho, ⟨_, hp, (Restage.refl r).exported t, rfl⟩, hl⟩
  · next hs =>
    refine .ret ⟨rfl, ⟨r, h, .refl r, ?_⟩, fun _ _ => rfl⟩
    -- an approved meeting has no other stage
    cases hst : r.meeting.stage with
    | none => rfl
    | some s =>
      have hv : r.meeting.validStage = true := (meeting_valid_iff.1 (ok_iff.1 (readable_ok h.readable)).1).2.2.2.2
      have hne : s ≠ .exporting := fun he => hs (he ▸ hst)
      simp [Meeting.validStage, hst, hne, h.approved] at hv

/-! ## `GET …/export.pdf` -/

theorem does_generatePdf_calm (h : Printing v r pdf) : Does quiet Exports (generatePdf r) v fun out v' =>
    out = .ok pdf ∧ ∃ r', Printing v' r' pdf ∧ Restage r r' ∧
      v'.look (.folder, .pdf r.meeting.revision) = some (.blob pdf) := by
  refine Does.bind (R := fun out v' => v' = v ∧ ∃ t, out = .ok t) (Does.now fun t _ => ⟨rfl, t, rfl⟩) ?_
    fun _ _ h => by obtain ⟨-, t, ht⟩ := h; cases ht
  rintro t v ⟨rfl, _, ht⟩
  cases ht
  have hs : Restage r (r.exporting t) := (Restage.refl r).exporting t
  refine Does.bind (does_restage h (.exporting t h.approved h.acting) hs
    fun hok => .exporting r t h.readable h.approved h.acting hok h.results) ?_ fun e v' he => by cases he.1
  rintro ⟨⟩ v₁ ⟨-, h₁, -⟩
  obtain ⟨transcript, insights, hc, ht, hi, hp⟩ := h₁.content
  refine Does.readThen readOnly_readReviewedResultsUnlocked (fun x hx => ?_) (fun e he => ?_) fun hf => absurd hf quiet_calm
  swap
  · rw [hc] at he; cases he
  cases hc.symm.trans hx
  refine Does.bind does_demand ?_ ?_
  swap
  · rintro e v' ⟨-, -, hf⟩
    have ht' : transcript.revision = r.meeting.revision := ht
    have hi' : insights.revision = r.meeting.revision := hi
    simp [ht', hi'] at hf
  rintro ⟨⟩ v₁ ⟨rfl, -⟩
  have hren : renderPdf r.meeting transcript insights = .ok pdf := hp
  rw [hren]
  refine Does.bind (R := fun out v' => v' = v₁ ∧ out = .ok pdf) (.ofExcept ⟨rfl, rfl⟩) ?_ fun e v' he => by cases he.2
  rintro _ v₁ ⟨rfl, ho⟩
  cases ho
  refine Does.bind does_demand ?_ ?_
  swap
  · rintro e v' ⟨-, -, hf⟩
    rw [h.valid] at hf
    cases hf
  rintro ⟨⟩ v₁ ⟨rfl, -⟩
  have hwrite : Does quiet Exports (writePdfCache r.meeting.revision (.blob pdf)) v₁ fun out v' => out = .ok () ∧
      Printing v' (r.exporting t) pdf ∧ v'.look (.folder, .pdf r.meeting.revision) = some (.blob pdf) :=
    does_writePdfCache_calm h₁
  refine Does.bind hwrite ?_ fun e v' he => by cases he.1
  rintro ⟨⟩ v₂ ⟨-, h₂, hl₂⟩
  exact .ret ⟨rfl, _, h₂, hs, hl₂⟩

theorem Restage.trans {r'' : MeetingRecord} (h : Restage r r') (h' : Restage r' r'') : Restage r r'' := by
  unfold Restage at h h'
  rw [h', h]
  rfl

/-- **The build returns the PDF of the content**, and no stage is left. -/
theorem does_buildExportUnlocked_calm (h : Printing v r pdf) : Does quiet Exports buildExportUnlocked v fun out v' =>
    out = .ok pdf ∧ ∃ r', Printing v' r' pdf ∧ Restage r r' ∧ r'.meeting.stage = none ∧
      v'.look (.folder, .pdf r.meeting.revision) = some (.blob pdf) := by
  refine Does.readThen readOnly_readRecord (fun r₁ h₁ => ?_) (fun e he => ?_) fun hf => absurd hf quiet_calm
  swap
  · rw [h.readable] at he; cases he
  cases h.readable.symm.trans h₁
  refine Does.bind does_demand ?_ ?_
  swap
  · rintro e v' ⟨-, -, hf⟩
    simp [h.approved] at hf
  rintro ⟨⟩ v ⟨rfl, -⟩
  refine Does.bind (does_cachedPdf_calm h) ?_ ?_
  swap
  · rintro e v' ⟨-, ⟨he, -⟩ | he⟩
    · cases he
    · cases he
  rintro cached v₁ ⟨h₁, ⟨hc, hl₁⟩ | hc⟩
  · cases hc
    refine Does.bind (does_clearExportingStage_calm h₁) ?_ fun e v' he => by cases he.1
    rintro ⟨⟩ v₂ ⟨-, ⟨r₂, h₂, hs₂, hst⟩, hl₂⟩
    exact .ret ⟨rfl, r₂, h₂, hs₂, hst, (hl₂ (.folder, .pdf r.meeting.revision) nofun).trans hl₁⟩
  · cases hc
    refine Does.ensuring (does_generatePdf_calm h₁) ?_
    rintro out v₂ ⟨rfl, r₂, h₂, hs₂, hl₂⟩
    refine (does_clearExportingStage_calm h₂).mono ?_
    rintro out v₃ ⟨rfl, ⟨r₃, h₃, hs₃, hst⟩, hl₃⟩
    exact ⟨rfl, r₃, h₃, hs₂.trans hs₃, hst, (hl₃ (.folder, .pdf r.meeting.revision) nofun).trans hl₂⟩

/-- The PDF is the last that was sent, and the record says that it is not being exported any more. -/
structure Sent (r : MeetingRecord) (pdf : Bytes) (v : View) : Prop where
  sent : ∃ log, v.log = .responded pdf :: log
  record : ∃ r', v.run readRecord = .ok r' ∧ Restage r r' ∧ r'.meeting.stage = none
  cached : v.look (.folder, .pdf r.meeting.revision) = some (.blob pdf)

theorem does_getExportPdf_calm (h : Printing v r pdf) : Does quiet Exports getExportPdf v fun out v' =>
    out = .ok () ∧ Sent r pdf v' := by
  refine does_lifecycleLock (fun r₁ b h₁ _ => ?_) (fun e he => ?_) fun hf => absurd hf quiet_calm
  swap
  · rw [h.readable] at he; cases he
  refine Does.bind (does_buildExportUnlocked_calm h) ?_ fun e v' he => by cases he.1
  rintro pdf' v' ⟨hpdf, r', h', hs, hst, hl⟩
  cases hpdf
  have hl' : v'.look (.folder, .pdf r'.meeting.revision) = some (.blob pdf) := by rw [hs.revision]; exact hl
  exact Does.respond (.responded r' pdf h'.readable h'.approved hl')
    ⟨rfl, ⟨_, rfl⟩, ⟨r', (run_note readOnly_readRecord).trans h'.readable, hs, hst⟩, hl⟩

/-! ## The result -/

theorem UpToDate.printing {t : TranscriptV1} {i : InsightsV1} (h : UpToDate v pdf r t i)
    (hs : r.meeting.status = .approved) (hv : Lib.validPdf pdf = true) :
    Printing (v.note (.started .exportPdf)) r pdf where
  readable := (run_note readOnly_readRecord).trans h.readable
  approved := hs
  acting := rfl
  content := by
    have hread := (run_note (v := v) (e := .started .exportPdf)
      readOnly_readReviewedResultsUnlocked).trans h.read
    have hp := h.rendered
    unfold renderPdf at hp
    split at hp
    · cases hp
    split at hp
    · cases hp
    next hid =>
    have hrev : r.meeting.revision = t.revision := congrArg Prod.snd (not_not.1 hid)
    have he := h.approvable.evidence
    have hie : i.revision = t.revision := by
      unfold InsightsV1.validateAgainst InsightsV1.inconsistency at he
      split at he
      · cases he
      · next hne => exact not_not.1 fun hr => hne (.inr hr)
    exact ⟨t, i, hread, hrev.symm, hie.trans hrev.symm, h.rendered⟩
  results := by
    obtain ⟨y, hy⟩ := run_readCurrentLocked_results ((run_reviewed h.readable).symm.trans h.read)
    exact ⟨y, (run_note readOnly_readResults).trans hy⟩
  valid := hv
  cache n d hn hd := h.cache n d hn (vol_of_look (v := v) hd)

/-- **Exports heal**: of an approved meeting, whatever happened to it, an export in which nothing fails sends the PDF
of the content that readers get, and takes the record out of the stage an earlier one may have left. -/
theorem exports_heal (h : Reach (Step False) c) (hr : c.world.view.run readRecord = .ok r)
    (hs : r.meeting.status = .approved) (hv : ∀ t i, Lib.validPdf (Lib.layout r.meeting.rendered t i) = true) :
    ∃ t i pdf, c.world.view.run readReviewedResultsUnlocked = .ok (t, i) ∧ renderPdf r.meeting t i = .ok pdf ∧
      Sat quiet (fun _ _ => True) (fun out (w' : World) => out = .ok () ∧ Sent r pdf w'.view) getExportPdf
        (c.begin .exportPdf).world := by
  have hg : Good False c := reach_good (fun _ _ h => h) h
  obtain ⟨t, i, hup⟩ := hg.life.upToDate hr hs
  refine ⟨t, i, _, hup.read, hup.rendered, ?_⟩
  have hd := does_getExportPdf_calm (hup.printing hs (hv t i))
  refine ((hd (c.begin .exportPdf).world rfl hg.fit).weaken (fun _ _ _ h => h) fun _ _ _ => trivial).mono ?_
  rintro out w' ⟨-, ho, hsent⟩
  exact ⟨ho, hsent⟩

end

section
attribute [local instance] Sample.lib Sample.home

namespace Sample

/-- The export was killed when the marker said that it had begun. -/
def halted : Config := approved.cues [.start .exportPdf, .play syncsFolder (answering (gpu first)), .kill]

end Sample

theorem exports_heal_sample : (Sample.recordOf Sample.halted).meeting.stage = some .exporting ∧
    ∃ t i pdf, Sample.halted.world.view.run readReviewedResultsUnlocked = .ok (t, i) ∧
      renderPdf (Sample.recordOf Sample.halted).meeting t i = .ok pdf ∧
      Sat quiet (fun _ _ => True) (fun out (w' : World) => out = .ok () ∧ Sent (Sample.recordOf Sample.halted) pdf w'.view)
        getExportPdf (Sample.halted.begin .exportPdf).world := by
  have hr : Sample.halted.world.view.run readRecord = .ok (Sample.recordOf Sample.halted) := by decide +kernel
  have hs : (Sample.recordOf Sample.halted).meeting.status = .approved := by decide +kernel
  exact ⟨by decide +kernel, exports_heal (Sample.reach_approved.cues (.inr rfl)) hr hs fun _ _ => rfl⟩

end

end Tirke
