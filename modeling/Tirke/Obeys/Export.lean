import Tirke.Obeys.Reviews
/-!
# The export obeys the law

The bytes that leave are, at that moment, the cached PDF of the approved record's revision (`Served`).
-/

set_option linter.unusedSectionVars false

namespace Tirke

open CrashProg CrashDisk

variable [Lib] [Home] [Weather] {A : Env host} [Forecast A] {v v' : View} {r r' : MeetingRecord} {k : Nat}

/-! ## The cache -/

theorem pdf_eq_some {d : Doc} {pdf : Bytes} (h : d.pdf = some pdf) : d = .blob pdf := by
  cases d with
  | blob b =>
    simp only [Doc.pdf] at h
    split at h
    · cases h; rfl
    · cases h
  | _ => cases h

theorem readOnly_readPdfCache : ReadOnly (fun _ => True) (readPdfCache k) := by
  unfold readPdfCache
  refine ReadOnly.bind (readOnly_pdfPath.mono fun _ _ => trivial) fun _ => ?_
  refine ReadOnly.bind (readOnly_read trivial) fun _ => ?_
  refine ReadOnly.bind (ReadOnly.missingAs (readOnly_read trivial) _) fun _ => ?_
  exact ReadOnly.bind (readOnly_demand _ _) fun _ => trivial

theorem readPdfCache_ok {d : Doc} (h : v.run (readPdfCache k) = .ok d) : v.look (.folder, .pdf k) = some d := by
  simp only [readPdfCache, pdfPath, Prog.bind_eq, run_bind, bind_eq_ok, Prog.pure_eq, run_ret, Except.ok.injEq,
    run_read, missingAs_ok, run_demand_ok] at h
  obtain ⟨path, ⟨-, -, rfl⟩, d', hd', m, -, -, -, rfl⟩ := h
  cases hl : v.look (.folder, .pdf k) with
  | none => rw [hl] at hd'; cases hd'
  | some x => rw [hl] at hd'; cases hd'; rfl

/-- What looking for a cached PDF leaves. -/
def Cached (v : View) (k : Nat) (out : Except Exn (Option Bytes)) (v' : View) : Prop :=
  Frame (pdfFiles k) v v' ∧ ∀ pdf, out = .ok (some pdf) → v'.look (.folder, .pdf k) = some (.blob pdf)

theorem does_discardCache (hr : v.run readRecord = .ok r) :
    Does A Exports (do deletePdfCache r.meeting.revision; return none : Serv (Option Bytes)) v
      (Cached v r.meeting.revision) :=
  Does.bind (does_deletePdfCache hr) (fun _ _ h => .ret ⟨h.1, nofun⟩) fun _ _ h => ⟨h.1, nofun⟩

theorem does_cachedPdf (hr : v.run readRecord = .ok r) :
    Does A Exports (cachedPdf r.meeting.revision) v (Cached v r.meeting.revision) := by
  refine Does.bind (R := fun out v' => Frame (pdfFiles r.meeting.revision) v v' ∧ ∀ data, out = .ok (some data) →
    v' = v ∧ v.look (.folder, .pdf r.meeting.revision) = some data) ?_ ?_ fun _ _ h => ⟨h.1, fun _ h => by cases h⟩
  · refine Does.handle (R := fun out v' => v' = v ∧ ∀ data, out = .ok data → ∃ d, data = some d ∧
      v.look (.folder, .pdf r.meeting.revision) = some d) ?_ ?_ ?_
    · refine Does.readThen readOnly_readPdfCache (fun d hd => .ret ⟨rfl, ?_⟩) (fun _ _ => ⟨rfl, fun _ h => by cases h⟩)
        fun _ => ⟨rfl, fun _ h => by cases h⟩
      rintro data h
      cases h
      exact ⟨d, rfl, readPdfCache_ok hd⟩
    · rintro data v' ⟨rfl, h⟩
      obtain ⟨d, rfl, hd⟩ := h _ rfl
      refine ⟨.refl v', ?_⟩
      rintro data h'
      cases h'
      exact ⟨rfl, hd⟩
    · rintro e v ⟨rfl, -⟩
      split
      · exact .ret ⟨.refl v, fun _ h => by cases h⟩
      · refine Does.bind (does_deletePdfCache hr) (fun _ _ h => .ret ⟨h.1, fun _ h => by cases h⟩) fun _ _ h => ⟨h.1, fun _ h => by cases h⟩
      · exact .raise ⟨.refl v, fun _ h => by cases h⟩
  · rintro data v' ⟨hf, h⟩
    cases data with
    | none => exact .ret ⟨hf, fun _ h => by cases h⟩
    | some d =>
      obtain ⟨rfl, hl⟩ := h d rfl
      dsimp only
      split
      · next pdf hp =>
        refine .ret ⟨.refl v', fun pdf' h' => ?_⟩
        cases h'
        rw [hl, pdf_eq_some hp]
      · exact does_discardCache hr

/-! ## The stage -/

/-- The record is approved, and being exported or not. -/
structure Approved (v : View) (r : MeetingRecord) : Prop where
  readable : v.run readRecord = .ok r
  approved : r.meeting.status = .approved
  acting : running v.log = some .exportPdf

/-- Setting or clearing the stage changes nothing else. -/
def Restaged (v : View) (r : MeetingRecord) (v' : View) : Prop :=
  ∃ r', Approved v' r' ∧ r'.meeting.revision = r.meeting.revision ∧ r'.meeting.rendered = r.meeting.rendered ∧
    Frame (· = marker) v v'

theorem Approved.restaged (h : Approved v r) : Restaged v r v := ⟨r, h, rfl, rfl, .refl v⟩

theorem does_clearExportingStage (hact : running v.log = some .exportPdf) :
    Does A Exports clearExportingStage v fun out v' => ∀ r, Approved v r → out = .ok () → Restaged v r v' := by
  have hread : ∀ r₁, v.run readRecord = .ok r₁ → ∀ r, Approved v r → r = r₁ := by
    intro r₁ h r hr
    have := hr.readable
    rw [h] at this
    cases this
    rfl
  refine Does.readThen readOnly_readRecord (fun r₁ h => ?_) (fun _ _ _ _ => nofun) fun _ _ _ => nofun
  split
  · next hs =>
    refine Does.bind (R := fun out v' => v' = v ∧ ∃ t, out = .ok t) (Does.now fun t _ => ⟨rfl, t, rfl⟩) ?_
      fun _ _ h => by obtain ⟨-, t, ht⟩ := h; cases ht
    rintro t v ⟨rfl, _, ht⟩
    cases ht
    have m : Move v r₁ (r₁.exported t) := .exported t hs
    refine Does.bind (does_updateUnder h m rfl (fun _ => .exported r₁ t h hs hact (m.ok (readable_ok h)))
      (.synced _ (readable_reach (m.readable h)))) ?_ fun _ _ _ _ _ h => nomatch h
    rintro x v' hu
    cases hu with
    | done b _ =>
      refine .ret fun r hr _ => ?_
      obtain rfl := hread _ h r hr
      exact ⟨r.exported t, ⟨m.readable_marked h, hr.approved, hact⟩, rfl, rfl,
        (Frame.put (S := (· = marker)) rfl).trans (.sync _)⟩
  · exact .ret fun r hr _ => hr.restaged

/-! ## Generating -/

/-- The cached PDF of the approved record's revision is what was produced. -/
def Served (v : View) (pdf : Bytes) : Prop :=
  ∃ r, Approved v r ∧ v.look (.folder, .pdf r.meeting.revision) = some (.blob pdf)

theorem Served.restaged {pdf : Bytes} (h : Served v pdf) (hs : ∀ r, Approved v r → Restaged v r v') : Served v' pdf := by
  obtain ⟨r, hr, hl⟩ := h
  obtain ⟨r', hr', hrev, -, hf⟩ := hs r hr
  exact ⟨r', hr', by rw [hrev]; exact (hf.look (q := (.folder, .pdf r.meeting.revision)) nofun).trans hl⟩

theorem renderPdf_ok {m : Meeting} {t : TranscriptV1} {i : InsightsV1} {pdf : Bytes} (h : renderPdf m t i = .ok pdf) :
    pdf = Lib.layout m.rendered t i := by
  unfold renderPdf at h
  split at h
  · cases h
  split at h
  · cases h
  split at h
  · cases h
  · cases h; rfl

theorem published_of_approved {m : Meeting} (h : m.status = .approved) : m.status.published = true := by rw [h]; rfl

theorem not_pdf_of_reviewed {q : Path} (h : reviewedFiles k q) : q ≠ (.folder, .pdf k) := by
  rintro rfl
  rcases h with (h | h | h | h | h) | h <;> cases h

theorem does_writePdfCache {t : TranscriptV1} {i : InsightsV1} {pdf : Bytes} (h : Approved v r)
    (hc : v.run (readCurrentLocked r.meeting) = .ok (t, i)) (hpdf : pdf = Lib.layout r.meeting.rendered t i) :
    Does A Exports (writePdfCache r.meeting.revision (.blob pdf)) v fun out v' => running v'.log = some .exportPdf ∧
      (out = .ok () → Served v' pdf) := by
  refine Does.readThen readOnly_pdfPath (fun path hp => ?_) (fun _ _ => ⟨h.acting, nofun⟩) fun _ => ⟨h.acting, nofun⟩
  rw [run_pdfPath h.readable] at hp
  cases hp
  have hreach := readable_reach h.readable
  have hlaw : Exports v (.file (.put (.folder, .pdf r.meeting.revision) (.blob pdf))) := by
    rw [hpdf]
    exact .pdf r t i h.readable h.approved hc
  refine Does.bind (does_writeOriginal (p := (.folder, .pdf r.meeting.revision)) (readable_notVoid h.readable) hreach
    (fun _ => hlaw) (fun _ => .synced _ hreach) fun _ => .synced _ hreach) ?_ ?_
  swap
  · rintro e v₁ hw
    have hf : Frame (· = ((.folder, .pdf r.meeting.revision) : Path)) v v₁ := hw.frame rfl
    exact ⟨by rw [hf.log.running]; exact h.acting, nofun⟩
  rintro ⟨⟩ v₁ hw
  have hf₁ : Frame (· = ((.folder, .pdf r.meeting.revision) : Path)) v v₁ := hw.frame rfl
  have hl₁ := (hw.done hreach).1
  have h₁ : Approved v₁ r := ⟨(hf₁.run readOnly_readRecord fun q hq => hq ▸ nofun).trans h.readable, h.approved,
    by rw [hf₁.log.running]; exact h.acting⟩
  have hreach₁ := readable_reach h₁.readable
  have hc₁ : v₁.run (readCurrentLocked r.meeting) = .ok (t, i) :=
    (hf₁.run readOnly_readCurrentLocked fun q hq => not_pdf_of_reviewed hq).trans hc
  have hlaw₁ : Exports v₁ (.file (.put (.folder, .pdfMarker r.meeting.revision)
      (pdfCacheMarker r.meeting.revision (.blob pdf)))) := by
    rw [hpdf]
    exact .pdfMarker r t i h₁.readable h₁.approved hc₁
  refine (does_writeOriginal (p := (.folder, .pdfMarker r.meeting.revision)) (readable_notVoid h₁.readable) hreach₁
    (fun _ => hlaw₁) (fun _ => .synced _ hreach₁) fun _ => .synced _ hreach₁).mono ?_
  rintro out v₂ hw₂
  have hf₂ : Frame (· = ((.folder, .pdfMarker r.meeting.revision) : Path)) v₁ v₂ := hw₂.frame rfl
  have h₂ : Approved v₂ r := ⟨(hf₂.run readOnly_readRecord fun q hq => hq ▸ nofun).trans h₁.readable, h.approved,
    by rw [hf₂.log.running]; exact h₁.acting⟩
  exact ⟨h₂.acting, fun _ => ⟨r, h₂, (hf₂.look (q := (.folder, .pdf r.meeting.revision)) nofun).trans hl₁⟩⟩

theorem readOnly_readReviewedResultsUnlocked : ReadOnly (fun _ => True) readReviewedResultsUnlocked :=
  ReadOnly.bind (readOnly_readRecord.mono fun _ _ => trivial) fun _ => readOnly_readCurrentLocked.mono fun _ _ => trivial

theorem does_generatePdf (h : Approved v r) : Does A Exports (generatePdf r) v fun out v' =>
    running v'.log = some .exportPdf ∧ ∀ pdf, out = .ok pdf → Served v' pdf := by
  refine Does.bind (R := fun out v' => v' = v ∧ ∃ t, out = .ok t) (Does.now fun t _ => ⟨rfl, t, rfl⟩) ?_
    fun _ _ h => by obtain ⟨-, t, ht⟩ := h; cases ht
  rintro t v ⟨rfl, _, ht⟩
  cases ht
  refine Does.bind (R := fun out v' => running v'.log = some .exportPdf ∧ (out = .ok () → Approved v' (r.exporting t))) ?_ ?_
    fun _ _ h => ⟨h.1, nofun⟩
  · have m : Move v r (r.exporting t) := .exporting t h.approved h.acting
    refine Does.bind (does_updateUnder h.readable m rfl (fun hx => .exporting r t h.readable h.approved h.acting
      (m.ok (readable_ok h.readable)) (hx (published_of_approved h.approved)))
      (.synced _ (readable_reach (m.readable h.readable)))) ?_ ?_
    · rintro x v' hu
      cases hu with
      | done b _ => exact .ret ⟨h.acting, fun _ => ⟨m.readable_marked h.readable, h.approved, h.acting⟩⟩
    · rintro e v' hu
      refine ⟨?_, nofun⟩
      cases hu <;> exact h.acting
  rintro ⟨⟩ v₁ ⟨hact₁, h₁⟩
  replace h₁ := h₁ rfl
  refine Does.readThen readOnly_readReviewedResultsUnlocked (fun x hx => ?_) (fun _ _ => ⟨hact₁, nofun⟩)
    fun _ => ⟨hact₁, nofun⟩
  obtain ⟨transcript, insights⟩ := x
  have hc : v₁.run (readCurrentLocked (r.exporting t).meeting) = .ok (transcript, insights) := by
    simp only [readReviewedResultsUnlocked, Prog.bind_eq, run_bind, h₁.readable, ok_bind] at hx
    exact hx
  refine Does.bind does_demand ?_ fun e v ⟨h, _⟩ => ⟨h ▸ hact₁, nofun⟩
  rintro ⟨⟩ v₁ ⟨rfl, -⟩
  refine Does.bind (R := fun out v' => v' = v₁ ∧ out = renderPdf r.meeting transcript insights) (.ofExcept ⟨rfl, rfl⟩) ?_
    fun e v ⟨h, _⟩ => ⟨h ▸ hact₁, nofun⟩
  rintro pdf v₁ ⟨rfl, hpdf⟩
  refine Does.bind does_demand ?_ fun e v ⟨h, _⟩ => ⟨h ▸ hact₁, nofun⟩
  rintro ⟨⟩ v₁ ⟨rfl, -⟩
  have hwrite := does_writePdfCache (A := A) h₁ hc (renderPdf_ok hpdf.symm)
  refine Does.bind hwrite ?_ fun _ _ h => ⟨h.1, nofun⟩
  rintro ⟨⟩ v₂ ⟨hact₂, hs⟩
  refine .ret ⟨hact₂, fun pdf' h' => ?_⟩
  cases h'
  exact hs rfl

/-! ## `GET …/export.pdf` -/

theorem does_buildExportUnlocked (hact : running v.log = some .exportPdf) :
    Does A Exports buildExportUnlocked v fun out v' => ∀ pdf, out = .ok pdf → Served v' pdf := by
  refine Does.readThen readOnly_readRecord (fun r hr => ?_) (fun _ _ => nofun) fun _ => nofun
  refine Does.bind does_demand ?_ fun _ _ _ => nofun
  rintro ⟨⟩ v ⟨rfl, hs⟩
  have h : Approved v r := ⟨hr, by simpa using hs, hact⟩
  refine Does.bind (does_cachedPdf hr) ?_ fun _ _ _ => nofun
  rintro cached v₁ ⟨hf, hc⟩
  have h₁ : Approved v₁ r := ⟨(hf.run readOnly_readRecord fun q hq => by rw [hq]; rintro (h | h) <;> cases h).trans hr,
    h.approved, by rw [hf.log.running]; exact hact⟩
  cases cached with
  | some pdf =>
    refine Does.bind (does_clearExportingStage h₁.acting) ?_ fun _ _ _ => nofun
    rintro ⟨⟩ v₂ hs
    refine .ret fun pdf' h' => ?_
    cases h'
    exact Served.restaged ⟨r, h₁, hc pdf rfl⟩ fun r' hr' => hs r' hr' rfl
  | none =>
    refine Does.ensuring (does_generatePdf h₁) fun out v₂ ⟨hact₂, hserved⟩ => ?_
    refine (does_clearExportingStage hact₂).mono ?_
    rintro (e | ⟨⟩) v₃ hs
    · exact nofun
    · exact fun pdf ho => (hserved pdf ho).restaged fun r' hr' => hs r' hr' rfl

/-- **The export obeys the law**, and does nothing but exporting. -/
theorem does_getExportPdf (hact : running v.log = some .exportPdf) : Does A Exports getExportPdf v fun _ _ => True := by
  refine does_lifecycleLock (fun r b hr _ => ?_) (fun _ _ => trivial) fun _ => trivial
  refine Does.bind (does_buildExportUnlocked hact) ?_ fun _ _ _ => trivial
  rintro pdf v' hs
  obtain ⟨r', hr', hl⟩ := hs pdf rfl
  exact Does.respond (.responded r' pdf hr'.readable hr'.approved hl) trivial

end Tirke
