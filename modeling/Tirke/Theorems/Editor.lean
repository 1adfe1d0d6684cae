import Tirke.Spec.Editor
import Tirke.Theorems.Review
import Tirke.Theorems.Publication
/-!
# Saving from the live editor

A draft that is saved is what readers get, although the editor works on the current revision and the server on the
machine's results. The flags of the segments do not survive this: every segment of a saved revision is marked as edited.
-/

set_option linter.unusedSectionVars false

namespace Tirke

open CrashProg CrashDisk

section
variable [Lib] [Home] {v : View} {r r₀ r' : MeetingRecord} {c c₀ c' : Config} {q q₀ : ReviewRequest}
  {t t' o : TranscriptV1} {i i' : InsightsV1} {d : ReviewDraft} {b : ResultBundleV1}

/-! ## What is displayed -/

/-- The results of the current revision, and what they come from. -/
structure Display (c : Config) (r : MeetingRecord) (b : ResultBundleV1) (t : TranscriptV1) (i : InsightsV1) : Prop where
  readable : c.world.view.run readRecord = .ok r
  content : Content c.world.view r b t i
  valid : b.valid = true
  results : c.world.view.run readResults = .ok (b.transcript, b.insights)
  yields : c.world.yields readReviewedResults (.ok (t, i))

theorem display_of_manifest (h : Reach (Step False) c) (hr : c.world.view.run readRecord = .ok r)
    (hs : r.meeting.status.published = true) (hm : c.world.view.files .manifest ≠ none) : ∃ b t i, Display c r b t i := by
  have hg : Good False c := reach_good (fun _ _ h => h) h
  obtain ⟨d, hd⟩ := Option.ne_none_iff_exists'.1 hm
  obtain ⟨b', hb'⟩ := h.inv.backed.now (inPlay_of_readable hr) r d (files_of_readable hr) hd
  obtain ⟨b, t, i, hc, hb, hres⟩ := h.inv.revised h.undamaged hr hs (hb'.read hr hd)
  refine ⟨b, t, i, hr, hc, hb, hres, ?_⟩
  have hsat := does_readReviewedResults (L := Legal) hr _ rfl hg.fit
  refine (hsat.weaken (fun _ _ _ h => h) fun _ _ _ => trivial).mono ?_
  rintro out w' ⟨-, ho, hv⟩
  exact ⟨ho.trans hc.read, hv⟩

/-- Whatever a reader got is displayed. -/
theorem display_of_read (h : Reach (Step False) c) (hx : c.world.view.run readReviewedResultsUnlocked = .ok (t, i)) :
    ∃ r b, Display c r b t i := by
  have hread := hx
  simp only [readReviewedResultsUnlocked, Prog.bind_eq, run_bind] at hread
  obtain ⟨r, hr, hread⟩ := bind_eq_ok.1 hread
  simp only [readCurrentLocked, Prog.bind_eq, run_bind] at hread
  obtain ⟨_, hs, hread⟩ := bind_eq_ok.1 hread
  obtain ⟨x, hres, -⟩ := bind_eq_ok.1 hread
  rcases h.inv.results h.undamaged hr with ⟨-, hno⟩ | ⟨b', hman, -⟩
  · cases hres.symm.trans hno
  obtain ⟨b, t', i', hd⟩ := display_of_manifest h hr (run_demand_ok.1 hs) hman
  cases hx.symm.trans hd.content.read
  exact ⟨r, b, hd⟩

/-- A meeting with reviews displays the newest. -/
theorem display_of_review (h : Reach (Step False) c) (hr : c.world.view.run readRecord = .ok r)
    (hs : r.meeting.status.published = true) {rest : List ReviewRequest} (hup : updates c.world.view.hist = q :: rest) :
    ∃ b t i, Display c r b t i := by
  refine display_of_manifest h hr hs fun hm => ?_
  have hchain := h.inv.chain hr
  rw [hup] at hchain
  have hrev := (chain_cons hchain).2
  have hfailed : r.meeting.status ≠ .failed := by
    intro hf
    rw [hf] at hs
    cases hs
  have h0 := (h.inv.reviewed.now (inPlay_of_readable hr) r (files_of_readable hr)).machine hfailed (.inr hm)
  omega

namespace Display

/-- The newest review is laid over the machine's results. -/
theorem overlay (h : Reach (Step False) c) (hd : Display c r b t i) {rest : List ReviewRequest}
    (hup : updates c.world.view.hist = q :: rest) : q.baseRevision + 1 = r.meeting.revision ∧
      Tirke.overlay b.transcript (q.snapshot Home.meetingId (q.baseRevision + 1)) = .ok (t, i) := by
  have hchain := h.inv.chain hd.readable
  rw [hup] at hchain
  obtain ⟨hbase, hrev⟩ := chain_cons hchain
  have hq : q.baseRevision + 1 = r.meeting.revision := by omega
  have hr := hd.content.revised
  rw [hup] at hr
  exact ⟨hq, hq ▸ hr⟩

theorem frame (hd : Display c r b t i) : t.segments.map Segment.frame = b.transcript.segments.map Segment.frame := by
  have hr := hd.content.revised
  cases hup : updates c.world.view.hist with
  | nil =>
    rw [hup] at hr
    cases hr
    rfl
  | cons q rest =>
    rw [hup] at hr
    exact overlay_frame hr

theorem ids (hd : Display c r b t i) : (b.transcript.segments.map (·.id)).Nodup := by
  have hvalid := hd.valid
  simp only [ResultBundleV1.valid, Bool.and_eq_true] at hvalid
  exact (valid_iff.1 hvalid.1.1.1.1.1.1.1.1).2.2.2.1

/-- In one attempt there is one machine transcript. -/
theorem same (h : Reach (Step False) c) (hd : Display c r b t i) (hs : Run False c c') {b' : ResultBundleV1}
    (hd' : Display c' r' b' t' i') (ha : r'.meeting.attempt = r.meeting.attempt) : b'.transcript = b.transcript := by
  rcases Run.results h hs hd.readable hd'.readable ha hd.results with he | he
  · exact congrArg Prod.fst (Except.ok.inj (hd'.results.symm.trans he))
  · cases hd'.results.symm.trans he

end Display

/-! ## Put-get -/

/-- What a save has put into the new revision, and kept of the displayed one. -/
structure PutGet (t : TranscriptV1) (d : ReviewDraft) (t' : TranscriptV1) (i' : InsightsV1) : Prop where
  displays : Displays d t' i'
  frame : t'.segments.map Segment.frame = t.segments.map Segment.frame
  revision : t'.revision = t.revision + 1 ∧ i'.revision = t.revision + 1
  /-- What the draft did not touch stays, whoever put it there. -/
  kept : ∀ (k : Nat) (s : Segment), t.segments[k]? = some s → d.segments[k]? = some s → t'.segments[k]? = some s.marked

/-- **Saving is put-get.** A draft of any displayed revision that is saved and accepted is what readers get of the new
revision, as long as it is the current one. -/
theorem saving_is_put_get (h : Reach (Step False) c₀) (hr₀ : c₀.world.view.run readRecord = .ok r₀)
    (hx : c₀.world.view.run readReviewedResultsUnlocked = .ok (t, i)) (hd : Derived (initialDraft t i) d)
    (hs : d.save t.revision = some q₀) (hq : q₀.received = some q) (hrun : Run False c₀ c) (hacc : c.accepts q)
    (hr : c.world.view.run readRecord = .ok r) (ha : r.meeting.attempt = r₀.meeting.attempt) :
    r.meeting.revision = t.revision + 1 ∧ ∃ t' i', PutGet t d t' i' ∧ c.world.yields readReviewedResults (.ok (t', i')) ∧
      ∀ c' r', Run False c.returned c' → c'.world.view.run readRecord = .ok r' →
        r'.meeting.attempt = r.meeting.attempt → r'.meeting.revision = r.meeting.revision →
        r'.meeting.status.published = true → c'.world.yields readReviewedResults (.ok (t', i')) := by
  have hreach : Reach (Step False) c := h.trans hrun
  obtain ⟨-, -, rfl⟩ := save_eq_some.1 hs
  have hbase : q.baseRevision = t.revision := by
    obtain ⟨rfl, -⟩ := received_eq_some.1 hq
    rfl
  -- the update was committed
  obtain ⟨c₁, a, h₁, -, hidle, hval, hperf, hact⟩ := hreach.split hacc.2 (by rw [hacc.1]; nofun)
  cases hacc.1.symm.trans hact
  obtain ⟨r₁, hcom⟩ := accepts_committed h₁ hval hperf hidle hacc.2
  cases hr.symm.trans hcom.readable
  -- what was displayed, and what is
  obtain ⟨r₂, b, hd₀⟩ := display_of_read h hx
  cases hr₀.symm.trans hd₀.readable
  obtain ⟨b', t', i', hd'⟩ := display_of_review hreach hr (by rw [hcom.status]; rfl) hcom.updates
  obtain ⟨hrev, hov⟩ := hd'.overlay hreach hcom.updates
  have hb : b'.transcript = b.transcript := hd₀.same h hrun hd' ha
  have hframe : d.segments.map Segment.frame = b'.transcript.segments.map Segment.frame := by
    rw [hb]
    exact hd.segments.trans hd₀.frame
  have hdisplays : Displays d t' i' := save_displays hd'.ids hframe hs hq hov
  have hresults := overlay_ok hov
  simp only [ReviewSnapshot.results, Prod.ext_iff] at hresults
  refine ⟨by omega, t', i', ⟨hdisplays, ?_, ?_, ?_⟩, hd'.yields, fun c' r' hs' hr' ha' hrev' hpub' => ?_⟩
  · rw [hdisplays.segments, List.map_map]
    exact (List.map_congr_left fun s _ => rfl).trans hd.segments
  · rw [hresults.1, hresults.2]
    exact ⟨congrArg (· + 1) hbase, congrArg (· + 1) hbase⟩
  · intro k s _ hk
    rw [hdisplays.segments, List.getElem?_map, hk]
    rfl
  · have hret : Reach (Step False) c.returned := hreach.trans (.single hacc.step)
    have hreach' : Reach (Step False) c' := hret.trans hs'
    -- the chain has not grown, so it has not changed
    have hsame : updates c'.world.view.hist = updates c.world.view.hist := by
      have hlast := hacc.lasting hreach hr ⟨_, hcom⟩ hs' hr' ha'
      have hl := congrArg List.length (hreach'.inv.chain hr')
      have hl₀ := congrArg List.length (hreach.inv.chain hr)
      simp only [List.length_map, List.length_reverse, List.length_range] at hl hl₀
      exact (hlast.chain.eq_of_length (by omega)).symm
    have hup' := hsame.trans hcom.updates
    obtain ⟨b₂, t₂, i₂, hd₂⟩ := display_of_review hreach' hr' hpub' hup'
    have hov₂ := (hd₂.overlay hreach' hup').2
    rw [hd'.same hreach ((Relation.ReflTransGen.single hacc.step).trans hs') hd₂ ha'] at hov₂
    cases hov.symm.trans hov₂
    exact hd₂.yields

end

section
attribute [local instance] Sample.lib Sample.home

namespace Sample

/-- An identifier of version 4. -/
def segmentId : UUID := BitVec.ofNat 128 (4 * 16 ^ 19 + 8 * 16 ^ 15 + 7)

def spoken : TranscriptV1 := ⟨2, 0, [⟨speaker, none, .unreviewed⟩], [⟨segmentId, 0, 10, speaker, .ru, ['a'], false⟩]⟩

def reviewable : ResultBundleV1 :=
  ⟨9, spoken, insights, versions, digest (.payload 9 spoken insights versions)⟩

/-- The meeting was processed. -/
def displayed : Config := created.cues [.start .processOnce, .play never (answering (gpu reviewable)), .finish]

theorem reach_displayed : Reach (Step False) displayed := reach_created.cues (.inr rfl)

theorem read_displayed : displayed.world.view.run readRecord = .ok (recordOf displayed) ∧
    displayed.world.view.run readReviewedResultsUnlocked = .ok (spoken, insights) ∧
    (recordOf displayed).meeting.attempt = 1 := by decide +kernel

/-- What is saved after these gestures. -/
def drafted (gs : List Gesture) : ReviewDraft := gs.foldl ReviewDraft.change (initialDraft spoken insights)

def requested (gs : List Gesture) : ReviewRequest :=
  let q := (drafted gs).review 0
  { q with speakerMappings := q.speakerMappings.map Speaker.received }

/-- The update is about to return. -/
def saved (gs : List Gesture) : Config :=
  displayed.cues [.start (.updateReview (requested gs)), .play never fun _ _ => .calm]

theorem run_saved (gs : List Gesture) : Run False displayed (saved gs) := run_cues (.inr rfl)

/-- The voice gets a name, and a segment another text. -/
def correcting : List Gesture :=
  [.identity speaker .named, .speakerName speaker [' ', 'n'], .segmentText segmentId ['b']]

theorem save_correcting : (drafted correcting).save 0 = some ((drafted correcting).review 0) ∧
    ((drafted correcting).review 0).received = some (requested correcting) := by decide +kernel

theorem accepts_correcting : (saved correcting).accepts (requested correcting) ∧
    (saved correcting).world.view.run readRecord = .ok (recordOf (saved correcting)) ∧
    (recordOf (saved correcting)).meeting.attempt = 1 :=
  ⟨⟨by decide +kernel, prog_of_returned (by decide +kernel)⟩, by decide +kernel, by decide +kernel⟩

end Sample

theorem saving_is_put_get_sample : ∃ t' i', PutGet Sample.spoken (Sample.drafted Sample.correcting) t' i' ∧
    (Sample.saved Sample.correcting).world.yields readReviewedResults (.ok (t', i')) := by
  obtain ⟨hr₀, hx, ha₀⟩ := Sample.read_displayed
  obtain ⟨hacc, hr, ha⟩ := Sample.accepts_correcting
  obtain ⟨-, t', i', hput, hy, -⟩ := saving_is_put_get Sample.reach_displayed hr₀ hx (derived_changes Sample.correcting _)
    Sample.save_correcting.1 Sample.save_correcting.2 (Sample.run_saved _) hacc hr (ha.trans ha₀.symm)
  exact ⟨t', i', hput, hy⟩

end

/-! ## The flags -/

section
variable [Lib] [Home] {c : Config} {t o : TranscriptV1} {i ins : InsightsV1} {ds : List ReviewDraft}
  {qs : List ReviewRequest}

/-- The drafts that the editor saved, newest first, the requests they were sent as, and what came of the results. -/
inductive Authored (o : TranscriptV1) (ins : InsightsV1) :
    List ReviewDraft → List ReviewRequest → TranscriptV1 → InsightsV1 → Prop where
  | machine : Authored o ins [] [] o ins
  | saved (ds : List ReviewDraft) (qs : List ReviewRequest) (t t' : TranscriptV1) (i i' : InsightsV1) (d : ReviewDraft)
      (q₀ q : ReviewRequest) (h : Authored o ins ds qs t i) (hd : Derived (initialDraft t i) d)
      (hs : d.save t.revision = some q₀) (hq : q₀.received = some q)
      (ho : overlay o (q.snapshot Home.meetingId (t.revision + 1)) = .ok (t', i')) : Authored o ins (d :: ds) (q :: qs) t' i'

/-- The segment says something else than the machine's, or that someone else said it. -/
def Segment.Differs (m s : Segment) : Prop := s.text ≠ m.text ∨ s.speakerId ≠ m.speakerId

/-- The flag of every segment tells whether it differs from the machine's. -/
def FlagsTruthful (o t : TranscriptV1) : Prop := ∀ (k : Nat) (m s : Segment), o.segments[k]? = some m → t.segments[k]? = some s →
  (s.edited = true ↔ m.Differs s)

/-- No segment of the draft is as the machine left it. -/
def RewritesAll (o : TranscriptV1) (d : ReviewDraft) : Prop := ∀ (k : Nat) (m s : Segment),
  o.segments[k]? = some m → d.segments[k]? = some s → m.Differs s

theorem Authored.frame (h : Authored o ins ds qs t i) :
    t.segments.map Segment.frame = o.segments.map Segment.frame := by
  cases h with
  | machine => rfl
  | saved ds qs t₁ t' i₁ i' d q₀ q h hd hs hq ho => exact overlay_frame ho

/-- The machine marks nothing, and a save marks everything. -/
theorem Authored.truthful_iff
    (h : Authored o ins ds qs t i) (hn : (o.segments.map (·.id)).Nodup) (he : ∀ s ∈ o.segments, s.edited = false) :
    FlagsTruthful o t ↔ ∀ d, ds.head? = some d → RewritesAll o d := by
  cases h with
  | machine =>
    refine iff_of_true (fun k m s hm hs => ?_) nofun
    cases hm.symm.trans hs
    rw [he m (List.mem_of_getElem? hm)]
    exact iff_of_false nofun fun hc => hc.elim (fun h => h rfl) fun h => h rfl
  | saved ds qs t₁ t' i₁ i' d q₀ q h hd hs hq ho =>
    have hseg := (save_displays hn (hd.segments.trans h.frame) hs hq ho).segments
    simp only [List.head?_cons, Option.some.injEq, forall_eq']
    constructor
    · intro ht k m s hm hds
      exact (ht k m s.marked hm (by rw [hseg, List.getElem?_map, hds]; rfl)).1 rfl
    · intro hall k m s hm hts
      rw [hseg, List.getElem?_map] at hts
      obtain ⟨s₀, hs₀, rfl⟩ := Option.map_eq_some_iff.1 hts
      exact iff_of_true rfl (hall k m s₀ hm hs₀)

/-- **The flags tell the truth exactly** before the first save, and where the newest draft changed every segment. -/
theorem flags_truthful_iff (h : Reach (Step False) c) (hx : c.world.view.run readReviewedResultsUnlocked = .ok (t, i))
    (hres : c.world.view.run readResults = .ok (o, ins)) {t₁ : TranscriptV1}
    {i₁ : InsightsV1} (ha : Authored o ins ds (updates c.world.view.hist) t₁ i₁) : t₁ = t ∧ i₁ = i ∧
      c.world.yields readReviewedResults (.ok (t, i)) ∧ (FlagsTruthful o t ↔ ∀ d, ds.head? = some d → RewritesAll o d) := by
  obtain ⟨r, b, hd⟩ := display_of_read h hx
  cases hres.symm.trans hd.results
  have hsame : t₁ = t ∧ i₁ = i := by
    generalize hup : updates c.world.view.hist = qs at ha
    cases ha with
    | machine =>
      have hr := hd.content.revised
      rw [hup] at hr
      cases hr
      exact ⟨rfl, rfl⟩
    | saved ds qs t₂ t' i₂ i' d q₀ q h' hd' hs hq ho =>
      have hov := (hd.overlay h hup).2
      have hbase : q.baseRevision = t₂.revision := by
        obtain ⟨-, -, rfl⟩ := save_eq_some.1 hs
        obtain ⟨rfl, -⟩ := received_eq_some.1 hq
        rfl
      rw [hbase] at hov
      cases ho.symm.trans hov
      exact ⟨rfl, rfl⟩
  refine ⟨hsame.1, hsame.2, hd.yields, ?_⟩
  have hflags : ∀ s ∈ b.transcript.segments, s.edited = false := by
    have hvalid := hd.valid
    simp only [ResultBundleV1.valid, Bool.and_eq_true, List.all_eq_true] at hvalid
    exact fun s hs => by simpa using hvalid.1.1.2 s hs
  have hiff := ha.truthful_iff hd.ids hflags
  rw [hsame.1] at hiff
  exact hiff

end

section
attribute [local instance] Sample.lib Sample.home

namespace Sample

/-- Nothing but the voice is judged. -/
def confirming : List Gesture := [.identity speaker .unknown]

/-- What the machine said is marked as edited. -/
def confirmed : TranscriptV1 := ⟨2, 1, [⟨speaker, none, .unknown⟩], [⟨segmentId, 0, 10, speaker, .ru, ['a'], true⟩]⟩

theorem authored_confirming : Authored spoken insights [drafted confirming]
    (updates (saved confirming).world.view.hist) confirmed { insights with revision := 1 } := by
  have hup : updates (saved confirming).world.view.hist = [requested confirming] := by decide +kernel
  have hsave : (drafted confirming).save 0 = some ((drafted confirming).review 0) := by decide +kernel
  rw [hup]
  exact .saved [] [] _ _ _ _ _ _ _ .machine (derived_changes confirming _) hsave (by decide +kernel) (by decide +kernel)

theorem read_confirming : Reach (Step False) (saved confirming) ∧
    (saved confirming).world.view.run readReviewedResultsUnlocked = .ok (confirmed, { insights with revision := 1 }) ∧
    (saved confirming).world.view.run readResults = .ok (spoken, insights) :=
  ⟨reach_displayed.trans (run_saved confirming), by decide +kernel, by decide +kernel⟩

end Sample

/-- A save that changes no text and no speaker marks the segment. -/
theorem confirming_marks : ¬ ∀ (c : Config) (o t t₁ : TranscriptV1) (ins i i₁ : InsightsV1) (ds : List ReviewDraft),
    Reach (Step False) c → c.world.view.run readReviewedResultsUnlocked = .ok (t, i) →
    c.world.view.run readResults = .ok (o, ins) → Authored o ins ds (updates c.world.view.hist) t₁ i₁ →
    FlagsTruthful o t := by
  intro h
  obtain ⟨hreach, hx, hres⟩ := Sample.read_confirming
  have ht := h _ _ _ _ _ _ _ _ hreach hx hres Sample.authored_confirming 0 _ _ rfl rfl
  exact (ht.1 rfl).elim (fun h => h rfl) fun h => h rfl

theorem flags_truthful_iff_sample : ¬ FlagsTruthful Sample.spoken Sample.confirmed := by
  obtain ⟨hreach, hx, hres⟩ := Sample.read_confirming
  intro ht
  have hall := (flags_truthful_iff hreach hx hres Sample.authored_confirming).2.2.2.1 ht _ rfl
  exact (hall 0 _ _ rfl rfl).elim (fun h => h rfl) fun h => h rfl

end

end Tirke
