import Tirke.Services.Reviews
/-!
# What `_overlay` checks and returns

`Flaw` lists the reasons for which a snapshot cannot be laid over a transcript. The checks `_overlay` makes itself
come first; of what the models validate again afterwards, only the references of the insights can fail
(`results_valid_iff`).
-/

namespace Tirke

variable {original : TranscriptV1} {s : ReviewSnapshot} {es : List SegmentEdit} {seg : Segment}

/-! ## One segment -/

/-- What becomes of a segment: its edit, if it has one, and nothing else. -/
structure Edited (es : List SegmentEdit) (seg seg' : Segment) : Prop where
  edit : ∀ e ∈ es, e.segmentId = seg.id →
    seg' = { seg with text := e.text.getD seg.text, speakerId := e.speakerId.getD seg.speakerId, edited := true }
  same : (∀ e ∈ es, e.segmentId ≠ seg.id) → seg' = seg

@[simp] theorem edit_id : (seg.edit es).id = seg.id := by
  unfold Segment.edit
  split <;> rfl

@[simp] theorem edit_startMs : (seg.edit es).startMs = seg.startMs := by
  unfold Segment.edit
  split <;> rfl

@[simp] theorem edit_endMs : (seg.edit es).endMs = seg.endMs := by
  unfold Segment.edit
  split <;> rfl

/-- Segment ids of the edits are unique, so the first edit of a segment is its only one. -/
theorem find_edit (hn : (es.map (·.segmentId)).Nodup) {e : SegmentEdit} (he : e ∈ es) (hid : e.segmentId = seg.id) :
    es.find? (fun e => decide (e.segmentId = seg.id)) = some e := by
  cases hf : es.find? (fun e => decide (e.segmentId = seg.id)) with
  | none => exact absurd hid (by simpa using List.find?_eq_none.1 hf e he)
  | some e' =>
    have hid' : e'.segmentId = seg.id := by simpa using List.find?_some hf
    rw [List.inj_on_of_nodup_map hn (List.mem_of_find?_eq_some hf) he (hid'.trans hid.symm)]

theorem edited_edit (hn : (es.map (·.segmentId)).Nodup) : Edited es seg (seg.edit es) := by
  refine ⟨fun e he hid => ?_, fun h => ?_⟩
  · unfold Segment.edit
    rw [find_edit hn he hid]
  · have hnone : es.find? (fun e => decide (e.segmentId = seg.id)) = none :=
      List.find?_eq_none.2 fun e he => by simpa using h e he
    unfold Segment.edit
    rw [hnone]

/-- A segment stays valid under valid edits. -/
theorem edit_valid (hv : seg.valid = true) (he : ∀ e ∈ es, e.valid = true) : (seg.edit es).valid = true := by
  simp only [Segment.valid, Bool.and_eq_true, edit_startMs, edit_endMs] at hv ⊢
  refine ⟨?_, hv.2⟩
  unfold Segment.edit
  split
  · next e hf =>
    have hval := he e (List.mem_of_find?_eq_some hf)
    simp only [SegmentEdit.valid, Bool.and_eq_true] at hval
    cases ht : e.text with
    | none => simpa [ht] using hv.1
    | some x => simpa [ht] using hval.1
  · exact hv.1

theorem edit_speaker {voices : List SpeakerId} (hv : seg.speakerId ∈ voices)
    (he : ∀ e ∈ es, ∀ v, e.speakerId = some v → v ∈ voices) : (seg.edit es).speakerId ∈ voices := by
  unfold Segment.edit
  split
  · next e hf =>
    cases hs : e.speakerId with
    | none => simpa [hs] using hv
    | some v => simpa [hs] using he e (List.mem_of_find?_eq_some hf) v hs
  · exact hv

/-! ## Reasons to refuse -/

/-- Every item with evidence, of the summary and of the tasks. -/
def ReviewSnapshot.items (s : ReviewSnapshot) : List SummaryItem := s.summary ++ s.actionItems.map (·.toSummaryItem)

/-- The interval lies in a segment of the transcript with this id. -/
def TranscriptV1.covers (t : TranscriptV1) (e : Evidence) : Prop :=
  ∃ seg ∈ t.segments, seg.id = e.segmentId ∧ seg.startMs ≤ e.startMs ∧ e.endMs ≤ seg.endMs

inductive Flaw (original : TranscriptV1) (s : ReviewSnapshot) : Prop where
  | voices (h : ¬ (s.speakerMappings.map (·.speakerId)).Perm original.speakerIds)
  | duplicate (h : ¬ (s.segmentEdits.map (·.segmentId)).Nodup)
  | segment (e : SegmentEdit) (he : e ∈ s.segmentEdits) (h : ∀ seg ∈ original.segments, seg.id ≠ e.segmentId)
  | speaker (e : SegmentEdit) (he : e ∈ s.segmentEdits) (v : SpeakerId) (hv : e.speakerId = some v)
      (h : v ∉ original.speakerIds)
  | summary (h : ¬ (s.summary.map (·.id)).Nodup)
  | actionItems (h : ¬ (s.actionItems.map (·.id)).Nodup)
  | evidence (item : SummaryItem) (hi : item ∈ s.items) (e : Evidence) (he : e ∈ item.evidence) (h : ¬ original.covers e)
  | assignee (a : ActionItem) (ha : a ∈ s.actionItems) (v : SpeakerId) (hv : a.assigneeSpeakerId = some v)
      (h : v ∉ original.speakerIds)

/-! ## The checks of `_overlay` itself -/

theorem valid_iff {t : TranscriptV1} : t.valid = true ↔ (∀ x ∈ t.speakers, x.valid = true) ∧
    (∀ x ∈ t.segments, x.valid = true) ∧ t.speakerIds.Nodup ∧ (t.segments.map (·.id)).Nodup ∧
    (∀ x ∈ t.segments, x.speakerId ∈ t.speakerIds) ∧ (t.segments.map (·.startMs)).Pairwise (· ≤ ·) := by
  simp only [TranscriptV1.valid, Bool.and_eq_true, List.all_eq_true, decide_eq_true_eq, and_assoc]

/-- Two lists without duplicates and with the same elements. -/
theorem mappings_iff (ho : original.speakerIds.Nodup) : (decide (s.speakerMappings.map (·.speakerId)).Nodup &&
      (s.speakerMappings.map (·.speakerId)).all (fun v => decide (v ∈ original.speakerIds)) &&
      original.speakerIds.all fun v => decide (v ∈ s.speakerMappings.map (·.speakerId))) = true ↔
    (s.speakerMappings.map (·.speakerId)).Perm original.speakerIds := by
  simp only [Bool.and_eq_true, List.all_eq_true, decide_eq_true_eq]
  constructor
  · rintro ⟨⟨hn, h₁⟩, h₂⟩
    exact (List.perm_ext_iff_of_nodup hn ho).2 fun v => ⟨h₁ v, h₂ v⟩
  · intro hp
    exact ⟨⟨hp.nodup_iff.2 ho, fun v hv => hp.mem_iff.1 hv⟩, fun v hv => hp.mem_iff.2 hv⟩

/-! ## What the models validate again -/

theorem segment_iff {t : TranscriptV1} (hn : (t.segments.map (·.id)).Nodup) {id : UUID} :
    t.segment id = some seg ↔ seg ∈ t.segments ∧ seg.id = id := by
  constructor
  · intro h
    exact ⟨List.mem_of_find?_eq_some h, by simpa using List.find?_some h⟩
  · rintro ⟨hm, rfl⟩
    cases hf : t.segment seg.id with
    | none =>
      have hne := List.find?_eq_none.1 hf seg hm
      simp at hne
    | some seg' =>
      have hid : seg'.id = seg.id := by simpa using List.find?_some hf
      rw [List.inj_on_of_nodup_map hn (List.mem_of_find?_eq_some hf) hm hid]

/-- A proper interval fits the transcript exactly when one of its segments covers it. -/
theorem fits_iff {t : TranscriptV1} (hn : (t.segments.map (·.id)).Nodup) {e : Evidence} (he : e.valid = true) :
    e.fits t = true ↔ t.covers e := by
  have hlt : e.startMs < e.endMs := by simpa [Evidence.valid] using he
  unfold Evidence.fits TranscriptV1.covers
  constructor
  · intro h
    split at h
    · next seg hs =>
      simp only [Bool.and_eq_true, decide_eq_true_eq] at h
      obtain ⟨hm, hid⟩ := (segment_iff hn).1 hs
      exact ⟨seg, hm, hid, h.1.1, h.2⟩
    · cases h
  · rintro ⟨seg, hm, hid, h₁, h₂⟩
    rw [(segment_iff hn).2 ⟨hm, hid⟩]
    simp only [Bool.and_eq_true, decide_eq_true_eq]
    exact ⟨⟨h₁, hlt⟩, h₂⟩

theorem insights_valid_iff {i : InsightsV1} : i.valid = true ↔ (∀ x ∈ i.summary, x.valid = true) ∧
    (∀ x ∈ i.actionItems, x.valid = true) ∧ (i.summary.map (·.id)).Nodup ∧ (i.actionItems.map (·.id)).Nodup := by
  simp only [InsightsV1.valid, Bool.and_eq_true, List.all_eq_true, decide_eq_true_eq, and_assoc]

theorem validateAgainst_iff {i : InsightsV1} {t : TranscriptV1} : i.validateAgainst t = true ↔
    (i.meetingId = t.meetingId ∧ i.revision = t.revision) ∧
    ((∀ item ∈ i.summary, ∀ e ∈ item.evidence, e.fits t = true) ∧
      ∀ item ∈ i.actionItems, ∀ e ∈ item.evidence, e.fits t = true) ∧
    ∀ a ∈ i.actionItems, ∀ v, a.assigneeSpeakerId = some v → v ∈ t.speakerIds := by
  have hall : ∀ o : Option SpeakerId, (o.all fun v => decide (v ∈ t.speakerIds)) = true ↔
      ∀ v, o = some v → v ∈ t.speakerIds := by
    intro o
    cases o <;> simp
  unfold InsightsV1.validateAgainst InsightsV1.inconsistency
  split
  · next h =>
    refine iff_of_false (by simp) fun hc => ?_
    exact h.elim (fun h => h hc.1.1) fun h => h hc.1.2
  next h =>
  replace h : i.meetingId = t.meetingId ∧ i.revision = t.revision := by simpa only [not_or, not_not] using h
  split
  · next h₂ =>
    refine iff_of_false (by simp) fun hc => ?_
    simp only [Bool.not_eq_true', Bool.and_eq_false_iff, List.all_eq_false, Bool.not_eq_true] at h₂
    rcases h₂ with ⟨item, hi, e, he, hf⟩ | ⟨item, hi, e, he, hf⟩
    · rw [hc.2.1.1 item hi e he] at hf
      cases hf
    · rw [hc.2.1.2 item hi e he] at hf
      cases hf
  next h₂ =>
  simp only [Bool.not_eq_true', Bool.not_eq_false, Bool.and_eq_true, List.all_eq_true] at h₂
  split
  · next h₃ =>
    refine iff_of_false (by simp) fun hc => ?_
    simp only [Bool.not_eq_true', List.all_eq_false, hall] at h₃
    obtain ⟨a, ha, hno⟩ := h₃
    exact hno (hc.2.2 a ha)
  · next h₃ =>
    simp only [Bool.not_eq_true', Bool.not_eq_false, List.all_eq_true, hall] at h₃
    exact iff_of_true rfl ⟨h, h₂, h₃⟩

/-- Edits move no segment. -/
theorem covers_results {e : Evidence} : (s.results original).1.covers e ↔ original.covers e := by
  simp only [TranscriptV1.covers, ReviewSnapshot.results, List.mem_map]
  constructor
  · rintro ⟨seg', ⟨seg, hm, rfl⟩, hid, h₁, h₂⟩
    exact ⟨seg, hm, by simpa using hid, by simpa using h₁, by simpa using h₂⟩
  · rintro ⟨seg, hm, hid, h₁, h₂⟩
    exact ⟨_, ⟨seg, hm, rfl⟩, by simpa using hid, by simpa using h₁, by simpa using h₂⟩

theorem ids_results : (s.results original).1.segments.map (·.id) = original.segments.map (·.id) := by
  simp only [ReviewSnapshot.results, List.map_map]
  exact List.map_congr_left fun seg _ => edit_id

section
variable (ho : original.valid = true) (hs : s.valid = true)
include ho hs

/-- Once `_overlay` has made its own checks, the transcript is valid. -/
theorem results_transcript_valid (hp : (s.speakerMappings.map (·.speakerId)).Perm original.speakerIds)
    (hv : ∀ e ∈ s.segmentEdits, ∀ v, e.speakerId = some v → v ∈ original.speakerIds) :
    (s.results original).1.valid = true := by
  obtain ⟨-, hseg, hno, hids, hrefs, hstarts⟩ := valid_iff.1 ho
  simp only [ReviewSnapshot.valid, Bool.and_eq_true, List.all_eq_true] at hs
  obtain ⟨⟨⟨⟨-, hspeakers⟩, hedits⟩, -⟩, -⟩ := hs
  refine valid_iff.2 ⟨hspeakers, ?_, hp.nodup_iff.2 hno, ?_, ?_, ?_⟩
  · intro x hx
    obtain ⟨seg, hm, rfl⟩ := List.mem_map.1 hx
    exact edit_valid (hseg seg hm) hedits
  · rw [ids_results]
    exact hids
  · intro x hx
    obtain ⟨seg, hm, rfl⟩ := List.mem_map.1 hx
    exact hp.mem_iff.2 (edit_speaker (hrefs seg hm) hv)
  · have hmap : (s.results original).1.segments.map (·.startMs) = original.segments.map (·.startMs) := by
      simp only [ReviewSnapshot.results, List.map_map]
      exact List.map_congr_left fun seg _ => edit_startMs
    rw [hmap]
    exact hstarts

/-- The insights are consistent with it exactly when their references are. -/
theorem results_insights_iff (hp : (s.speakerMappings.map (·.speakerId)).Perm original.speakerIds) :
    ((s.results original).2.valid = true ∧ (s.results original).2.validateAgainst (s.results original).1 = true) ↔
      (s.summary.map (·.id)).Nodup ∧ (s.actionItems.map (·.id)).Nodup ∧
      (∀ item ∈ s.items, ∀ e ∈ item.evidence, original.covers e) ∧
      ∀ a ∈ s.actionItems, ∀ v, a.assigneeSpeakerId = some v → v ∈ original.speakerIds := by
  obtain ⟨-, -, -, hids, -⟩ := valid_iff.1 ho
  simp only [ReviewSnapshot.valid, Bool.and_eq_true, List.all_eq_true] at hs
  obtain ⟨⟨⟨⟨-, -⟩, -⟩, hsum⟩, hact⟩ := hs
  have hids' : ((s.results original).1.segments.map (·.id)).Nodup := by
    rw [ids_results]
    exact hids
  have hev : ∀ {item : SummaryItem}, item.valid = true → ∀ e ∈ item.evidence,
      (e.fits (s.results original).1 = true ↔ original.covers e) := by
    intro item hi e he
    simp only [SummaryItem.valid, Bool.and_eq_true, List.all_eq_true] at hi
    exact (fits_iff hids' (hi.2 e he)).trans covers_results
  have hbase : ∀ a ∈ s.actionItems, a.toSummaryItem.valid = true := by
    intro a ha
    have h := hact a ha
    simp only [ActionItem.valid, Bool.and_eq_true] at h
    exact h.1.1.1
  have hvoice : ∀ v, v ∈ (s.results original).1.speakerIds ↔ v ∈ original.speakerIds := fun v => hp.mem_iff
  rw [insights_valid_iff, validateAgainst_iff]
  constructor
  · rintro ⟨⟨-, -, hn, hn'⟩, -, ⟨he, he'⟩, ha⟩
    refine ⟨hn, hn', fun item hi e hie => ?_, fun a hm v hv => (hvoice v).1 (ha a hm v hv)⟩
    rcases List.mem_append.1 hi with hi | hi
    · exact (hev (hsum item hi) e hie).1 (he item hi e hie)
    · obtain ⟨a, hm, rfl⟩ := List.mem_map.1 hi
      exact (hev (hbase a hm) e hie).1 (he' a hm e hie)
  · rintro ⟨hn, hn', he, ha⟩
    refine ⟨⟨hsum, hact, hn, hn'⟩, ⟨rfl, rfl⟩, ⟨fun item hi e hie => ?_, fun a hm e hie => ?_⟩,
      fun a hm v hv => (hvoice v).2 (ha a hm v hv)⟩
    · exact (hev (hsum item hi) e hie).2 (he item (List.mem_append_left _ hi) e hie)
    · exact (hev (hbase a hm) e hie).2 (he _ (List.mem_append_right _ (List.mem_map_of_mem hm)) e hie)

end

/-! ## `_overlay` as a whole -/

theorem overlay_ok {x : TranscriptV1 × InsightsV1} (h : overlay original s = .ok x) : x = s.results original := by
  simp only [overlay] at h
  split at h
  · cases h
  split at h
  · cases h
  split at h
  · cases h
  split at h
  · cases h
  split at h
  · exact (Except.ok.inj h).symm
  · cases h

/-- It raises nothing but `ReviewValidationError`. -/
theorem overlay_error {e : Exn} (h : overlay original s = .error e) : ∃ message, e = .reviewValidation message := by
  simp only [overlay] at h
  split at h
  · exact ⟨_, (Except.error.inj h).symm⟩
  split at h
  · exact ⟨_, (Except.error.inj h).symm⟩
  split at h
  · exact ⟨_, (Except.error.inj h).symm⟩
  split at h
  · exact ⟨_, (Except.error.inj h).symm⟩
  split at h
  · cases h
  · exact ⟨_, (Except.error.inj h).symm⟩

/-- What has passed every check. -/
structure Faultless (original : TranscriptV1) (s : ReviewSnapshot) : Prop where
  voices : (s.speakerMappings.map (·.speakerId)).Perm original.speakerIds
  edits : (s.segmentEdits.map (·.segmentId)).Nodup
  segments : ∀ e ∈ s.segmentEdits, ∃ seg ∈ original.segments, seg.id = e.segmentId
  speakers : ∀ e ∈ s.segmentEdits, ∀ v, e.speakerId = some v → v ∈ original.speakerIds
  summary : (s.summary.map (·.id)).Nodup
  actionItems : (s.actionItems.map (·.id)).Nodup
  evidence : ∀ item ∈ s.items, ∀ e ∈ item.evidence, original.covers e
  assignees : ∀ a ∈ s.actionItems, ∀ v, a.assigneeSpeakerId = some v → v ∈ original.speakerIds

theorem faultless_iff : Faultless original s ↔ ¬ Flaw original s := by
  constructor
  · intro h hf
    cases hf with
    | voices hn => exact hn h.voices
    | duplicate hn => exact hn h.edits
    | segment e he hn =>
      obtain ⟨seg, hm, hid⟩ := h.segments e he
      exact hn seg hm hid
    | speaker e he v hv hn => exact hn (h.speakers e he v hv)
    | summary hn => exact hn h.summary
    | actionItems hn => exact hn h.actionItems
    | evidence item hi e he hn => exact hn (h.evidence item hi e he)
    | assignee a ha v hv hn => exact hn (h.assignees a ha v hv)
  · intro h
    refine ⟨?_, ?_, fun e he => ?_, fun e he v hv => ?_, ?_, ?_, fun item hi e he => ?_, fun a ha v hv => ?_⟩
    · by_contra hn; exact h (.voices hn)
    · by_contra hn; exact h (.duplicate hn)
    · by_contra hn; exact h (.segment e he fun seg hm hid => hn ⟨seg, hm, hid⟩)
    · by_contra hn; exact h (.speaker e he v hv hn)
    · by_contra hn; exact h (.summary hn)
    · by_contra hn; exact h (.actionItems hn)
    · by_contra hn; exact h (.evidence item hi e he hn)
    · by_contra hn; exact h (.assignee a ha v hv hn)

/-- **`_overlay` succeeds exactly on what has no flaw.** -/
theorem overlay_ok_iff (ho : original.valid = true) (hs : s.valid = true) :
    overlay original s = .ok (s.results original) ↔ Faultless original s := by
  obtain ⟨-, -, hno, -⟩ := valid_iff.1 ho
  simp only [overlay]
  split
  · next h =>
    refine iff_of_false nofun fun hf => ?_
    rw [(mappings_iff hno).2 hf.voices] at h
    cases h
  next h =>
  have hp : (s.speakerMappings.map (·.speakerId)).Perm original.speakerIds := by
    rw [Bool.not_eq_true', Bool.not_eq_false] at h
    exact (mappings_iff hno).1 h
  split
  · next h =>
    refine iff_of_false nofun fun hf => ?_
    rw [decide_eq_true hf.edits] at h
    cases h
  next hd =>
  replace hd : (s.segmentEdits.map (·.segmentId)).Nodup := by simpa using hd
  split
  · next h =>
    refine iff_of_false nofun fun hf => ?_
    simp only [Bool.not_eq_true', List.all_eq_false, List.mem_map, decide_eq_true_eq] at h
    obtain ⟨_, ⟨e, he, rfl⟩, hn⟩ := h
    exact hn (hf.segments e he)
  next hseg =>
  simp only [Bool.not_eq_true', Bool.not_eq_false, List.all_eq_true, List.mem_map, decide_eq_true_eq] at hseg
  split
  · next h =>
    refine iff_of_false nofun fun hf => ?_
    simp only [List.any_eq_true] at h
    obtain ⟨e, he, hv⟩ := h
    cases hs : e.speakerId with
    | none => rw [hs] at hv; cases hv
    | some v => simp [hs, hf.speakers e he v hs] at hv
  next hspk =>
  have hv : ∀ e ∈ s.segmentEdits, ∀ v, e.speakerId = some v → v ∈ original.speakerIds := by
    intro e he v hev
    by_contra hn
    exact hspk (List.any_eq_true.2 ⟨e, he, by simp [hev, hn]⟩)
  have hins := results_insights_iff ho hs hp
  rw [results_transcript_valid ho hs hp hv, Bool.true_and]
  split
  · next h =>
    obtain ⟨h₁, h₂, h₃, h₄⟩ := hins.1 (by simpa using h)
    exact iff_of_true rfl ⟨hp, hd, fun e he => hseg _ ⟨e, he, rfl⟩, hv, h₁, h₂, h₃, h₄⟩
  · next h =>
    refine iff_of_false nofun fun hf => h ?_
    rw [Bool.and_eq_true]
    exact hins.2 ⟨hf.summary, hf.actionItems, hf.evidence, hf.assignees⟩

end Tirke
