import Tirke.Spec.Overlay
/-!
# `_overlay` is exact

It refuses a snapshot exactly when the snapshot has one of the flaws of `Flaw`, and changes nothing of the machine's
transcript but what the snapshot says.
-/

namespace Tirke

/-- What `_overlay` returns: the snapshot's mappings and lists, and every segment with its own edit. -/
structure Overlaid (original : TranscriptV1) (s : ReviewSnapshot) (t : TranscriptV1) (i : InsightsV1) : Prop where
  meeting : t.meetingId = original.meetingId ∧ i.meetingId = original.meetingId
  revision : t.revision = s.revision ∧ i.revision = s.revision
  speakers : t.speakers = s.speakerMappings
  segments : List.Forall₂ (Edited s.segmentEdits) original.segments t.segments
  summary : i.summary = s.summary
  actionItems : i.actionItems = s.actionItems
  valid : t.valid = true ∧ i.valid = true
  consistent : i.validateAgainst t = true

theorem Faultless.overlaid {original : TranscriptV1} {s : ReviewSnapshot} (ho : original.valid = true) (hs : s.valid = true)
    (h : Faultless original s) : Overlaid original s (s.results original).1 (s.results original).2 := by
  obtain ⟨hvalid, hcons⟩ := (results_insights_iff ho hs h.voices).2 ⟨h.summary, h.actionItems, h.evidence, h.assignees⟩
  refine ⟨⟨rfl, rfl⟩, ⟨rfl, rfl⟩, rfl, ?_, rfl, rfl, ⟨results_transcript_valid ho hs h.voices h.speakers, hvalid⟩, hcons⟩
  exact List.forall₂_map_right_iff.2 (List.forall₂_same.2 fun seg _ => edited_edit h.edits)

/-- **`_overlay` is exact.** -/
theorem overlay_is_exact (original : TranscriptV1) (s : ReviewSnapshot) (ho : original.valid = true) (hs : s.valid = true) :
    ((∃ e, overlay original s = .error e) ↔ Flaw original s) ∧
    (∀ e, overlay original s = .error e → ∃ message, e = .reviewValidation message) ∧
    ∀ t i, overlay original s = .ok (t, i) → Overlaid original s t i := by
  refine ⟨⟨fun ⟨e, he⟩ => ?_, fun hf => ?_⟩, fun e he => overlay_error he, fun t i h => ?_⟩
  · by_contra hn
    have hok := (overlay_ok_iff ho hs).2 (faultless_iff.2 hn)
    rw [he] at hok
    cases hok
  · cases h : overlay original s with
    | error e => exact ⟨e, rfl⟩
    | ok x =>
      rw [overlay_ok h] at h
      exact absurd hf (faultless_iff.1 ((overlay_ok_iff ho hs).1 h))
  · have hx := overlay_ok h
    rw [hx] at h
    have hover := ((overlay_ok_iff ho hs).1 h).overlaid ho hs
    rw [← hx] at hover
    exact hover

section

/-- Two speakers and one segment of the machine's. -/
def twoVoices : TranscriptV1 :=
  ⟨1, 0, [⟨⟨1, Nat.one_pos⟩, none, .unreviewed⟩, ⟨⟨2, Nat.two_pos⟩, none, .unreviewed⟩],
    [⟨7, 0, 10, ⟨1, Nat.one_pos⟩, .ru, ['a'], false⟩]⟩

/-- Only one of them is mapped. -/
def oneMapped : ReviewSnapshot := ⟨1, 1, [⟨⟨1, Nat.one_pos⟩, none, .unknown⟩], [], [], []⟩

/-- Both are, and the segment is corrected. -/
def corrected : ReviewSnapshot :=
  ⟨1, 1, [⟨⟨1, Nat.one_pos⟩, none, .unknown⟩, ⟨⟨2, Nat.two_pos⟩, some ['n'], .named⟩],
    [⟨7, some ['b'], some ⟨2, Nat.two_pos⟩⟩], [], []⟩

theorem overlay_is_exact_sample : (∃ message, overlay twoVoices oneMapped = .error (.reviewValidation message)) ∧
    ∃ t i, overlay twoVoices corrected = .ok (t, i) ∧ Overlaid twoVoices corrected t i ∧
      t.segments = [⟨7, 0, 10, ⟨2, Nat.two_pos⟩, .ru, ['b'], true⟩] := by
  constructor
  · obtain ⟨hiff, herr, -⟩ := overlay_is_exact twoVoices oneMapped (by decide) (by decide)
    obtain ⟨e, he⟩ := hiff.2 (.voices fun hp => absurd hp.length_eq (by decide))
    obtain ⟨message, rfl⟩ := herr e he
    exact ⟨message, he⟩
  · have hok : overlay twoVoices corrected = .ok (corrected.results twoVoices) := by decide +kernel
    exact ⟨_, _, hok, (overlay_is_exact twoVoices corrected (by decide) (by decide)).2.2 _ _ hok, by decide⟩

end

end Tirke
