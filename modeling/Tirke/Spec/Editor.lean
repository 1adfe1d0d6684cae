import Tirke.Frontend.Editor
import Tirke.Spec.Overlay
/-!
# What the live editor can save

The editor sends every segment it displays, so what `_overlay` makes of its request does not depend on the revision the
draft was derived from: it only needs the segments of the draft to be those of the machine, in its order (`save_displays`).
-/

namespace Tirke

variable {o t t' : TranscriptV1} {i i' : InsightsV1} {d d₀ : ReviewDraft} {q q₀ : ReviewRequest} {s : ReviewSnapshot}
  {meetingId : UUID} {k n : Nat}

/-! ## Drafts -/

/-- What no control of the editor changes of a segment. -/
def Segment.frame (s : Segment) : UUID × Nat × Nat × Language := (s.id, s.startMs, s.endMs, s.language)

/-- The draft has the voices and segments that are displayed, whatever it says about them. -/
structure Derived (d₀ d : ReviewDraft) : Prop where
  speakers : d.speakers.map (·.speakerId) = d₀.speakers.map (·.speakerId)
  segments : d.segments.map Segment.frame = d₀.segments.map Segment.frame

theorem Derived.refl (d : ReviewDraft) : Derived d d := ⟨rfl, rfl⟩

theorem map_patch {α β : Type} {f : α → β} {p : α → Prop} [DecidablePred p] {g : α → α} (h : ∀ x, f (g x) = f x)
    (xs : List α) : (xs.map fun x => if p x then g x else x).map f = xs.map f := by
  rw [List.map_map]
  refine List.map_congr_left fun x _ => ?_
  simp only [Function.comp_apply, apply_ite f, h, ite_self]

theorem Derived.changeSpeaker (h : Derived d₀ d) {id : SpeakerId} {patch : Speaker → Speaker}
    (hp : ∀ s, (patch s).speakerId = s.speakerId) : Derived d₀ (d.changeSpeaker id patch) :=
  ⟨(map_patch hp d.speakers).trans h.speakers, h.segments⟩

theorem Derived.changeSegment (h : Derived d₀ d) {id : UUID} {patch : Segment → Segment}
    (hp : ∀ s, (patch s).frame = s.frame) : Derived d₀ (d.changeSegment id patch) :=
  ⟨h.speakers, (map_patch hp d.segments).trans h.segments⟩

/-- No control adds, removes or moves a voice or a segment. -/
theorem Derived.change (h : Derived d₀ d) (g : Gesture) : Derived d₀ (d.change g) := by
  cases g with
  | identity | speakerName => exact h.changeSpeaker fun _ => rfl
  | segmentSpeaker | segmentText => exact h.changeSegment fun _ => rfl
  | _ => exact ⟨h.speakers, h.segments⟩

/-- **Whatever is done to a draft in the editor**, its voices and segments stay those displayed. -/
theorem derived_changes (gs : List Gesture) (d : ReviewDraft) : Derived d (gs.foldl ReviewDraft.change d) := by
  have hall : ∀ d', Derived d d' → Derived d (gs.foldl ReviewDraft.change d') := by
    induction gs with
    | nil => exact fun d' h => h
    | cons g gs ih => exact fun d' h => ih _ (h.change g)
  exact hall d (.refl d)

/-! ## Overlays keep the frames -/

theorem edit_frame {es : List SegmentEdit} {seg : Segment} : (seg.edit es).frame = seg.frame := by
  unfold Segment.edit
  split <;> rfl

theorem overlay_frame (h : overlay o s = .ok (t, i)) : t.segments.map Segment.frame = o.segments.map Segment.frame := by
  have ht : t = (s.results o).1 := congrArg Prod.fst (overlay_ok h)
  rw [ht]
  simp only [ReviewSnapshot.results, List.map_map]
  exact List.map_congr_left fun seg _ => edit_frame

/-! ## The edits of a draft -/

def Segment.marked (s : Segment) : Segment := { s with edited := true }

theorem ids_of_frame {xs ys : List Segment} (h : xs.map Segment.frame = ys.map Segment.frame) :
    xs.map (·.id) = ys.map (·.id) := by
  have := congrArg (List.map Prod.fst) h
  rwa [List.map_map, List.map_map] at this

/-- Two segments of one frame differ in what an edit tells. -/
theorem marked_of_frame {x y : Segment} (h : x.frame = y.frame) :
    ({ x with text := y.text, speakerId := y.speakerId, edited := true } : Segment) = y.marked := by
  obtain ⟨⟩ := x
  obtain ⟨⟩ := y
  simp only [Segment.frame, Prod.mk.injEq] at h
  obtain ⟨rfl, rfl, rfl, rfl⟩ := h
  rfl

/-- The machine's segments, edited by those of a draft, are those of the draft. -/
theorem map_edit (h : d.segments.map Segment.frame = o.segments.map Segment.frame) (hn : (o.segments.map (·.id)).Nodup) :
    o.segments.map (Segment.edit (d.segments.map Segment.asEdit)) = d.segments.map Segment.marked := by
  have hids : ((d.segments.map Segment.asEdit).map (·.segmentId)).Nodup := by
    rw [List.map_map]
    exact (ids_of_frame h).symm ▸ hn
  have hlen : d.segments.length = o.segments.length := by simpa using congrArg List.length h
  refine List.ext_getElem (by simp [hlen]) fun k hk hk' => ?_
  rw [List.length_map] at hk hk'
  have hframe : o.segments[k].frame = d.segments[k].frame := by
    have := congrArg (fun xs => xs[k]?) h
    simpa [hk, hk'] using this.symm
  have hedited : Edited _ o.segments[k] _ := edited_edit hids
  rw [List.getElem_map, List.getElem_map, hedited.edit d.segments[k].asEdit
    (List.mem_map_of_mem (List.getElem_mem hk')) (congrArg Prod.fst hframe).symm]
  exact marked_of_frame hframe

/-! ## What a save shows -/

/-- The results show the draft, as far as names are trimmed. -/
structure Displays (d : ReviewDraft) (t : TranscriptV1) (i : InsightsV1) : Prop where
  speakers : t.speakers = d.speakers.map Speaker.received
  segments : t.segments = d.segments.map Segment.marked
  summary : i.summary = d.summary
  actionItems : i.actionItems = d.tasks.map ActionItem.trimmed

theorem save_eq_some : d.save n = some q₀ ↔ validateDraft d = none ∧ reviewRequestSchema (d.review n).dump = true ∧
    q₀ = d.review n := by
  unfold ReviewDraft.save
  split
  · next h =>
    simp only [Bool.and_eq_true, Option.isNone_iff_eq_none] at h
    simp only [Option.some.injEq, h, true_and]
    exact eq_comm
  · next h =>
    simp only [Bool.and_eq_true, Option.isNone_iff_eq_none, not_and] at h
    refine iff_of_false nofun fun hc => ?_
    exact h hc.1 hc.2.1

theorem received_eq_some : q₀.received = some q ↔
    q = { q₀ with speakerMappings := q₀.speakerMappings.map Speaker.received } ∧ q.valid = true := by
  simp only [ReviewRequest.received]
  split
  · next h =>
    simp only [Option.some.injEq]
    constructor
    · rintro rfl; exact ⟨rfl, h⟩
    · rintro ⟨rfl, -⟩; rfl
  · next h =>
    refine iff_of_false nofun ?_
    rintro ⟨rfl, hv⟩
    exact h hv

/-- **An accepted save shows the draft**, whichever revision of the machine's results it was derived from. -/
theorem save_displays (hn : (o.segments.map (·.id)).Nodup) (hf : d.segments.map Segment.frame = o.segments.map Segment.frame)
    (hs : d.save n = some q₀) (hq : q₀.received = some q) (ho : overlay o (q.snapshot meetingId k) = .ok (t', i')) :
    Displays d t' i' := by
  obtain ⟨-, -, rfl⟩ := save_eq_some.1 hs
  obtain ⟨rfl, -⟩ := received_eq_some.1 hq
  have hres := overlay_ok ho
  simp only [Prod.ext_iff] at hres
  obtain ⟨rfl, rfl⟩ := hres
  exact ⟨rfl, map_edit hf hn, rfl, rfl⟩

end Tirke
