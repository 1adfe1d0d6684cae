import Tirke.Lib.FirstSeen
import Tirke.Services.PipelineResultAdapter
import Tirke.Spec.Overlay
import Tirke.Spec.Reading
import Mathlib.Data.List.Forall2
/-!
# What the adapter's loops build

After the utterances `done`, the table of voices numbers the labels of `done` by first appearance (`Adapted`). The other
loops are related to their lists item by item.
-/

set_option linter.unusedSectionVars false

namespace Tirke

open FirstSeen

section
variable {ε α β γ : Type} {f : α → Except ε β} {xs : List α} {ys : List β} {R : α → β → Prop}

theorem mapM_exists (h : ∀ x ∈ xs, ∃ y, f x = .ok y ∧ R x y) : ∃ ys, xs.mapM f = .ok ys ∧ List.Forall₂ R xs ys := by
  induction xs with
  | nil => exact ⟨[], rfl, .nil⟩
  | cons x xs ih =>
    obtain ⟨y, hy, hr⟩ := h x List.mem_cons_self
    obtain ⟨ys, hys, hrs⟩ := ih fun x hx => h x (List.mem_cons_of_mem _ hx)
    refine ⟨y :: ys, ?_, .cons hr hrs⟩
    rw [List.mapM_cons, hy, hys]
    rfl

theorem ok_of_mapM (h : xs.mapM f = .ok ys) : ∀ x ∈ xs, ∃ y, f x = .ok y := by
  induction xs generalizing ys with
  | nil => intro x hx; cases hx
  | cons x xs ih =>
    rw [List.mapM_cons] at h
    cases hx : f x with
    | error e => rw [hx] at h; cases h
    | ok y =>
      cases hxs : xs.mapM f with
      | error e => rw [hx, hxs] at h; cases h
      | ok zs =>
        intro x' hx'
        rcases List.mem_cons.1 hx' with rfl | hx'
        · exact ⟨y, hx⟩
        · exact ih hxs x' hx'

/-- A map fails where it fails first. -/
theorem mapM_eq_error {e : ε} : xs.mapM f = .error e ↔
    ∃ before x after, xs = before ++ x :: after ∧ f x = .error e ∧ ∀ x' ∈ before, ∃ y, f x' = .ok y := by
  induction xs with
  | nil =>
    constructor
    · intro h
      cases h
    · rintro ⟨before, x, after, h, -⟩
      cases before <;> cases h
  | cons x xs ih =>
    simp only [List.mapM_cons, List.cons_eq_append_iff]
    cases hx : f x with
    | error e' =>
      constructor
      · intro h
        obtain rfl : e' = e := Except.error.inj h
        exact ⟨[], x, xs, Or.inl ⟨rfl, rfl⟩, hx, by simp⟩
      · rintro ⟨before, x', after, ⟨-, h⟩ | ⟨rest, rfl, -⟩, hx', hbefore⟩
        · obtain ⟨rfl, -⟩ := List.cons.inj h
          rw [hx] at hx'
          rw [Except.error.inj hx']
          rfl
        · obtain ⟨y, hy⟩ := hbefore x List.mem_cons_self
          rw [hx] at hy
          cases hy
    | ok y =>
      have hrest : (Except.ok y >>= fun y => xs.mapM f >>= fun ys => pure (y :: ys)) = Except.error e ↔
          xs.mapM f = .error e := by
        cases xs.mapM f <;> simp [bind, Except.bind, pure, Except.pure]
      rw [hrest, ih]
      constructor
      · rintro ⟨before, x', after, rfl, hx', hbefore⟩
        refine ⟨x :: before, x', after, Or.inr ⟨before, rfl, rfl⟩, hx', ?_⟩
        intro x'' hmem
        rcases List.mem_cons.1 hmem with rfl | hmem
        · exact ⟨y, hx⟩
        · exact hbefore x'' hmem
      · rintro ⟨before, x', after, ⟨-, h⟩ | ⟨rest, rfl, rfl⟩, hx', hbefore⟩
        · obtain ⟨rfl, -⟩ := List.cons.inj h
          rw [hx] at hx'
          cases hx'
        · exact ⟨rest, x', after, rfl, hx', fun z hz => hbefore z (List.mem_cons_of_mem _ hz)⟩

theorem map_eq_of_forall₂ {g : α → γ} {k : β → γ} (h : List.Forall₂ R xs ys) (hr : ∀ x y, R x y → k y = g x) :
    ys.map k = xs.map g := by
  induction h with
  | nil => rfl
  | cons hxy _ ih => rw [List.map_cons, List.map_cons, hr _ _ hxy, ih]

theorem mem_of_forall₂ (h : List.Forall₂ R xs ys) : ∀ y ∈ ys, ∃ x ∈ xs, R x y := by
  induction h with
  | nil => intro y hy; cases hy
  | cons hxy _ ih =>
    intro y hy
    rcases List.mem_cons.1 hy with rfl | hy
    · exact ⟨_, List.mem_cons_self, hxy⟩
    · obtain ⟨x, hx, hr⟩ := ih y hy
      exact ⟨x, List.mem_cons_of_mem _ hx, hr⟩

/-- Items that are numbered on the way are related as items. -/
theorem forall₂_zipIdx {S : α → β → Prop} (h : List.Forall₂ (fun e : α × Nat => S e.1) xs.zipIdx ys) :
    List.Forall₂ S xs ys := by
  have := (List.forall₂_map_left_iff (f := Prod.fst) (R := S)).2 h
  rwa [List.zipIdx_map_fst] at this

theorem build_ok {valid : α → Bool} {x : α} (h : valid x = true) : build valid x = .ok x := if_pos h

theorem of_build {valid : α → Bool} {x y : α} (h : build valid x = .ok y) : valid x = true ∧ x = y := by
  unfold build at h
  split at h
  · next hv => exact ⟨hv, Except.ok.inj h⟩
  · cases h

end

/-! ## The loop over the utterances -/

def voices (us : List PipelineUtterance) : List (Option Str) := us.map (·.speakerId)

def voiceId (labels : List (Option Str)) (label : Option Str) : SpeakerId := ⟨rank labels label, Nat.succ_pos _⟩

variable (uuid5 : UUID → Str → UUID) (meetingId : UUID)

def segmentOf (labels : List (Option Str)) (u : PipelineUtterance) : Segment :=
  ⟨uuid5 meetingId (segmentName u.id), u.startMs, u.endMs, voiceId labels u.speakerId, .unknown, u.text, false⟩

/-- **The loop invariant.** -/
structure Adapted (done : List PipelineUtterance) (s : Adapting) : Prop where
  speakerIds : s.speakerIds = (firstSeen (voices done)).map fun l => (l, voiceId (voices done) l)
  speakers : s.speakers = (firstSeen (voices done)).map fun l => ⟨voiceId (voices done) l, none, .unreviewed⟩
  segments : s.segments = done.map (segmentOf uuid5 meetingId (voices done))
  bySourceId : s.segmentsBySourceId = (done.map fun u => (u.id, segmentOf uuid5 meetingId (voices done) u)).reverse

variable {uuid5 : UUID → Str → UUID} {meetingId : UUID} {done us : List PipelineUtterance} {u : PipelineUtterance}
  {s : Adapting} {labels : List (Option Str)} {label : Option Str}

theorem voiceId_append (h : label ∈ labels) {more : List (Option Str)} :
    voiceId (labels ++ more) label = voiceId labels label := SpeakerId.mk.injEq .. |>.mpr (rank_append h)

theorem voiceId_inj (h : label ∈ labels) {label' : Option Str} (heq : voiceId labels label = voiceId labels label') :
    label = label' := rank_inj h (congrArg SpeakerId.number heq)

theorem voices_concat : voices (done ++ [u]) = voices done ++ [u.speakerId] := by simp [voices]

theorem speaker_mem_voices (h : u ∈ done) : u.speakerId ∈ voices done := List.mem_map_of_mem h

/-- An earlier segment keeps its voice. -/
theorem segmentOf_concat {u' : PipelineUtterance} (h : u' ∈ done) :
    segmentOf uuid5 meetingId (voices (done ++ [u])) u' = segmentOf uuid5 meetingId (voices done) u' := by
  rw [segmentOf, voices_concat, voiceId_append (speaker_mem_voices h)]
  rfl

theorem lookup_voice (h : Adapted uuid5 meetingId done s) : s.speakerIds.lookup label =
    if label ∈ voices done then some (voiceId (voices done) label) else none := by
  rw [h.speakerIds]
  by_cases hl : label ∈ voices done
  · rw [if_pos hl]
    refine Json.lookup_of_mem (f := (label, voiceId (voices done) label)) ?_ ?_
    · rw [List.map_map]
      exact (List.map_id _).symm ▸ nodup_firstSeen
    · exact List.mem_map_of_mem (f := fun l => (l, voiceId (voices done) l)) (mem_firstSeen.2 hl)
  · rw [if_neg hl, List.lookup_eq_none_iff]
    intro e he
    obtain ⟨l, hmem, rfl⟩ := List.mem_map.1 he
    have hne : label ≠ l := fun heq => hl (heq ▸ mem_firstSeen.1 hmem)
    simpa using hne

/-- The utterance's label is in the table afterwards, and nothing else of the state has changed. -/
theorem speaker_spec (h : Adapted uuid5 meetingId done s) : ∃ s', s.speaker u.speakerId =
      .ok (voiceId (voices (done ++ [u])) u.speakerId, s') ∧
    s'.speakerIds = (firstSeen (voices (done ++ [u]))).map (fun l => (l, voiceId (voices (done ++ [u])) l)) ∧
    s'.speakers = (firstSeen (voices (done ++ [u]))).map (fun l => ⟨voiceId (voices (done ++ [u])) l, none, .unreviewed⟩) ∧
    s'.segments = s.segments ∧ s'.segmentsBySourceId = s.segmentsBySourceId := by
  rw [voices_concat]
  unfold Adapting.speaker
  rw [lookup_voice h]
  by_cases hl : u.speakerId ∈ voices done
  · rw [if_pos hl, firstSeen_concat_of_mem hl, voiceId_append hl]
    have hkeep : ∀ l ∈ firstSeen (voices done), voiceId (voices done ++ [u.speakerId]) l = voiceId (voices done) l :=
      fun l hm => voiceId_append (mem_firstSeen.1 hm)
    refine ⟨s, rfl, ?_, ?_, rfl, rfl⟩
    · rw [h.speakerIds]
      exact List.map_congr_left fun l hm => by rw [hkeep l hm]
    · rw [h.speakers]
      exact List.map_congr_left fun l hm => by rw [hkeep l hm]
  · rw [if_neg hl, firstSeen_concat_of_notMem hl]
    have hkeep : ∀ l ∈ firstSeen (voices done), voiceId (voices done ++ [u.speakerId]) l = voiceId (voices done) l :=
      fun l hm => voiceId_append (mem_firstSeen.1 hm)
    have hlen : s.speakerIds.length = (firstSeen (voices done)).length := by rw [h.speakerIds, List.length_map]
    have hnew : (⟨s.speakerIds.length + 1, Nat.succ_pos _⟩ : SpeakerId) =
        voiceId (voices done ++ [u.speakerId]) u.speakerId := by
      refine SpeakerId.mk.injEq .. |>.mpr ?_
      rw [rank_new hl, hlen]
    rw [hnew]
    refine ⟨⟨_, _, s.segments, s.segmentsBySourceId⟩, rfl, ?_, ?_, rfl, rfl⟩
    · rw [List.map_append, List.map_singleton, h.speakerIds, List.append_left_inj]
      exact List.map_congr_left fun l hm => by rw [hkeep l hm]
    · rw [List.map_append, List.map_singleton, h.speakers, List.append_left_inj]
      exact List.map_congr_left fun l hm => by rw [hkeep l hm]

theorem segmentOf_valid (hu : u.valid = true) : (segmentOf uuid5 meetingId labels u).valid = true := by
  simp only [PipelineUtterance.valid, Bool.and_eq_true, decide_eq_true_eq] at hu
  simp only [Segment.valid, segmentOf, hu.1.2, Bool.true_and]
  exact decide_eq_true hu.2

theorem adapted_nil : Adapted uuid5 meetingId [] {} := ⟨rfl, rfl, rfl, rfl⟩

theorem adapted_step (h : Adapted uuid5 meetingId done s) (hu : u.valid = true) :
    ∃ s', s.step uuid5 meetingId u = .ok s' ∧ Adapted uuid5 meetingId (done ++ [u]) s' := by
  obtain ⟨s₁, hspeaker, hids, hspeakers, hsegments, hbyId⟩ := speaker_spec (u := u) h
  have hkeep : done.map (segmentOf uuid5 meetingId (voices (done ++ [u]))) =
      done.map (segmentOf uuid5 meetingId (voices done)) := List.map_congr_left fun u' hm => segmentOf_concat hm
  refine ⟨⟨s₁.speakerIds, s₁.speakers, s₁.segments ++ [segmentOf uuid5 meetingId (voices (done ++ [u])) u],
    (u.id, segmentOf uuid5 meetingId (voices (done ++ [u])) u) :: s₁.segmentsBySourceId⟩, ?_, hids, hspeakers, ?_, ?_⟩
  · unfold Adapting.step
    rw [hspeaker]
    show Except.bind (build Segment.valid (segmentOf uuid5 meetingId (voices (done ++ [u])) u)) _ = _
    rw [build_ok (segmentOf_valid hu)]
    rfl
  · rw [List.map_append, hkeep, hsegments, h.segments]
    rfl
  · have hpairs : (done.map fun u' => (u'.id, segmentOf uuid5 meetingId (voices (done ++ [u])) u')) =
        done.map fun u' => (u'.id, segmentOf uuid5 meetingId (voices done) u') :=
      List.map_congr_left fun u' hm => by rw [segmentOf_concat hm]
    rw [List.map_append, hpairs, List.reverse_append, hbyId, h.bySourceId]
    rfl

/-- Every list of valid utterances is adapted to its end. -/
theorem adapted_run (h : Adapted uuid5 meetingId done s) (hus : ∀ u ∈ us, u.valid = true) :
    ∃ s', us.foldlM (Adapting.step uuid5 meetingId) s = .ok s' ∧ Adapted uuid5 meetingId (done ++ us) s' := by
  induction us generalizing done s with
  | nil =>
    rw [List.append_nil]
    exact ⟨s, rfl, h⟩
  | cons u us ih =>
    obtain ⟨s₁, hstep, h₁⟩ := adapted_step h (hus u List.mem_cons_self)
    obtain ⟨s', hrun, h'⟩ := ih h₁ fun u' hu' => hus u' (List.mem_cons_of_mem _ hu')
    rw [List.append_assoc] at h'
    refine ⟨s', ?_, h'⟩
    rw [List.foldlM_cons, hstep]
    exact hrun

/-! ## What the items cite -/

/-- The evidence is the utterance's segment, from its start to its end. -/
def CitedAs (uuid5 : UUID → Str → UUID) (meetingId : UUID) (us : List PipelineUtterance) (sourceId : Str) (e : Evidence) :
    Prop :=
  ∃ u ∈ us, u.id = sourceId ∧ e = ⟨uuid5 meetingId (segmentName u.id), u.startMs, u.endMs⟩

variable {sourceIds : List Str}

theorem lookup_segment (h : Adapted uuid5 meetingId us s) (hn : (us.map (·.id)).Nodup) (hu : u ∈ us) :
    s.segmentsBySourceId.lookup u.id = some (segmentOf uuid5 meetingId (voices us) u) := by
  rw [h.bySourceId]
  refine Json.lookup_of_mem (f := (u.id, segmentOf uuid5 meetingId (voices us) u)) ?_ ?_
  · rw [List.map_reverse, List.map_map, List.nodup_reverse]
    exact hn
  · rw [List.mem_reverse]
    exact List.mem_map_of_mem (f := fun u => (u.id, segmentOf uuid5 meetingId (voices us) u)) hu

theorem evidence_spec (h : Adapted uuid5 meetingId us s) (hn : (us.map (·.id)).Nodup) (hus : ∀ u ∈ us, u.valid = true)
    (hknown : ∀ id ∈ sourceIds, id ∈ us.map (·.id)) : ∃ es, Adapting.evidenceFor sourceIds s.segmentsBySourceId = .ok es ∧
      List.Forall₂ (CitedAs uuid5 meetingId us) sourceIds es := by
  refine mapM_exists fun id hid => ?_
  obtain ⟨u, hu, rfl⟩ := List.mem_map.1 (hknown id hid)
  have hvalid : Evidence.valid ⟨uuid5 meetingId (segmentName u.id), u.startMs, u.endMs⟩ = true := by
    have := hus u hu
    simp only [PipelineUtterance.valid, Bool.and_eq_true] at this
    exact this.2
  refine ⟨_, ?_, u, hu, rfl, rfl⟩
  rw [lookup_segment h hn hu]
  exact build_ok hvalid

theorem citedAs_valid (hus : ∀ u ∈ us, u.valid = true) {es : List Evidence}
    (h : List.Forall₂ (CitedAs uuid5 meetingId us) sourceIds es) : es.all Evidence.valid = true := by
  rw [List.all_eq_true]
  intro e he
  obtain ⟨-, -, u, hu, -, rfl⟩ := mem_of_forall₂ h e he
  have := hus u hu
  simp only [PipelineUtterance.valid, Bool.and_eq_true] at this
  exact this.2

theorem isEmpty_of_forall₂ {α β : Type} {R : α → β → Prop} {xs : List α} {ys : List β} (h : List.Forall₂ R xs ys) :
    ys.isEmpty = xs.isEmpty := by
  cases h <;> rfl

/-- What becomes of the insight at an index. -/
structure Summarised (uuid5 : UUID → Str → UUID) (meetingId : UUID) (us : List PipelineUtterance) (category : String)
    (e : PipelineInsight × Nat) (o : SummaryItem) : Prop where
  id : o.id = uuid5 meetingId (summaryName category e.2)
  text : o.text = e.1.text
  evidence : List.Forall₂ (CitedAs uuid5 meetingId us) e.1.sourceUtteranceIds o.evidence
  valid : o.valid = true

theorem insight_round (h : Adapted uuid5 meetingId us s) (hn : (us.map (·.id)).Nodup) (hus : ∀ u ∈ us, u.valid = true)
    {category : String} {e : PipelineInsight × Nat} (hi : e.1.valid = true)
    (hknown : ∀ id ∈ e.1.sourceUtteranceIds, id ∈ us.map (·.id)) :
    ∃ o, (Adapting.evidenceFor e.1.sourceUtteranceIds s.segmentsBySourceId).bind (fun evidence =>
        build SummaryItem.valid ⟨uuid5 meetingId (summaryName category e.2), e.1.text, evidence⟩) = .ok o ∧
      Summarised uuid5 meetingId us category e o := by
  obtain ⟨es, hes, hcited⟩ := evidence_spec h hn hus hknown
  simp only [PipelineInsight.valid, validSources, Bool.and_eq_true] at hi
  have hvalid : SummaryItem.valid ⟨uuid5 meetingId (summaryName category e.2), e.1.text, es⟩ = true := by
    simp only [SummaryItem.valid, hi.1.1, isEmpty_of_forall₂ hcited, hi.1.2.1.1, citedAs_valid hus hcited, Bool.and_self]
  refine ⟨_, ?_, rfl, rfl, hcited, hvalid⟩
  rw [hes]
  exact build_ok hvalid

theorem insights_spec (h : Adapted uuid5 meetingId us s) (hn : (us.map (·.id)).Nodup) (hus : ∀ u ∈ us, u.valid = true)
    (category : String) {items : List PipelineInsight} (hitems : ∀ i ∈ items, i.valid = true)
    (hknown : ∀ i ∈ items, ∀ id ∈ i.sourceUtteranceIds, id ∈ us.map (·.id)) :
    ∃ out, adaptInsights uuid5 meetingId s.segmentsBySourceId category items = .ok out ∧
      List.Forall₂ (Summarised uuid5 meetingId us category) items.zipIdx out := by
  refine mapM_exists fun e he => ?_
  have hmem : e.1 ∈ items := List.fst_mem_of_mem_zipIdx he
  exact insight_round h hn hus (hitems e.1 hmem) (hknown e.1 hmem)

/-- What becomes of the task at an index. -/
structure Assigned (uuid5 : UUID → Str → UUID) (meetingId : UUID) (us : List PipelineUtterance) (e : PipelineTask × Nat)
    (o : ActionItem) : Prop where
  id : o.id = uuid5 meetingId (taskName e.2)
  text : o.text = e.1.action
  assigneeSpeakerId : o.assigneeSpeakerId = none
  assigneeName : o.assigneeName = e.1.responsible
  dueDate : o.dueDate = e.1.dueDate
  dueDateText : o.dueDateText = e.1.dueText
  evidence : List.Forall₂ (CitedAs uuid5 meetingId us) e.1.sourceUtteranceIds o.evidence
  valid : o.valid = true

/-- The name is not padded as `str.strip` sees it. -/
def PipelineTask.Unpadded (k : PipelineTask) : Prop := ∀ name ∈ k.responsible, stripBy isSpace name = name

/-- The constructor of a task looks at the padding of the name only. -/
theorem actionItem_valid (hus : ∀ u ∈ us, u.valid = true) {k : PipelineTask} (hk : k.valid = true) (id : UUID)
    {es : List Evidence} (hcited : List.Forall₂ (CitedAs uuid5 meetingId us) k.sourceUtteranceIds es) :
    ActionItem.valid ⟨⟨id, k.action, es⟩, none, k.responsible, k.dueDate, k.dueText⟩ = true ↔ k.Unpadded := by
  simp only [PipelineTask.valid, validSources, Bool.and_eq_true] at hk
  obtain ⟨⟨⟨⟨hact, hname⟩, hdue⟩, ⟨hsome, -⟩, -⟩, -⟩ := hk
  have hitem : SummaryItem.valid ⟨id, k.action, es⟩ = true := by
    simp only [SummaryItem.valid, hact, isEmpty_of_forall₂ hcited, hsome, citedAs_valid hus hcited, Bool.and_self]
  simp only [ActionItem.valid, hitem, hdue, Option.isSome_none, Bool.false_and, Bool.not_false, Bool.true_and,
    Bool.and_true, PipelineTask.Unpadded]
  cases hr : k.responsible with
  | none => simp
  | some name =>
    rw [hr] at hname
    have hp : personName name = true := hname
    simp [hp]

/-- With its references known, a task fails on its name only. -/
theorem task_round (h : Adapted uuid5 meetingId us s) (hn : (us.map (·.id)).Nodup) (hus : ∀ u ∈ us, u.valid = true)
    {e : PipelineTask × Nat} (hknown : ∀ id ∈ e.1.sourceUtteranceIds, id ∈ us.map (·.id)) :
    ∃ es, List.Forall₂ (CitedAs uuid5 meetingId us) e.1.sourceUtteranceIds es ∧
      (Adapting.evidenceFor e.1.sourceUtteranceIds s.segmentsBySourceId).bind (fun evidence =>
        build ActionItem.valid ⟨⟨uuid5 meetingId (taskName e.2), e.1.action, evidence⟩, none, e.1.responsible,
          e.1.dueDate, e.1.dueText⟩) =
        build ActionItem.valid ⟨⟨uuid5 meetingId (taskName e.2), e.1.action, es⟩, none, e.1.responsible, e.1.dueDate,
          e.1.dueText⟩ := by
  obtain ⟨es, hes, hcited⟩ := evidence_spec h hn hus hknown
  refine ⟨es, hcited, ?_⟩
  rw [hes]
  rfl

theorem tasks_spec (h : Adapted uuid5 meetingId us s) (hn : (us.map (·.id)).Nodup) (hus : ∀ u ∈ us, u.valid = true)
    {tasks : List PipelineTask} (htasks : ∀ k ∈ tasks, k.valid = true)
    (hknown : ∀ k ∈ tasks, ∀ id ∈ k.sourceUtteranceIds, id ∈ us.map (·.id)) (hpad : ∀ k ∈ tasks, k.Unpadded) :
    ∃ out, adaptTasks uuid5 meetingId s.segmentsBySourceId tasks = .ok out ∧
      List.Forall₂ (Assigned uuid5 meetingId us) tasks.zipIdx out := by
  refine mapM_exists fun e he => ?_
  have hmem : e.1 ∈ tasks := List.fst_mem_of_mem_zipIdx he
  obtain ⟨es, hcited, hround⟩ := task_round h hn hus (hknown e.1 hmem)
  have hvalid := (actionItem_valid hus (htasks e.1 hmem) (uuid5 meetingId (taskName e.2)) hcited).2 (hpad e.1 hmem)
  exact ⟨_, hround.trans (build_ok hvalid), rfl, rfl, rfl, rfl, rfl, rfl, hcited, hvalid⟩

/-- No task with a padded name gets through. -/
theorem unpadded_of_adaptTasks {segments : List (Str × Segment)} {tasks : List PipelineTask} {out : List ActionItem}
    (h : adaptTasks uuid5 meetingId segments tasks = .ok out) : ∀ k ∈ tasks, k.Unpadded := by
  intro k hk name hname
  rw [← List.zipIdx_map_fst 0 tasks, List.mem_map] at hk
  obtain ⟨e, he, rfl⟩ := hk
  obtain ⟨o, ho⟩ := ok_of_mapM h e he
  obtain ⟨es, -, hbuild⟩ := bind_eq_ok.1 ho
  obtain ⟨hvalid, -⟩ := of_build hbuild
  simp only [ActionItem.valid, Bool.and_eq_true] at hvalid
  have hall := hvalid.1.1.2
  rw [Option.mem_def.1 hname, Option.all_some, Bool.and_eq_true, decide_eq_true_eq] at hall
  exact hall.2

/-! ## The names behind the identifiers -/

/-- What `uuid5` is applied to. -/
def idNames (us : List PipelineUtterance) (a : PipelineAbstraction) : List Str :=
  us.map (segmentName ·.id) ++ (List.range a.keyFacts.length).map (summaryName "key-fact") ++
    (List.range a.decisions.length).map (summaryName "decision") ++ (List.range a.tasks.length).map taskName

theorem segmentName_injective : Function.Injective segmentName := List.append_right_injective _

theorem toDigits_injective : Function.Injective (Nat.toDigits 10) := by
  intro n m h
  rw [← @Nat.ofDigitChars_ten_toDigits n, ← @Nat.ofDigitChars_ten_toDigits m, h]

theorem taskName_injective : Function.Injective taskName := (List.append_right_injective _).comp toDigits_injective

theorem summaryName_injective {category : String} : Function.Injective (summaryName category) := by
  intro n m h
  unfold summaryName at h
  exact toDigits_injective (List.cons.inj (List.append_right_injective _ h)).2

theorem key_fact_ne_decision {n m : Nat} : summaryName "key-fact" n ≠ summaryName "decision" m := by
  intro h
  unfold summaryName at h
  rw [List.append_assoc, List.append_assoc] at h
  have hlen : "key-fact".toList.length = "decision".toList.length := by simp
  have hne : "key-fact" ≠ "decision" := by simp
  exact hne (String.toList_inj.1 (List.append_inj_left (List.append_right_injective _ h) hlen))

/-- Identifiers differ where the names do. -/
theorem nodup_ids {S : Set Str} (hid : Set.InjOn (uuid5 meetingId) S) {names : List Str} (hn : names.Nodup)
    (hS : ∀ name ∈ names, name ∈ S) : (names.map (uuid5 meetingId)).Nodup :=
  List.Nodup.map_on (fun _ hx _ hy h => hid (hS _ hx) (hS _ hy) h) hn

end Tirke
