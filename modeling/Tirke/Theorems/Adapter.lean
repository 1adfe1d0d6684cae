import Tirke.Spec.Adapter
import Tirke.Theorems.Wire
/-!
# The adapter translates faithfully, or not at all

What `_parse_inputs` accepts becomes a bundle that `ResultBundleV1` accepts, with nothing dropped, merged or reordered,
unless a task names somebody whose name `str.strip` shortens: pydantic, which strips it on the way in, does not see the
separators U+001C to U+001F as blanks.
-/

set_option linter.unusedSectionVars false

namespace Tirke

open FirstSeen

/-- Every reference names an utterance. -/
structure Referring (t : PipelineTranscript) (a : PipelineAbstraction) : Prop where
  keyFacts : ∀ i ∈ a.keyFacts, ∀ id ∈ i.sourceUtteranceIds, id ∈ t.utterances.map (·.id)
  decisions : ∀ i ∈ a.decisions, ∀ id ∈ i.sourceUtteranceIds, id ∈ t.utterances.map (·.id)
  tasks : ∀ k ∈ a.tasks, ∀ id ∈ k.sourceUtteranceIds, id ∈ t.utterances.map (·.id)

/-- The three models that are asked for are there. -/
structure Provenanced (t : PipelineTranscript) (a : PipelineAbstraction) (p : PipelineProvenance) : Prop where
  asr : t.asrModel.getD "asr".toList ∈ p.models.map Prod.fst
  diarization : "diarization".toList ∈ p.models.map Prod.fst
  analysis : a.llmModel.getD "analysis".toList ∈ p.models.map Prod.fst

/-- The evidence lists the segments of these utterances, in their order and with their intervals. -/
def Cites (t : PipelineTranscript) (b : ResultBundleV1) (sourceIds : List Str) (evidence : List Evidence) : Prop :=
  List.Forall₂ (fun id e => ∃ (i : Nat) (u : PipelineUtterance) (s : Segment), t.utterances[i]? = some u ∧ u.id = id ∧
    b.transcript.segments[i]? = some s ∧ e = ⟨s.id, u.startMs, u.endMs⟩) sourceIds evidence

section
variable [Lib] [Spelling] (sha : ByteArray → Sha256)

/-- **What a faithful translation is.** -/
structure Faithful (t : PipelineTranscript) (a : PipelineAbstraction) (b : ResultBundleV1) : Prop where
  accepted : ResultBundleV1.validate sha b.dump = some b
  segments : List.Forall₂ (fun u s => s.startMs = u.startMs ∧ s.endMs = u.endMs ∧ s.text = u.text) t.utterances
    b.transcript.segments
  voices : ∀ (i j : Nat) u v s s', t.utterances[i]? = some u → t.utterances[j]? = some v → b.transcript.segments[i]? = some s →
    b.transcript.segments[j]? = some s' → (s.speakerId = s'.speakerId ↔ u.speakerId = v.speakerId)
  numbered : b.transcript.speakers.map (·.speakerId.number) = List.range' 1 b.transcript.speakers.length
  appearance : firstSeen (b.transcript.segments.map (·.speakerId)) = b.transcript.speakerIds
  summary : List.Forall₂ (fun i o => o.text = i.text ∧ Cites t b i.sourceUtteranceIds o.evidence)
    (a.keyFacts ++ a.decisions) b.insights.summary
  tasks : List.Forall₂ (fun k o => o.text = k.action ∧ o.assigneeSpeakerId = none ∧ o.assigneeName = k.responsible ∧
    o.dueDate = k.dueDate ∧ o.dueDateText = k.dueText ∧ Cites t b k.sourceUtteranceIds o.evidence) a.tasks
    b.insights.actionItems
  segmentIds : (b.transcript.segments.map (·.id)).Nodup
  speakerIds : b.transcript.speakerIds.Nodup
  summaryIds : (b.insights.summary.map (·.id)).Nodup
  taskIds : (b.insights.actionItems.map (·.id)).Nodup

end

/-! ## The transcript -/

section
variable {uuid5 : UUID → Str → UUID} {meetingId : UUID} {us : List PipelineUtterance} {s : Adapting}

/-- The transcript after the loop. -/
def transcriptOf (uuid5 : UUID → Str → UUID) (meetingId : UUID) (us : List PipelineUtterance) : TranscriptV1 :=
  ⟨meetingId, 0, (firstSeen (voices us)).map fun l => ⟨voiceId (voices us) l, none, .unreviewed⟩,
    us.map (segmentOf uuid5 meetingId (voices us))⟩

theorem speakerIds_transcriptOf : (transcriptOf uuid5 meetingId us).speakerIds =
    (firstSeen (voices us)).map (voiceId (voices us)) := by
  rw [TranscriptV1.speakerIds, transcriptOf, List.map_map]
  rfl

theorem segmentIds_transcriptOf : (transcriptOf uuid5 meetingId us).segments.map (·.id) =
    (us.map (segmentName ·.id)).map (uuid5 meetingId) := by
  rw [transcriptOf, List.map_map, List.map_map]
  rfl

theorem nodup_speakerIds : (transcriptOf uuid5 meetingId us).speakerIds.Nodup := by
  rw [speakerIds_transcriptOf]
  exact nodup_firstSeen.map_on fun _ hl _ _ h => voiceId_inj (mem_firstSeen.1 hl) h

theorem numbers_transcriptOf : (transcriptOf uuid5 meetingId us).speakers.map (·.speakerId.number) =
    List.range' 1 (transcriptOf uuid5 meetingId us).speakers.length := by
  rw [transcriptOf, List.map_map, List.length_map]
  exact map_rank

/-- The speakers are the voices of the segments, in the order in which they appear. -/
theorem appearance_transcriptOf : firstSeen ((transcriptOf uuid5 meetingId us).segments.map (·.speakerId)) =
    (transcriptOf uuid5 meetingId us).speakerIds := by
  have hsegments : (transcriptOf uuid5 meetingId us).segments.map (·.speakerId) =
      (voices us).map (voiceId (voices us)) := by
    rw [transcriptOf, voices, List.map_map, List.map_map]
    rfl
  rw [hsegments, speakerIds_transcriptOf]
  exact firstSeen_map fun _ hl _ _ h => voiceId_inj hl h

theorem transcriptOf_valid {t : PipelineTranscript} (ht : t.valid = true)
    (hids : ((t.utterances.map (segmentName ·.id)).map (uuid5 meetingId)).Nodup) :
    (transcriptOf uuid5 meetingId t.utterances).valid = true := by
  simp only [PipelineTranscript.valid, Bool.and_eq_true, decide_eq_true_eq, List.all_eq_true] at ht
  obtain ⟨⟨⟨-, hus⟩, -⟩, hstarts⟩ := ht
  simp only [TranscriptV1.valid, Bool.and_eq_true, decide_eq_true_eq, List.all_eq_true]
  refine ⟨⟨⟨⟨⟨?_, ?_⟩, nodup_speakerIds⟩, ?_⟩, ?_⟩, ?_⟩
  · intro speaker hspeaker
    obtain ⟨l, -, rfl⟩ := List.mem_map.1 hspeaker
    rfl
  · intro segment hsegment
    obtain ⟨u, hu, rfl⟩ := List.mem_map.1 hsegment
    exact segmentOf_valid (hus u hu)
  · rw [segmentIds_transcriptOf]
    exact hids
  · intro segment hsegment
    obtain ⟨u, hu, rfl⟩ := List.mem_map.1 hsegment
    rw [speakerIds_transcriptOf]
    exact List.mem_map_of_mem (mem_firstSeen.2 (speaker_mem_voices hu))
  · rw [transcriptOf, List.map_map]
    exact hstarts

theorem nodup_of_transcriptOf (h : (transcriptOf uuid5 meetingId us).valid = true) :
    ((us.map (segmentName ·.id)).map (uuid5 meetingId)).Nodup := by
  simp only [TranscriptV1.valid, Bool.and_eq_true, decide_eq_true_eq] at h
  rw [← segmentIds_transcriptOf]
  exact h.1.1.2

/-- What is cited of an utterance fits its segment. -/
theorem fits_transcriptOf {t : PipelineTranscript} (ht : t.valid = true)
    (hids : ((t.utterances.map (segmentName ·.id)).map (uuid5 meetingId)).Nodup) {sourceIds : List Str} {es : List Evidence}
    (h : List.Forall₂ (CitedAs uuid5 meetingId t.utterances) sourceIds es) :
    es.all (Evidence.fits (transcriptOf uuid5 meetingId t.utterances)) = true := by
  have hn : ((transcriptOf uuid5 meetingId t.utterances).segments.map (·.id)).Nodup := by
    rw [segmentIds_transcriptOf]
    exact hids
  rw [List.all_eq_true]
  intro e he
  obtain ⟨-, -, u, hu, -, rfl⟩ := mem_of_forall₂ h e he
  have hsegment : (transcriptOf uuid5 meetingId t.utterances).segment (uuid5 meetingId (segmentName u.id)) =
      some (segmentOf uuid5 meetingId (voices t.utterances) u) :=
    (segment_iff hn).2 ⟨List.mem_map_of_mem hu, rfl⟩
  have hlt : u.startMs < u.endMs := by
    simp only [PipelineTranscript.valid, PipelineUtterance.valid, Bool.and_eq_true, List.all_eq_true,
      decide_eq_true_eq] at ht
    exact (ht.1.1.2 u hu).2
  simp only [Evidence.fits, hsegment, segmentOf, le_refl, decide_true, Bool.true_and, Bool.and_true]
  exact decide_eq_true hlt

theorem cites_transcriptOf {t : PipelineTranscript} {b : ResultBundleV1}
    (hb : b.transcript = transcriptOf uuid5 meetingId t.utterances) {sourceIds : List Str} {es : List Evidence}
    (h : List.Forall₂ (CitedAs uuid5 meetingId t.utterances) sourceIds es) : Cites t b sourceIds es := by
  refine h.imp ?_
  rintro id e ⟨u, hu, hid, rfl⟩
  obtain ⟨i, hi⟩ := List.mem_iff_getElem?.1 hu
  refine ⟨i, u, segmentOf uuid5 meetingId (voices t.utterances) u, hi, hid, ?_, rfl⟩
  rw [hb, transcriptOf, List.getElem?_map, hi]
  rfl

/-! ## The insights -/

variable {t : PipelineTranscript} {a : PipelineAbstraction}

theorem nodup_names (ht : t.valid = true) : (t.utterances.map (segmentName ·.id)).Nodup := by
  simp only [PipelineTranscript.valid, Bool.and_eq_true, decide_eq_true_eq] at ht
  have := ht.1.2.map segmentName_injective
  rwa [List.map_map] at this

theorem nodup_summaryNames {n m : Nat} :
    ((List.range n).map (summaryName "key-fact") ++ (List.range m).map (summaryName "decision")).Nodup := by
  refine List.nodup_append'.2 ⟨List.nodup_range.map summaryName_injective, List.nodup_range.map summaryName_injective, ?_⟩
  intro name hkey hdecision
  obtain ⟨i, -, rfl⟩ := List.mem_map.1 hkey
  obtain ⟨j, -, heq⟩ := List.mem_map.1 hdecision
  exact key_fact_ne_decision heq.symm

theorem map_summaryName {category : String} {items : List PipelineInsight} {out : List SummaryItem}
    (h : List.Forall₂ (Summarised uuid5 meetingId us category) items.zipIdx out) :
    out.map (·.id) = ((List.range items.length).map (summaryName category)).map (uuid5 meetingId) := by
  have hids := map_eq_of_forall₂ (k := SummaryItem.id) h fun e o he => he.id
  rw [hids, List.range_eq_range', ← List.zipIdx_map_snd, List.map_map, List.map_map]
  rfl

theorem map_taskName {tasks : List PipelineTask} {out : List ActionItem}
    (h : List.Forall₂ (Assigned uuid5 meetingId us) tasks.zipIdx out) :
    out.map (·.id) = ((List.range tasks.length).map taskName).map (uuid5 meetingId) := by
  have hids := map_eq_of_forall₂ (k := fun o : ActionItem => o.id) h fun e o he => he.id
  rw [hids, List.range_eq_range', ← List.zipIdx_map_snd, List.map_map, List.map_map]
  rfl

/-- What the loops over the abstraction leave. -/
structure Insightful (uuid5 : UUID → Str → UUID) (meetingId : UUID) (t : PipelineTranscript) (a : PipelineAbstraction)
    (keyFacts decisions : List SummaryItem) (tasks : List ActionItem) : Prop where
  keyFacts : List.Forall₂ (Summarised uuid5 meetingId t.utterances "key-fact") a.keyFacts.zipIdx keyFacts
  decisions : List.Forall₂ (Summarised uuid5 meetingId t.utterances "decision") a.decisions.zipIdx decisions
  tasks : List.Forall₂ (Assigned uuid5 meetingId t.utterances) a.tasks.zipIdx tasks

variable {keyFacts decisions : List SummaryItem} {tasks : List ActionItem}

theorem Insightful.summarised (h : Insightful uuid5 meetingId t a keyFacts decisions tasks) {o : SummaryItem}
    (ho : o ∈ keyFacts ++ decisions) : ∃ category e, Summarised uuid5 meetingId t.utterances category e o := by
  rcases List.mem_append.1 ho with ho | ho
  · obtain ⟨e, -, he⟩ := mem_of_forall₂ h.keyFacts o ho
    exact ⟨_, e, he⟩
  · obtain ⟨e, -, he⟩ := mem_of_forall₂ h.decisions o ho
    exact ⟨_, e, he⟩

theorem Insightful.ids (h : Insightful uuid5 meetingId t a keyFacts decisions tasks) :
    (keyFacts ++ decisions).map (·.id) = ((List.range a.keyFacts.length).map (summaryName "key-fact") ++
      (List.range a.decisions.length).map (summaryName "decision")).map (uuid5 meetingId) := by
  rw [List.map_append, map_summaryName h.keyFacts, map_summaryName h.decisions, ← List.map_append]

/-- All that is left to be wrong with the insights is their identifiers. -/
theorem Insightful.valid_iff (h : Insightful uuid5 meetingId t a keyFacts decisions tasks) :
    InsightsV1.valid ⟨meetingId, 0, keyFacts ++ decisions, tasks⟩ = true ↔
      ((keyFacts ++ decisions).map (·.id)).Nodup ∧ (tasks.map (·.id)).Nodup := by
  simp only [InsightsV1.valid, Bool.and_eq_true, decide_eq_true_eq, List.all_eq_true]
  refine ⟨fun hv => ⟨hv.1.2, hv.2⟩, fun hn => ⟨⟨⟨?_, ?_⟩, hn.1⟩, hn.2⟩⟩
  · intro o ho
    obtain ⟨category, e, he⟩ := h.summarised ho
    exact he.valid
  · intro o ho
    obtain ⟨e, -, he⟩ := mem_of_forall₂ h.tasks o ho
    exact he.valid

theorem Insightful.summaryIds (h : Insightful uuid5 meetingId t a keyFacts decisions tasks)
    (hid : Set.InjOn (uuid5 meetingId) {name | name ∈ idNames t.utterances a}) :
    ((keyFacts ++ decisions).map (·.id)).Nodup := by
  rw [h.ids]
  refine nodup_ids hid nodup_summaryNames fun name hname => ?_
  show name ∈ idNames t.utterances a
  unfold idNames
  rcases List.mem_append.1 hname with hname | hname <;> simp only [List.mem_append, hname, true_or, or_true]

theorem Insightful.taskIds (h : Insightful uuid5 meetingId t a keyFacts decisions tasks)
    (hid : Set.InjOn (uuid5 meetingId) {name | name ∈ idNames t.utterances a}) : (tasks.map (·.id)).Nodup := by
  rw [map_taskName h.tasks]
  refine nodup_ids hid (List.nodup_range.map taskName_injective) fun name hname => ?_
  show name ∈ idNames t.utterances a
  exact List.mem_append_right _ hname

theorem Insightful.validateAgainst (h : Insightful uuid5 meetingId t a keyFacts decisions tasks) (ht : t.valid = true)
    (hids : ((t.utterances.map (segmentName ·.id)).map (uuid5 meetingId)).Nodup) :
    InsightsV1.validateAgainst ⟨meetingId, 0, keyFacts ++ decisions, tasks⟩ (transcriptOf uuid5 meetingId t.utterances) =
      true := by
  have hsummary : (keyFacts ++ decisions).all (fun item =>
      item.evidence.all (Evidence.fits (transcriptOf uuid5 meetingId t.utterances))) = true := by
    rw [List.all_eq_true]
    intro o ho
    obtain ⟨category, e, he⟩ := h.summarised ho
    exact fits_transcriptOf ht hids he.evidence
  have htasks : tasks.all (fun item =>
      item.evidence.all (Evidence.fits (transcriptOf uuid5 meetingId t.utterances))) = true := by
    rw [List.all_eq_true]
    intro o ho
    obtain ⟨e, -, he⟩ := mem_of_forall₂ h.tasks o ho
    exact fits_transcriptOf ht hids he.evidence
  have hnobody : tasks.all (fun item => item.assigneeSpeakerId.all fun s =>
      s ∈ (transcriptOf uuid5 meetingId t.utterances).speakerIds) = true := by
    rw [List.all_eq_true]
    intro o ho
    obtain ⟨e, -, he⟩ := mem_of_forall₂ h.tasks o ho
    rw [he.assigneeSpeakerId]
    rfl
  have hsame : ¬(meetingId ≠ (transcriptOf uuid5 meetingId t.utterances).meetingId ∨
      0 ≠ (transcriptOf uuid5 meetingId t.utterances).revision) := by
    rw [transcriptOf]
    simp
  rw [InsightsV1.validateAgainst, InsightsV1.inconsistency, if_neg hsame, hsummary, htasks, hnobody]
  rfl

end

/-! ## The bundle -/

section
variable [Lib] [Spelling] {sha : ByteArray → Sha256} {uuid5 : UUID → Str → UUID} {meetingId jobId : UUID}
  {t t' : PipelineTranscript} {a a' : PipelineAbstraction} {p p' : PipelineProvenance}

theorem modelVersion_ok {models : List (Str × PipelineModel)} {name : Option Str} {role : String}
    (h : name.getD role.toList ∈ models.map Prod.fst) :
    ∃ v, modelVersion models name role = .ok v ∧ nonBlank v = true := by
  have hsome : (models.lookup (name.getD role.toList)).isSome = true := by
    rw [List.lookup_isSome_iff]
    obtain ⟨e, he, heq⟩ := List.mem_map.1 h
    exact ⟨e, he, by simp [heq]⟩
  obtain ⟨m, hm⟩ := Option.isSome_iff_exists.1 hsome
  refine ⟨_, by rw [modelVersion, hm]; rfl, ?_⟩
  have hat : isSpace '@' = false := by decide
  simp [nonBlank, hat]

variable (jobId) in
/-- What is hashed is what is validated. -/
theorem signPayload_ok (hlib : Hashes sha) {T : TranscriptV1} {i : InsightsV1} {v : ModelVersions} (hT : T.valid = true)
    (hi : i.valid = true) (hv : v.valid = true) (hc : i.validateAgainst T = true) (hTrev : T.revision = 0)
    (hirev : i.revision = 0) (hedited : T.segments.all (fun s => !s.edited) = true)
    (hstatus : T.speakers.all (fun s => s.identityStatus = .unreviewed) = true) :
    ∃ h, signPayload sha jobId T i v = .ok ⟨jobId, T, i, v, h⟩ ∧
      ResultBundleV1.validate sha (ResultBundleV1.dump ⟨jobId, T, i, v, h⟩) = some ⟨jobId, T, i, v, h⟩ := by
  have hb : ResultBundleV1.valid ⟨jobId, T, i, v, sha (ResultBundleV1.signed ⟨jobId, T, i, v, 0⟩)⟩ = true := by
    rw [ResultBundleV1.valid, hT, hi, hv, hc, hedited, hstatus, hTrev, hirev]
    exact decide_eq_true (hlib.payload _)
  have haccepted := validate_dump hlib hb
  refine ⟨_, ?_, haccepted⟩
  unfold signPayload
  simp only
  erw [haccepted]
  rfl

theorem adaptParsed_faithful (hlib : Hashes sha) (ht : t.valid = true) (ha : a.valid = true) (hrefs : Referring t a)
    (hmodels : Provenanced t a p) (hid : Set.InjOn (uuid5 meetingId) {name | name ∈ idNames t.utterances a})
    (hpad : ∀ k ∈ a.tasks, k.Unpadded) :
    ∃ b, adaptParsed uuid5 meetingId sha jobId t a p = .ok b ∧ Faithful sha t a b := by
  have hparts := ht
  simp only [PipelineTranscript.valid, Bool.and_eq_true, decide_eq_true_eq, List.all_eq_true] at hparts
  obtain ⟨⟨⟨-, hus⟩, hn⟩, -⟩ := hparts
  simp only [PipelineAbstraction.valid, Bool.and_eq_true, List.all_eq_true] at ha
  obtain ⟨⟨⟨⟨⟨hkey, hdecision⟩, htask⟩, -⟩, -⟩, -⟩ := ha
  have hids : ((t.utterances.map (segmentName ·.id)).map (uuid5 meetingId)).Nodup := by
    refine nodup_ids hid (nodup_names ht) fun name hname => ?_
    show name ∈ idNames t.utterances a
    unfold idNames
    simp only [List.mem_append, hname, true_or]
  -- the loops
  obtain ⟨s, hloop, hs⟩ := adapted_run (adapted_nil : Adapted uuid5 meetingId [] {}) hus
  obtain ⟨keyFacts, hkeyFacts, hk⟩ := insights_spec hs hn hus "key-fact" hkey hrefs.keyFacts
  obtain ⟨decisions, hdecisions, hd⟩ := insights_spec hs hn hus "decision" hdecision hrefs.decisions
  obtain ⟨tasks, htasks, hk'⟩ := tasks_spec hs hn hus htask hrefs.tasks hpad
  have hins : Insightful uuid5 meetingId t a keyFacts decisions tasks := ⟨hk, hd, hk'⟩
  obtain ⟨asr, hasr, hblank⟩ := modelVersion_ok hmodels.asr
  obtain ⟨diarization, hdiarization, hblank'⟩ := @modelVersion_ok _ _ _ none _ hmodels.diarization
  obtain ⟨analysis, hanalysis, hblank''⟩ := modelVersion_ok hmodels.analysis
  -- the constructors
  have htranscript : (⟨meetingId, 0, s.speakers, s.segments⟩ : TranscriptV1) = transcriptOf uuid5 meetingId t.utterances := by
    rw [hs.speakers, hs.segments]
    rfl
  have hT := transcriptOf_valid ht hids
  have hI := hins.valid_iff.2 ⟨hins.summaryIds hid, hins.taskIds hid⟩
  have hV : ModelVersions.valid ⟨asr, diarization, analysis⟩ = true := by
    rw [ModelVersions.valid, hblank, hblank', hblank'']
    rfl
  have hedited : (transcriptOf uuid5 meetingId t.utterances).segments.all (fun s => !s.edited) = true := by
    rw [List.all_eq_true]
    intro segment hsegment
    obtain ⟨u, -, rfl⟩ := List.mem_map.1 hsegment
    rfl
  have hstatus : (transcriptOf uuid5 meetingId t.utterances).speakers.all (fun s => s.identityStatus = .unreviewed) =
      true := by
    rw [List.all_eq_true]
    intro speaker hspeaker
    obtain ⟨l, -, rfl⟩ := List.mem_map.1 hspeaker
    rfl
  obtain ⟨h, hsign, haccepted⟩ := signPayload_ok jobId hlib hT hI hV (hins.validateAgainst ht hids) rfl rfl
    hedited hstatus
  refine ⟨⟨jobId, transcriptOf uuid5 meetingId t.utterances, ⟨meetingId, 0, keyFacts ++ decisions, tasks⟩,
    ⟨asr, diarization, analysis⟩, h⟩, ?_, ?_⟩
  · simp only [adaptParsed, hloop, bind, Except.bind, htranscript, build_ok hT, hkeyFacts, hdecisions, htasks, build_ok hI,
      hasr, hdiarization, hanalysis, build_ok hV, hsign]
  · refine ⟨haccepted, ?_, ?_, numbers_transcriptOf, appearance_transcriptOf, ?_, ?_, ?_, nodup_speakerIds,
      hins.summaryIds hid, hins.taskIds hid⟩
    · refine List.forall₂_map_right_iff.2 (List.forall₂_same.2 fun u _ => ⟨rfl, rfl, rfl⟩)
    · intro i j u v x y hu hv hx hy
      simp only [transcriptOf, List.getElem?_map, hu, hv, Option.map_some, Option.some.injEq] at hx hy
      subst hx
      subst hy
      refine ⟨fun heq => voiceId_inj (speaker_mem_voices (List.mem_of_getElem? hu)) heq, fun heq => ?_⟩
      show voiceId _ _ = voiceId _ _
      rw [heq]
    · refine List.rel_append ?_ ?_
      · exact forall₂_zipIdx (hk.imp fun e o he => ⟨he.text, cites_transcriptOf rfl he.evidence⟩)
      · exact forall₂_zipIdx (hd.imp fun e o he => ⟨he.text, cites_transcriptOf rfl he.evidence⟩)
    · exact forall₂_zipIdx (hk'.imp fun e o he => ⟨he.text, he.assigneeSpeakerId, he.assigneeName, he.dueDate,
        he.dueDateText, cites_transcriptOf rfl he.evidence⟩)
    · show ((transcriptOf uuid5 meetingId t.utterances).segments.map (·.id)).Nodup
      rw [segmentIds_transcriptOf]
      exact hids

/-! ## What has no influence -/

/-- Without the fields that are checked and dropped. -/
def PipelineTranscript.bare (t : PipelineTranscript) : PipelineTranscript :=
  { t with audioPath := none, meetingAt := none, timezone := none, participants := [] }

def PipelineInsight.bare (i : PipelineInsight) : PipelineInsight := { i with evidenceQuote := [], needsReview := false }

def PipelineTask.bare (k : PipelineTask) : PipelineTask := { k with evidenceQuote := [], needsReview := false }

def PipelineAbstraction.bare (a : PipelineAbstraction) : PipelineAbstraction :=
  { a with
    keyFacts := a.keyFacts.map PipelineInsight.bare, decisions := a.decisions.map PipelineInsight.bare,
    tasks := a.tasks.map PipelineTask.bare, meetingAt := none, timezone := none, validationWarnings := [] }

/-- Of a model, only the commit is left. -/
def PipelineProvenance.bare (p : PipelineProvenance) : PipelineProvenance :=
  ⟨none, none, p.models.map fun e => (e.1, ⟨[], e.2.sha⟩), none⟩

theorem modelVersion_bare {models : List (Str × PipelineModel)} {name : Option Str} {role : String} :
    modelVersion (models.map fun e => (e.1, ⟨[], e.2.sha⟩)) name role = modelVersion models name role := by
  have hlookup : ∀ key : Str, (models.map fun e => (e.1, (⟨[], e.2.sha⟩ : PipelineModel))).lookup key =
      (models.lookup key).map fun m => ⟨[], m.sha⟩ := by
    intro key
    induction models with
    | nil => rfl
    | cons e models ih =>
      rw [List.map_cons, List.lookup_cons, List.lookup_cons, ih]
      split <;> rfl
  simp only [modelVersion, hlookup]
  cases models.lookup (name.getD role.toList) <;> rfl

theorem adaptInsights_bare {segments : List (Str × Segment)} {category : String} {items : List PipelineInsight} :
    adaptInsights uuid5 meetingId segments category (items.map PipelineInsight.bare) =
      adaptInsights uuid5 meetingId segments category items := by
  unfold adaptInsights
  rw [List.zipIdx_map, List.mapM_map]
  rfl

theorem adaptTasks_bare {segments : List (Str × Segment)} {tasks : List PipelineTask} :
    adaptTasks uuid5 meetingId segments (tasks.map PipelineTask.bare) = adaptTasks uuid5 meetingId segments tasks := by
  unfold adaptTasks
  rw [List.zipIdx_map, List.mapM_map]
  rfl

theorem adaptParsed_bare :
    adaptParsed uuid5 meetingId sha jobId t.bare a.bare p.bare = adaptParsed uuid5 meetingId sha jobId t a p := by
  simp only [adaptParsed, PipelineTranscript.bare, PipelineAbstraction.bare, PipelineProvenance.bare, adaptInsights_bare,
    adaptTasks_bare, modelVersion_bare]

theorem adapt_parsed (ht : t.valid = true) (ha : a.valid = true) (hp : p.valid = true) :
    adaptPipelineResult uuid5 meetingId sha jobId t a p = adaptParsed uuid5 meetingId sha jobId t a p := by
  unfold adaptPipelineResult parseInputs
  rw [ht, ha, hp]
  rfl

theorem unpadded_of_adaptParsed {b : ResultBundleV1} (h : adaptParsed uuid5 meetingId sha jobId t a p = .ok b) :
    ∀ k ∈ a.tasks, k.Unpadded := by
  unfold adaptParsed at h
  obtain ⟨s, -, h⟩ := bind_eq_ok.1 h
  obtain ⟨transcript, -, h⟩ := bind_eq_ok.1 h
  obtain ⟨keyFacts, -, h⟩ := bind_eq_ok.1 h
  obtain ⟨decisions, -, h⟩ := bind_eq_ok.1 h
  obtain ⟨tasks, htasks, -⟩ := bind_eq_ok.1 h
  exact unpadded_of_adaptTasks htasks

/-- **Faithful unless a name is padded.** Of inputs that `_parse_inputs` accepts, with their references and models, the
adapter returns a faithful bundle that what it drops does not influence exactly if no responsible has blanks that
`str.strip` takes and pydantic does not. -/
theorem adapter_faithful (hlib : Hashes sha) (ht : t.valid = true) (ha : a.valid = true) (hp : p.valid = true)
    (hrefs : Referring t a) (hmodels : Provenanced t a p)
    (hid : Set.InjOn (uuid5 meetingId) {name | name ∈ idNames t.utterances a}) :
    ((∃ b, adaptPipelineResult uuid5 meetingId sha jobId t a p = .ok b ∧ Faithful sha t a b) ∧
      ∀ t' a' p', t'.valid = true → a'.valid = true → p'.valid = true →
        t'.bare = t.bare → a'.bare = a.bare → p'.bare = p.bare →
        adaptPipelineResult uuid5 meetingId sha jobId t' a' p' = adaptPipelineResult uuid5 meetingId sha jobId t a p) ↔
      ∀ k ∈ a.tasks, ∀ name ∈ k.responsible, stripBy isSpace name = name := by
  constructor
  · rintro ⟨⟨b, hb, -⟩, -⟩
    rw [adapt_parsed ht ha hp] at hb
    exact unpadded_of_adaptParsed hb
  · intro hpad
    refine ⟨?_, ?_⟩
    · rw [adapt_parsed ht ha hp]
      exact adaptParsed_faithful hlib ht ha hrefs hmodels hid hpad
    · intro t' a' p' ht' ha' hp' heq heq' heq''
      rw [adapt_parsed ht ha hp, adapt_parsed ht' ha' hp', ← adaptParsed_bare, ← adaptParsed_bare (t := t), heq, heq',
        heq'']

end

/-! ## A sample -/

namespace Sample

def utterance : PipelineUtterance := ⟨['u'], 0, 1000, none, ['a']⟩

/-- In another voice. -/
def reply : PipelineUtterance := ⟨['w'], 1000, 2000, some ['v'], ['b']⟩

def pipelineTranscript : PipelineTranscript := ⟨none, none, none, [], none, [utterance, reply]⟩

/-- One task, for somebody. -/
def pipelineAbstraction (responsible : Str) : PipelineAbstraction :=
  ⟨[], [], [⟨['a'], some responsible, none, none, [['u']], ['q'], false⟩], none, none, none, []⟩

def commit : Str := List.replicate 40 '0'

def pipelineProvenance : PipelineProvenance :=
  ⟨none, none, ["asr", "diarization", "analysis"].map fun role => (role.toList, ⟨['r'], commit⟩), none⟩

/-- `uuid.uuid5`, as far as the sample needs it. -/
def uuid5 (_meetingId : UUID) (name : Str) : UUID :=
  if name = segmentName ['u'] then 0xaad33f22585e56a6b9a04ded02ebb959
  else if name = segmentName ['w'] then 0x8a22e758d3cb581a828a97ce44089bd6
  else if name = taskName 0 then 0x0de8d0d90929534dbe39e5d9aff6dd67 else 0

/-- What becomes of it. -/
def adapted : ResultBundleV1 :=
  ⟨9, ⟨2, 0, [⟨⟨1, Nat.one_pos⟩, none, .unreviewed⟩, ⟨⟨2, Nat.two_pos⟩, none, .unreviewed⟩],
      [⟨uuid5 2 (segmentName ['u']), 0, 1000, ⟨1, Nat.one_pos⟩, .unknown, ['a'], false⟩,
        ⟨uuid5 2 (segmentName ['w']), 1000, 2000, ⟨2, Nat.two_pos⟩, .unknown, ['b'], false⟩]⟩,
    ⟨2, 0, [], [⟨⟨uuid5 2 (taskName 0), ['a'], [⟨uuid5 2 (segmentName ['u']), 0, 1000⟩]⟩, none, some "Ivan".toList, none,
      none⟩]⟩,
    ⟨"asr@".toList ++ commit, "diarization@".toList ++ commit, "analysis@".toList ++ commit⟩,
    0x7f580480ca10f7ef7b4ed23a60dcd2074150b22422d56e452434106ee585c585⟩

/-- SHA-256, as far as the sample needs it. -/
def adaptedSha256 (text : ByteArray) : Sha256 := if text = adapted.signed then adapted.resultHash else 0

@[reducible] def adapting : Lib :=
  { lib with sha256 := fun
    | .payload jobId t i v => adaptedSha256 (ResultBundleV1.signed ⟨jobId, t, i, v, 0⟩)
    | .transcript t => adaptedSha256 (canonicalJson t.dump)
    | .insights i => adaptedSha256 (canonicalJson i.dump)
    | .text s => adaptedSha256 (Json.encode s)
    | d => digest d }

attribute [local instance] adapting spelling

theorem adapting_hashes : Hashes adaptedSha256 := ⟨fun _ => rfl, fun _ => rfl, fun _ => rfl, fun _ => rfl⟩

theorem pipelineTranscript_valid : pipelineTranscript.valid = true := by decide

theorem pipelineProvenance_valid : pipelineProvenance.valid = true := by decide +kernel

theorem referring {responsible : Str} : Referring pipelineTranscript (pipelineAbstraction responsible) := by
  refine ⟨by simp [pipelineAbstraction], by simp [pipelineAbstraction], ?_⟩
  intro k hk id hid
  obtain rfl : k = _ := List.mem_singleton.1 hk
  rw [List.mem_singleton.1 hid]
  exact List.mem_cons_self

theorem provenanced {responsible : Str} : Provenanced pipelineTranscript (pipelineAbstraction responsible) pipelineProvenance :=
  ⟨by simp [pipelineTranscript, pipelineProvenance], by simp [pipelineProvenance],
    by simp [pipelineAbstraction, pipelineProvenance]⟩

theorem uuid5_injOn {responsible : Str} :
    Set.InjOn (uuid5 2) {name | name ∈ idNames pipelineTranscript.utterances (pipelineAbstraction responsible)} := by
  have hnames : idNames pipelineTranscript.utterances (pipelineAbstraction responsible) =
      [segmentName ['u'], segmentName ['w'], taskName 0] := rfl
  have hnodup : ([segmentName ['u'], segmentName ['w'], taskName 0].map (uuid5 2)).Nodup := by decide +kernel
  rw [hnames]
  exact fun x hx y hy heq => List.inj_on_of_nodup_map hnodup hx hy heq

end Sample

attribute [local instance] Sample.adapting Sample.spelling

theorem adapter_faithful_sample :
    ∃ b, adaptPipelineResult Sample.uuid5 2 Sample.adaptedSha256 9 Sample.pipelineTranscript
        (Sample.pipelineAbstraction "Ivan".toList) Sample.pipelineProvenance = .ok b ∧
      Faithful Sample.adaptedSha256 Sample.pipelineTranscript (Sample.pipelineAbstraction "Ivan".toList) b := by
  refine ((adapter_faithful Sample.adapting_hashes Sample.pipelineTranscript_valid (by decide +kernel)
    Sample.pipelineProvenance_valid Sample.referring Sample.provenanced Sample.uuid5_injOn).2 ?_).1
  decide +kernel

theorem Sample.adapt_padded :
    adaptPipelineResult Sample.uuid5 2 Sample.adaptedSha256 9 Sample.pipelineTranscript
      (Sample.pipelineAbstraction "\x1cIvan".toList) Sample.pipelineProvenance = .error .validation := by
  rw [adapt_parsed Sample.pipelineTranscript_valid (by decide +kernel) Sample.pipelineProvenance_valid]
  rfl

/-- An information separator before the name: accepted on the way in, and then no `ActionItem`. -/
theorem padded_name_rejected :
    Sample.pipelineTranscript.valid = true ∧ (Sample.pipelineAbstraction "\x1cIvan".toList).valid = true ∧
      Sample.pipelineProvenance.valid = true ∧
      Referring Sample.pipelineTranscript (Sample.pipelineAbstraction "\x1cIvan".toList) ∧
      Provenanced Sample.pipelineTranscript (Sample.pipelineAbstraction "\x1cIvan".toList) Sample.pipelineProvenance ∧
      Set.InjOn (Sample.uuid5 2)
        {name | name ∈ idNames Sample.pipelineTranscript.utterances (Sample.pipelineAbstraction "\x1cIvan".toList)} ∧
      adaptPipelineResult Sample.uuid5 2 Sample.adaptedSha256 9 Sample.pipelineTranscript
        (Sample.pipelineAbstraction "\x1cIvan".toList) Sample.pipelineProvenance = .error .validation := by
  exact ⟨Sample.pipelineTranscript_valid, by decide +kernel, Sample.pipelineProvenance_valid, Sample.referring,
    Sample.provenanced, Sample.uuid5_injOn, Sample.adapt_padded⟩

end Tirke
