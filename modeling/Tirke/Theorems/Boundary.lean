import Tirke.Theorems.Adapter
/-!
# What gets past the adapter's error boundary

Only the first parse and the last validation are wrapped. Of the constructors in between (`:223`–`:299`) those of the
speakers, segments, evidence, summary items and model versions never fail; a task's fails on a padded name, and those of
the transcript and the insights where `uuid5` collides.
-/

set_option linter.unusedSectionVars false

namespace Tirke

def Uttered (t : PipelineTranscript) (sourceIds : List Str) : Prop := ∀ id ∈ sourceIds, id ∈ t.utterances.map (·.id)

/-- **How a `ValidationError` escapes** from inputs that `_parse_inputs` accepts: two segments have one identifier, or the
first task that fails has a padded name, or two items have one identifier and nothing failed before. -/
inductive Escapes (uuid5 : UUID → Str → UUID) (meetingId : UUID) (t : PipelineTranscript) (a : PipelineAbstraction) : Prop
  | segments (h : ¬((t.utterances.map (segmentName ·.id)).map (uuid5 meetingId)).Nodup)
  | padded (hinsights : ∀ i ∈ a.keyFacts ++ a.decisions, Uttered t i.sourceUtteranceIds)
      (before after : List PipelineTask) (k : PipelineTask) (htasks : a.tasks = before ++ k :: after)
      (hbefore : ∀ k' ∈ before, Uttered t k'.sourceUtteranceIds ∧ k'.Unpadded) (hknown : Uttered t k.sourceUtteranceIds)
      (hpad : ¬k.Unpadded)
  | items (hrefs : Referring t a) (hpad : ∀ k ∈ a.tasks, k.Unpadded)
      (h : ¬((((List.range a.keyFacts.length).map (summaryName "key-fact") ++
          (List.range a.decisions.length).map (summaryName "decision")).map (uuid5 meetingId)).Nodup ∧
        (((List.range a.tasks.length).map taskName).map (uuid5 meetingId)).Nodup))

/-! ## One round of a loop -/

/-- What `_evidence_for` raises. -/
def unknownSegment : AdapterError := .adapter "Insight references an unknown transcript segment"

section
variable {uuid5 : UUID → Str → UUID} {meetingId : UUID} {t : PipelineTranscript} {a : PipelineAbstraction}
  {s : Adapting} {sourceIds : List Str}

/-- A loop whose rounds fail in one way fails in that way. -/
theorem mapM_fails {ε α β : Type} {f : α → Except ε β} {xs : List α} {e : ε} {P : α → Prop}
    (hok : ∀ x ∈ xs, P x → ∃ y, f x = .ok y) (herror : ∀ x ∈ xs, ¬P x → f x = .error e) (h : ¬∀ x ∈ xs, P x) :
    xs.mapM f = .error e := by
  cases hrun : xs.mapM f with
  | ok ys =>
    refine absurd (fun x hx => ?_) h
    by_contra hP
    obtain ⟨y, hy⟩ := ok_of_mapM hrun x hx
    rw [herror x hx hP] at hy
    cases hy
  | error e' =>
    obtain ⟨before, x, after, rfl, hx, -⟩ := mapM_eq_error.1 hrun
    have hmem : x ∈ before ++ x :: after := by simp
    by_cases hP : P x
    · obtain ⟨y, hy⟩ := hok x hmem hP
      rw [hx] at hy
      cases hy
    · rw [herror x hmem hP] at hx
      rw [Except.error.inj hx]

theorem valid_utterances (ht : t.valid = true) :
    (∀ u ∈ t.utterances, u.valid = true) ∧ (t.utterances.map (·.id)).Nodup := by
  simp only [PipelineTranscript.valid, Bool.and_eq_true, decide_eq_true_eq, List.all_eq_true] at ht
  exact ⟨ht.1.1.2, ht.1.2⟩

theorem evidence_unknown (ht : t.valid = true) (h : Adapted uuid5 meetingId t.utterances s) (hu : ¬Uttered t sourceIds) :
    Adapting.evidenceFor sourceIds s.segmentsBySourceId = .error unknownSegment := by
  obtain ⟨hus, hn⟩ := valid_utterances ht
  have hmissing : ¬∀ id ∈ sourceIds, id ∈ t.utterances.map (·.id) := hu
  unfold Adapting.evidenceFor
  refine mapM_fails ?_ ?_ hmissing
  · intro id _ hknown
    have hone : ∀ id' ∈ [id], id' ∈ t.utterances.map (·.id) := by
      intro id' hid'
      rw [List.mem_singleton.1 hid']
      exact hknown
    obtain ⟨es, hes, -⟩ := evidence_spec h hn hus hone
    exact ok_of_mapM hes id List.mem_cons_self
  · intro id _ hunknown
    have hnone : s.segmentsBySourceId.lookup id = none := by
      rw [h.bySourceId, List.lookup_eq_none_iff]
      intro e he
      obtain ⟨u, hu, rfl⟩ := List.mem_map.1 (List.mem_reverse.1 he)
      have hne : id ≠ u.id := fun heq => hunknown (heq ▸ List.mem_map_of_mem (f := (·.id)) hu)
      simpa using hne
    rw [hnone]
    rfl

theorem insights_unknown (ht : t.valid = true) (h : Adapted uuid5 meetingId t.utterances s) {category : String}
    {items : List PipelineInsight} (hitems : ∀ i ∈ items, i.valid = true)
    (hu : ¬∀ i ∈ items, Uttered t i.sourceUtteranceIds) :
    adaptInsights uuid5 meetingId s.segmentsBySourceId category items = .error unknownSegment := by
  obtain ⟨hus, hn⟩ := valid_utterances ht
  unfold adaptInsights
  refine mapM_fails (P := fun e : PipelineInsight × Nat => Uttered t e.1.sourceUtteranceIds) ?_ ?_ ?_
  · intro e he hknown
    have hmem : e.1 ∈ items := List.fst_mem_of_mem_zipIdx he
    obtain ⟨o, ho, -⟩ := insight_round h hn hus (hitems e.1 hmem) hknown
    exact ⟨o, ho⟩
  · intro e _ hunknown
    show Except.bind (Adapting.evidenceFor e.1.sourceUtteranceIds s.segmentsBySourceId) _ = _
    rw [evidence_unknown ht h hunknown]
    rfl
  · intro hall
    refine hu fun i hi => ?_
    rw [← List.zipIdx_map_fst 0 items, List.mem_map] at hi
    obtain ⟨e, he, rfl⟩ := hi
    exact hall e he

/-- A task with its references known is built or refused for its name; one without is refused for its reference. -/
theorem task_outcome (ht : t.valid = true) (h : Adapted uuid5 meetingId t.utterances s) {e : PipelineTask × Nat}
    (hk : e.1.valid = true) {outcome : Except AdapterError ActionItem}
    (houtcome : outcome = (Adapting.evidenceFor e.1.sourceUtteranceIds s.segmentsBySourceId).bind fun evidence =>
      build ActionItem.valid ⟨⟨uuid5 meetingId (taskName e.2), e.1.action, evidence⟩, none, e.1.responsible, e.1.dueDate,
        e.1.dueText⟩) :
    ((∃ o, outcome = .ok o) ↔ Uttered t e.1.sourceUtteranceIds ∧ e.1.Unpadded) ∧
      (outcome = .error .validation ↔ Uttered t e.1.sourceUtteranceIds ∧ ¬e.1.Unpadded) := by
  obtain ⟨hus, hn⟩ := valid_utterances ht
  by_cases hknown : Uttered t e.1.sourceUtteranceIds
  · obtain ⟨es, hcited, hround⟩ := task_round h hn hus hknown
    have hvalid := actionItem_valid hus hk (uuid5 meetingId (taskName e.2)) hcited
    rw [houtcome, hround]
    by_cases hpad : e.1.Unpadded
    · rw [build_ok (hvalid.2 hpad)]
      simp [hknown, hpad]
    · have hfalse : build ActionItem.valid ⟨⟨uuid5 meetingId (taskName e.2), e.1.action, es⟩, none, e.1.responsible,
          e.1.dueDate, e.1.dueText⟩ = .error .validation := if_neg fun hv => hpad (hvalid.1 hv)
      rw [hfalse]
      simp [hknown, hpad]
  · rw [houtcome, evidence_unknown ht h hknown]
    simp [hknown, unknownSegment]

theorem tasks_outcome (ht : t.valid = true) (h : Adapted uuid5 meetingId t.utterances s) {tasks : List PipelineTask}
    (htasks : ∀ k ∈ tasks, k.valid = true) :
    ((∃ out, adaptTasks uuid5 meetingId s.segmentsBySourceId tasks = .ok out) ↔
        ∀ k ∈ tasks, Uttered t k.sourceUtteranceIds ∧ k.Unpadded) ∧
      (adaptTasks uuid5 meetingId s.segmentsBySourceId tasks = .error .validation ↔
        ∃ before k after, tasks = before ++ k :: after ∧
          (∀ k' ∈ before, Uttered t k'.sourceUtteranceIds ∧ k'.Unpadded) ∧ Uttered t k.sourceUtteranceIds ∧ ¬k.Unpadded) := by
  have hitem : ∀ e ∈ tasks.zipIdx, e.1.valid = true := fun e he => htasks e.1 (List.fst_mem_of_mem_zipIdx he)
  refine ⟨⟨?_, ?_⟩, ?_⟩
  · rintro ⟨out, hout⟩ k hk
    rw [← List.zipIdx_map_fst 0 tasks, List.mem_map] at hk
    obtain ⟨e, he, rfl⟩ := hk
    exact (task_outcome ht h (hitem e he) rfl).1.1 (ok_of_mapM hout e he)
  · intro hall
    obtain ⟨hus, hn⟩ := valid_utterances ht
    obtain ⟨out, hout, -⟩ := tasks_spec h hn hus htasks (fun k hk => (hall k hk).1) fun k hk => (hall k hk).2
    exact ⟨out, hout⟩
  · rw [adaptTasks, mapM_eq_error]
    constructor
    · rintro ⟨before, e, after, heq, he, hbefore⟩
      have hmem : ∀ e' ∈ before ++ e :: after, e'.1.valid = true := heq ▸ hitem
      refine ⟨before.map Prod.fst, e.1, after.map Prod.fst, ?_, ?_, ?_⟩
      · rw [← List.zipIdx_map_fst 0 tasks, heq, List.map_append, List.map_cons]
      · intro k' hk'
        obtain ⟨e', he', rfl⟩ := List.mem_map.1 hk'
        exact (task_outcome ht h (hmem e' (List.mem_append_left _ he')) rfl).1.1 (hbefore e' he')
      · exact (task_outcome ht h (hmem e (by simp)) rfl).2.1 he
    · rintro ⟨before, k, after, rfl, hbefore, hk⟩
      refine ⟨before.zipIdx, (k, before.length), after.zipIdx (before.length + 1), ?_, ?_, ?_⟩
      · rw [List.zipIdx_append, List.zipIdx_cons, Nat.zero_add]
      · exact (task_outcome (e := (k, before.length)) ht h (htasks k (by simp)) rfl).2.2 hk
      · intro e he
        have hmem : e.1 ∈ before := List.fst_mem_of_mem_zipIdx he
        exact (task_outcome ht h (htasks e.1 (List.mem_append_left _ hmem)) rfl).1.2 (hbefore e.1 hmem)

end

/-! ## The whole call -/

section
variable [Lib] [Spelling] {sha : ByteArray → Sha256} {uuid5 : UUID → Str → UUID} {meetingId jobId : UUID}
  {t : PipelineTranscript} {a : PipelineAbstraction} {p : PipelineProvenance}

theorem modelVersion_ne {models : List (Str × PipelineModel)} {name : Option Str} {role : String} :
    modelVersion models name role ≠ .error .validation := by
  simp only [modelVersion]
  split <;> simp [pure, Except.pure, throw, throwThe, MonadExceptOf.throw]

theorem modelVersion_nonBlank {models : List (Str × PipelineModel)} {name : Option Str} {role : String} {v : Str}
    (h : modelVersion models name role = .ok v) : nonBlank v = true := by
  simp only [modelVersion] at h
  split at h
  · obtain rfl := Except.ok.inj h
    have hat : isSpace '@' = false := by decide
    simp [nonBlank, hat]
  · cases h

theorem signPayload_ne {T : TranscriptV1} {i : InsightsV1} {v : ModelVersions} :
    signPayload sha jobId T i v ≠ .error .validation := by
  unfold signPayload
  simp only
  split <;> simp [pure, Except.pure, throw, throwThe, MonadExceptOf.throw]

/-- After the insights, nothing but the adapter's own error is raised. -/
theorem versions_ne {T : TranscriptV1} {i : InsightsV1} {models : List (Str × PipelineModel)} {x y : Option Str} :
    ((modelVersion models x "asr").bind fun asr => (modelVersion models none "diarization").bind fun diarization =>
      (modelVersion models y "analysis").bind fun analysis => (build ModelVersions.valid ⟨asr, diarization, analysis⟩).bind
        fun v => signPayload sha jobId T i v) ≠ .error .validation := by
  intro h
  obtain h | ⟨asr, hasr, h⟩ := bind_eq_error.1 h
  · exact modelVersion_ne h
  obtain h | ⟨diarization, hdiarization, h⟩ := bind_eq_error.1 h
  · exact modelVersion_ne h
  obtain h | ⟨analysis, hanalysis, h⟩ := bind_eq_error.1 h
  · exact modelVersion_ne h
  have hv : ModelVersions.valid ⟨asr, diarization, analysis⟩ = true := by
    rw [ModelVersions.valid, modelVersion_nonBlank hasr, modelVersion_nonBlank hdiarization,
      modelVersion_nonBlank hanalysis]
    rfl
  rw [build_ok hv, ok_bind] at h
  exact signPayload_ne h

/-- What follows the transcript. -/
def adaptRest (uuid5 : UUID → Str → UUID) (meetingId : UUID) (sha : ByteArray → Sha256) (jobId : UUID)
    (t : PipelineTranscript) (a : PipelineAbstraction) (p : PipelineProvenance) (s : Adapting) :
    Except AdapterError ResultBundleV1 :=
  (adaptInsights uuid5 meetingId s.segmentsBySourceId "key-fact" a.keyFacts).bind fun keyFacts =>
    (adaptInsights uuid5 meetingId s.segmentsBySourceId "decision" a.decisions).bind fun decisions =>
      (adaptTasks uuid5 meetingId s.segmentsBySourceId a.tasks).bind fun actionItems =>
        (build InsightsV1.valid ⟨meetingId, 0, keyFacts ++ decisions, actionItems⟩).bind fun insights =>
          (modelVersion p.models t.asrModel "asr").bind fun asr =>
            (modelVersion p.models none "diarization").bind fun diarization =>
              (modelVersion p.models a.llmModel "analysis").bind fun analysis =>
                (build ModelVersions.valid ⟨asr, diarization, analysis⟩).bind fun modelVersions =>
                  signPayload sha jobId (transcriptOf uuid5 meetingId t.utterances) insights modelVersions

theorem adaptParsed_rest {s : Adapting} (h : Adapted uuid5 meetingId t.utterances s)
    (hloop : t.utterances.foldlM (Adapting.step uuid5 meetingId) {} = .ok s) :
    adaptParsed uuid5 meetingId sha jobId t a p =
      (build TranscriptV1.valid (transcriptOf uuid5 meetingId t.utterances)).bind fun _ =>
        adaptRest uuid5 meetingId sha jobId t a p s := by
  have htranscript : (⟨meetingId, 0, s.speakers, s.segments⟩ : TranscriptV1) =
      transcriptOf uuid5 meetingId t.utterances := by
    rw [h.speakers, h.segments]
    rfl
  unfold adaptParsed adaptRest
  rw [hloop]
  simp only [bind, ok_bind, htranscript]
  by_cases hv : (transcriptOf uuid5 meetingId t.utterances).valid = true
  · simp only [build_ok hv, ok_bind]
  · simp only [build, if_neg hv, throw, throwThe, MonadExceptOf.throw, error_bind]

/-- With the segments apart: the insights' references, then the tasks one by one, then the identifiers. -/
theorem adaptRest_escapes {s : Adapting} (ht : t.valid = true) (ha : a.valid = true)
    (hs : Adapted uuid5 meetingId t.utterances s)
    (hids : ((t.utterances.map (segmentName ·.id)).map (uuid5 meetingId)).Nodup) :
    adaptRest uuid5 meetingId sha jobId t a p s = .error .validation ↔ Escapes uuid5 meetingId t a := by
  obtain ⟨hus, hn⟩ := valid_utterances ht
  simp only [PipelineAbstraction.valid, Bool.and_eq_true, List.all_eq_true] at ha
  obtain ⟨⟨⟨⟨⟨hkey, hdecision⟩, htask⟩, -⟩, -⟩, -⟩ := ha
  have hclosed : Escapes uuid5 meetingId t a → ∀ i ∈ a.keyFacts ++ a.decisions, Uttered t i.sourceUtteranceIds := by
    intro hescapes
    cases hescapes with
    | segments h => exact absurd hids h
    | padded hinsights => exact hinsights
    | items hrefs => exact fun i hi => (List.mem_append.1 hi).elim (hrefs.keyFacts i) (hrefs.decisions i)
  unfold adaptRest
  -- the references of the insights
  by_cases hk : ∀ i ∈ a.keyFacts, Uttered t i.sourceUtteranceIds
  swap
  · rw [insights_unknown ht hs hkey hk, error_bind]
    refine ⟨fun h => (by cases h), fun h => absurd (fun i hi => ?_) hk⟩
    exact hclosed h i (List.mem_append_left _ hi)
  obtain ⟨keyFacts, hkeyFacts, hfacts⟩ := insights_spec hs hn hus "key-fact" hkey hk
  rw [hkeyFacts, ok_bind]
  by_cases hd : ∀ i ∈ a.decisions, Uttered t i.sourceUtteranceIds
  swap
  · rw [insights_unknown ht hs hdecision hd, error_bind]
    refine ⟨fun h => (by cases h), fun h => absurd (fun i hi => ?_) hd⟩
    exact hclosed h i (List.mem_append_right _ hi)
  obtain ⟨decisions, hdecisions, hdecided⟩ := insights_spec hs hn hus "decision" hdecision hd
  rw [hdecisions, ok_bind]
  have hinsights : ∀ i ∈ a.keyFacts ++ a.decisions, Uttered t i.sourceUtteranceIds :=
    fun i hi => (List.mem_append.1 hi).elim (hk i) (hd i)
  -- the tasks
  obtain ⟨hbuilt, hfailed⟩ := tasks_outcome ht hs htask
  by_cases htasks : ∀ k ∈ a.tasks, Uttered t k.sourceUtteranceIds ∧ k.Unpadded
  swap
  · cases hrun : adaptTasks uuid5 meetingId s.segmentsBySourceId a.tasks with
    | ok out => exact absurd (hbuilt.1 ⟨out, hrun⟩) htasks
    | error e =>
      rw [error_bind]
      constructor
      · intro h
        rw [Except.error.inj h] at hrun
        obtain ⟨before, k, after, heq, hbefore, hknown, hpad⟩ := hfailed.1 hrun
        exact .padded hinsights before after k heq hbefore hknown hpad
      · intro h
        cases h with
        | segments h => exact absurd hids h
        | padded _ before after k heq hbefore hknown hpad =>
          rw [hfailed.2 ⟨before, k, after, heq, hbefore, hknown, hpad⟩] at hrun
          rw [Except.error.inj hrun]
        | items hrefs hpad => exact absurd (fun k hk => ⟨hrefs.tasks k hk, hpad k hk⟩) htasks
  obtain ⟨tasks, hout, hassigned⟩ := tasks_spec hs hn hus htask (fun k hk => (htasks k hk).1) fun k hk => (htasks k hk).2
  rw [hout, ok_bind]
  -- the identifiers
  have hins : Insightful uuid5 meetingId t a keyFacts decisions tasks := ⟨hfacts, hdecided, hassigned⟩
  have hvalid := hins.valid_iff
  rw [hins.ids, map_taskName hins.tasks] at hvalid
  by_cases hitems : InsightsV1.valid ⟨meetingId, 0, keyFacts ++ decisions, tasks⟩ = true
  · rw [build_ok hitems, ok_bind]
    refine ⟨fun h => absurd h versions_ne, fun h => ?_⟩
    cases h with
    | segments h => exact absurd hids h
    | padded _ before after k heq _ _ hpad => exact absurd (htasks k (by rw [heq]; simp)).2 hpad
    | items _ _ h => exact absurd (hvalid.1 hitems) h
  · rw [build, if_neg hitems]
    refine ⟨fun _ => .items ⟨hk, hd, fun k hk => (htasks k hk).1⟩ (fun k hk => (htasks k hk).2) ?_, fun _ => rfl⟩
    exact fun h => hitems (hvalid.2 h)

theorem adaptParsed_escapes (ht : t.valid = true) (ha : a.valid = true) :
    adaptParsed uuid5 meetingId sha jobId t a p = .error .validation ↔ Escapes uuid5 meetingId t a := by
  obtain ⟨s, hloop, hs⟩ := adapted_run (adapted_nil : Adapted uuid5 meetingId [] {}) (valid_utterances ht).1
  rw [List.nil_append] at hs
  rw [adaptParsed_rest hs hloop]
  by_cases hids : ((t.utterances.map (segmentName ·.id)).map (uuid5 meetingId)).Nodup
  · rw [build_ok (transcriptOf_valid ht hids), ok_bind, adaptRest_escapes ht ha hs hids]
  · rw [build, if_neg fun hv => hids (nodup_of_transcriptOf hv)]
    exact ⟨fun _ => .segments hids, fun _ => rfl⟩

/-- A call that does not raise `ValidationError` is inside the boundary. -/
theorem bounded_iff {outcome : Except AdapterError ResultBundleV1} :
    ((∃ b, outcome = .ok b) ∨ ∃ message, outcome = .error (.adapter message)) ↔ outcome ≠ .error .validation := by
  cases outcome with
  | ok b => simp
  | error e => cases e <;> simp

/-- What is not accepted is refused with the adapter's own error. -/
theorem parseInputs_bind {f : Unit → Except AdapterError ResultBundleV1} :
    (parseInputs t a p).bind f = .error .validation ↔
      t.valid = true ∧ a.valid = true ∧ p.valid = true ∧ f () = .error .validation := by
  unfold parseInputs
  by_cases h : (t.valid && a.valid && p.valid) = true
  · simp only [Bool.and_eq_true] at h
    simp [h, pure, Except.pure]
  · rw [if_neg h]
    simp only [Bool.and_eq_true] at h
    constructor
    · intro he
      cases he
    · rintro ⟨ht, ha, hp, -⟩
      exact absurd ⟨⟨ht, ha⟩, hp⟩ h

/-- **Closed but for one padded name.** For all three mappings, the call returns a bundle or raises
`PipelineResultAdapterError` exactly if they are not accepted inputs from which a `ValidationError` escapes. -/
theorem adapter_boundary (jobId : UUID) (t : Option PipelineTranscript) (a : Option PipelineAbstraction)
    (p : Option PipelineProvenance) :
    ((∃ b, adaptMappings uuid5 meetingId sha jobId t a p = .ok b) ∨
        ∃ message, adaptMappings uuid5 meetingId sha jobId t a p = .error (.adapter message)) ↔
      ¬∃ t' ∈ t, ∃ a' ∈ a, ∃ p' ∈ p,
        t'.valid = true ∧ a'.valid = true ∧ p'.valid = true ∧ Escapes uuid5 meetingId t' a' := by
  rw [bounded_iff, not_iff_not]
  constructor
  · intro h
    unfold adaptMappings at h
    split at h
    · next t a p =>
      obtain ⟨ht, ha, hp, hadapt⟩ := parseInputs_bind.1 h
      exact ⟨t, rfl, a, rfl, p, rfl, ht, ha, hp, (adaptParsed_escapes ht ha).1 hadapt⟩
    · cases h
  · rintro ⟨t', ht, a', ha, p', hp, hvt, hva, hvp, h⟩
    rw [Option.mem_def.1 ht, Option.mem_def.1 ha, Option.mem_def.1 hp]
    exact parseInputs_bind.2 ⟨hvt, hva, hvp, (adaptParsed_escapes hvt hva).2 h⟩

end

attribute [local instance] Sample.adapting Sample.spelling

/-- The name of a participant is in the text of what is raised. -/
theorem padded_name_escapes :
    ¬((∃ b, adaptMappings Sample.uuid5 2 Sample.adaptedSha256 9 (some Sample.pipelineTranscript)
          (some (Sample.pipelineAbstraction "\x1cIvan".toList)) (some Sample.pipelineProvenance) = .ok b) ∨
        ∃ message, adaptMappings Sample.uuid5 2 Sample.adaptedSha256 9 (some Sample.pipelineTranscript)
          (some (Sample.pipelineAbstraction "\x1cIvan".toList)) (some Sample.pipelineProvenance) =
            .error (.adapter message)) := by
  rw [bounded_iff]
  intro h
  exact h Sample.adapt_padded

end Tirke
