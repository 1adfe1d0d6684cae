import Tirke.Law
/-!
# What a move leaves alone

A move never touches who the meeting is and what was uploaded (`MeetingRecord.identity`), gives a record
that passes its own validators (`Move.ok`), and changes the attempt only by a retry (`Move.attempt`).
-/

set_option linter.unusedSectionVars false

namespace Tirke

open CrashProg CrashDisk

variable [Lib] [Home] [Weather] {v : View} {r r' : MeetingRecord}

/-- Everything about a meeting that is fixed when it is created. -/
structure Identity where
  ownerId : UUID
  id : UUID
  metadata : MeetingMetadata
  createdAt : Time
  temporaryExpiresAt : Option Time
  source : MeetingSource
  audioSha256 : Option Sha256
  audioExtension : Option AudioExtension

def MeetingRecord.identity (r : MeetingRecord) : Identity :=
  ⟨r.ownerId, r.meeting.id, r.meeting.toMeetingMetadata, r.meeting.createdAt, r.meeting.temporaryExpiresAt,
    r.meeting.source, r.audioSha256, r.audioExtension⟩

def MeetingRecord.attempts (r : MeetingRecord) : List Nat := r.jobs.map (·.attempt)

theorem withCurrentJob_of_job {job : JobRecord} (h : r.job = some job) : r.withCurrentJob = r := by
  simp [MeetingRecord.withCurrentJob, h]

/-- The published record, when the attempt has its job. -/
theorem published_eq {job : JobRecord} {b : ResultBundleV1} {t : Time} (h : r.job = some job) :
    r.published b t = ({ r with meeting := { r.meeting with
      status := .reviewRequired, stage := none, updatedAt := t, failure := none } } : MeetingRecord).setJob
        (JobRecord.published b) := by
  have h' : ({ r with meeting := { r.meeting with
      status := .reviewRequired, stage := none, updatedAt := t, failure := none } } : MeetingRecord).job =
        some job := h
  simp only [MeetingRecord.published, withCurrentJob_of_job h']

theorem Move.identity (m : Move v r r') : r'.identity = r.identity := by
  cases m with
  | published job b t hb hs hst hj => rw [published_eq hj]; rfl
  | _ => rfl

/-- Only a retry changes the attempt. -/
theorem Move.attempt (m : Move v r r') : r'.meeting.attempt = r.meeting.attempt ∨
    r.meeting.status = .failed ∧ r'.meeting.status = .queued ∧ r'.meeting.attempt = r.meeting.attempt + 1 := by
  cases m with
  | published job b t hb hs hst hj => rw [published_eq hj]; exact .inl rfl
  | retried t hs => exact .inr ⟨hs, rfl, rfl⟩
  | _ => exact .inl rfl

/-! ## Validity -/

@[simp] theorem attempts_setJob {f : JobRecord → JobRecord} (hf : ∀ j, (f j).attempt = j.attempt) :
    (r.setJob f).attempts = r.attempts := by
  simp only [MeetingRecord.attempts, MeetingRecord.setJob, List.map_map]
  refine List.map_congr_left fun j _ => ?_
  simp only [Function.comp]
  split
  · exact hf j
  · rfl

theorem attempts_reconciled {log : List Event} {jobs jobs' : List JobRecord}
    (h : List.Forall₂ (Reconciled log) jobs jobs') : jobs'.map (·.attempt) = jobs.map (·.attempt) := by
  induction h with
  | nil => rfl
  | cons hj _ ih =>
    simp only [List.map_cons, ih]
    cases hj <;> rfl

theorem ok_iff : r.ok = true ↔ r.meeting.valid Lib.validTimezone = true ∧ r.attempts ≠ [] ∧ r.attempts.Nodup ∧
    ∀ n ∈ r.attempts, 1 ≤ n ∧ n ≤ r.meeting.attempt := by
  simp only [MeetingRecord.ok, MeetingRecord.valid, MeetingRecord.validJobHistory, MeetingRecord.attempts,
    Bool.and_eq_true, Bool.not_eq_true', List.isEmpty_eq_false_iff, decide_eq_true_eq, List.all_eq_true,
    List.mem_map, ne_eq, List.map_eq_nil_iff, forall_exists_index, and_imp, forall_apply_eq_imp_iff₂]
  constructor
  · rintro ⟨⟨hm, h1⟩, ⟨hne, hnd⟩, hle⟩
    exact ⟨hm, hne, hnd, fun j hj => ⟨h1 j hj, hle j hj⟩⟩
  · rintro ⟨hm, hne, hnd, h⟩
    exact ⟨⟨hm, fun j hj => (h j hj).1⟩, ⟨hne, hnd⟩, fun j hj => (h j hj).2⟩

/-- The meeting's own validators, field by field. -/
theorem meeting_valid_iff {m : Meeting} : m.valid Lib.validTimezone = true ↔
    m.toMeetingMetadata.valid Lib.validTimezone = true ∧ 1 ≤ m.attempt ∧ m.source.valid = true ∧
      (m.failure.all fun f => nonBlank f.message) = true ∧ m.validStage = true := by
  simp only [Meeting.valid, Bool.and_eq_true, decide_eq_true_eq, and_assoc]

theorem nonBlank_failureMessage {c : FailureCode} (h : c ≠ .gpuUnavailable) :
    nonBlank (failureMessage c) = true := by
  cases c with
  | gpuUnavailable => exact absurd rfl h
  | _ => rfl

/-- Valid for the validators that look past one field: the failure text and the stage. -/
structure SoundFields (m : Meeting) : Prop where
  failure : (m.failure.all fun f => nonBlank f.message) = true
  stage : m.validStage = true

theorem ok_of {r' : MeetingRecord} (h : r.ok = true) (hid : r'.identity = r.identity)
    (ha : r'.meeting.attempt = r.meeting.attempt) (hj : r'.attempts = r.attempts)
    (hs : SoundFields r'.meeting) : r'.ok = true := by
  obtain ⟨hm, hne, hnd, hle⟩ := ok_iff.1 h
  obtain ⟨hmd, h1, hsrc, -, -⟩ := meeting_valid_iff.1 hm
  have hmd' : r'.meeting.toMeetingMetadata = r.meeting.toMeetingMetadata := congrArg Identity.metadata hid
  have hsrc' : r'.meeting.source = r.meeting.source := congrArg Identity.source hid
  refine ok_iff.2 ⟨meeting_valid_iff.2 ⟨hmd' ▸ hmd, ha ▸ h1, hsrc' ▸ hsrc, hs.failure, hs.stage⟩, ?_, ?_, ?_⟩
  · rw [hj]; exact hne
  · rw [hj]; exact hnd
  · rw [hj, ha]; exact hle

theorem ok_sound (h : r.ok = true) : SoundFields r.meeting := by
  obtain ⟨-, -, -, hf, hs⟩ := meeting_valid_iff.1 (ok_iff.1 h).1
  exact ⟨hf, hs⟩

/-- A meeting that is neither processing nor approved shows no stage. -/
theorem stage_none (h : SoundFields r.meeting) (hp : r.meeting.status ≠ .processing)
    (ha : r.meeting.status ≠ .approved) : r.meeting.stage = none := by
  have hs := h.stage
  simp only [Meeting.validStage] at hs
  cases hst : r.meeting.stage with
  | none => rfl
  | some s =>
    rw [hst, Option.all_some, decide_eq_true_eq] at hs
    split at hs
    · exact absurd hs ha
    · exact absurd hs hp

theorem ok_retried {t : Time} (h : r.ok = true) : (r.retried t).ok = true := by
  obtain ⟨hm, hne, hnd, hle⟩ := ok_iff.1 h
  obtain ⟨hmd, h1, hsrc, -, -⟩ := meeting_valid_iff.1 hm
  have hj : (r.retried t).attempts = r.attempts ++ [r.meeting.attempt + 1] := by
    simp [MeetingRecord.attempts, MeetingRecord.retried, JobRecord.new]
  refine ok_iff.2 ⟨meeting_valid_iff.2 ⟨hmd, Nat.le_succ_of_le h1, hsrc, rfl, rfl⟩, ?_, ?_, ?_⟩
  · rw [hj]; simp
  · rw [hj, List.nodup_append]
    refine ⟨hnd, List.nodup_singleton _, ?_⟩
    rintro a ha _ hb rfl
    rw [List.mem_singleton] at hb
    have := (hle a ha).2
    omega
  · rw [hj]
    intro n hn
    rw [List.mem_append, List.mem_singleton] at hn
    show 1 ≤ n ∧ n ≤ r.meeting.attempt + 1
    rcases hn with hn | rfl
    · have := hle n hn; omega
    · omega

/-- **A move gives a record that passes its own validators.** -/
theorem Move.ok (m : Move v r r') (h : r.ok = true) : r'.ok = true := by
  have hid := m.identity
  have hs := ok_sound h
  cases m with
  | reconciled jobs t hf => exact ok_of h hid rfl (attempts_reconciled hf) ⟨hs.failure, hs.stage⟩
  | begun job t => exact ok_of h hid rfl rfl ⟨hs.failure, rfl⟩
  | flagged job t => exact ok_of h hid rfl (attempts_setJob fun _ => rfl) ⟨hs.failure, hs.stage⟩
  | progressed job remote t =>
    refine ok_of h hid rfl (attempts_setJob fun _ => rfl) ⟨hs.failure, ?_⟩
    simp only [MeetingRecord.touch, MeetingRecord.progressed, MeetingRecord.mapMeeting, Meeting.validStage]
    split
    · rfl
    · cases remote.stage with
      | none => rfl
      | some s => cases s <;> rfl
  | polledFailed job remote code t _ _ _ _ hc =>
    exact ok_of h hid rfl (attempts_setJob fun _ => rfl) ⟨nonBlank_failureMessage hc, rfl⟩
  | failed code t _ hc => exact ok_of h hid rfl rfl ⟨nonBlank_failureMessage hc, rfl⟩
  | published job b t _ _ _ hj =>
    rw [published_eq hj] at hid ⊢
    exact ok_of h hid rfl (attempts_setJob fun _ => rfl) ⟨rfl, rfl⟩
  | localDeleted t | localKept t | settled t | deferred t => exact ok_of h hid rfl rfl ⟨hs.failure, hs.stage⟩
  | acked => exact ok_of h hid rfl (attempts_setJob fun _ => rfl) ⟨hs.failure, hs.stage⟩
  | expired t =>
    refine ok_of h hid rfl ?_ ⟨hs.failure, hs.stage⟩
    simp only [MeetingRecord.expired, MeetingRecord.withAggregate, MeetingRecord.mapMeeting,
      MeetingRecord.attempts, List.map_map]
    refine List.map_congr_left fun j _ => ?_
    simp only [Function.comp, JobRecord.expired]
    split <;> rfl
  | retried t => exact ok_retried h
  | reviewed q original i res t => exact ok_of h hid rfl rfl ⟨hs.failure, rfl⟩
  | approved q transcript insights t _ hst =>
    have hn := stage_none hs (by simp [hst]) (by simp [hst])
    refine ok_of h hid rfl rfl ⟨hs.failure, ?_⟩
    simp only [MeetingRecord.approved, MeetingRecord.mapMeeting, Meeting.validStage, hn, Option.all_none]
  | exporting t hst _ =>
    refine ok_of h hid rfl rfl ⟨hs.failure, ?_⟩
    simp [MeetingRecord.exporting, MeetingRecord.mapMeeting, Meeting.validStage, hst]
  | exported t => exact ok_of h hid rfl rfl ⟨hs.failure, rfl⟩

end Tirke
