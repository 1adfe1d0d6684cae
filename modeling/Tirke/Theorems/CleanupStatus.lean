import Tirke.Runs.Written
import Tirke.Theorems.Acknowledgement
/-!
# The public cleanup status

`meeting.cleanup_status` caches the aggregate of the copies' statuses. Most writers recompute it; `_advance` stores
what the GPU said of the current job without doing so, and `_cleanup` saves the record once between recording the
local deletion and recomputing. The cache is right in every record as long as neither changes the aggregate.
-/

set_option linter.unusedSectionVars false

namespace Tirke

open CrashProg CrashDisk

section
variable [Lib] [Home] {v : View} {r r' : MeetingRecord} {j : JobRecord} {c : Config} {rot : Prop}

/-- The public status says what the statuses of the copies say (`API_CONTRACT.md:237`). -/
structure Summarises (r : MeetingRecord) : Prop where
  pending : r.meeting.cleanupStatus = .pending ↔
    r.localCleanupStatus = .pending ∨ ∃ j ∈ r.jobs, j.cleanupStatus = .pending
  expired : r.meeting.cleanupStatus = .expired ↔ r.meeting.cleanupStatus ≠ .pending ∧
    (r.localCleanupStatus = .expired ∨ ∃ j ∈ r.jobs, j.cleanupStatus = .expired)

theorem mem_statuses {s : CleanupStatus} : s ∈ r.localCleanupStatus :: r.jobs.map (·.cleanupStatus) ↔
    r.localCleanupStatus = s ∨ ∃ j ∈ r.jobs, j.cleanupStatus = s := by
  simp [eq_comm]

theorem summarises_iff : Summarises r ↔ r.meeting.cleanupStatus = r.aggregate := by
  simp only [MeetingRecord.aggregate]
  constructor
  · intro h
    split
    · next hp => exact h.pending.2 (mem_statuses.1 hp)
    · next hp =>
      have hne : r.meeting.cleanupStatus ≠ .pending := fun he => hp (mem_statuses.2 (h.pending.1 he))
      split
      · next hx => exact h.expired.2 ⟨hne, mem_statuses.1 hx⟩
      · next hx =>
        have hne' : r.meeting.cleanupStatus ≠ .expired := fun he => hx (mem_statuses.2 (h.expired.1 he).2)
        cases hc : r.meeting.cleanupStatus with
        | pending => exact absurd hc hne
        | expired => exact absurd hc hne'
        | deleted => rfl
  · intro h
    by_cases hp : CleanupStatus.pending ∈ r.localCleanupStatus :: r.jobs.map (·.cleanupStatus)
    · rw [if_pos hp] at h
      refine ⟨iff_of_true h (mem_statuses.1 hp), ?_⟩
      simp [h]
    · rw [if_neg hp] at h
      by_cases hx : CleanupStatus.expired ∈ r.localCleanupStatus :: r.jobs.map (·.cleanupStatus)
      · rw [if_pos hx] at h
        refine ⟨iff_of_false (by simp [h]) fun he => hp (mem_statuses.2 he), ?_⟩
        exact iff_of_true h ⟨by simp [h], mem_statuses.1 hx⟩
      · rw [if_neg hx] at h
        refine ⟨iff_of_false (by simp [h]) fun he => hp (mem_statuses.2 he), ?_⟩
        exact iff_of_false (by simp [h]) fun he => hx (mem_statuses.2 he.2)

/-! ## What the moves do to the aggregate -/

theorem aggregate_congr (hl : r'.localCleanupStatus = r.localCleanupStatus)
    (hj : r'.jobs.map (·.cleanupStatus) = r.jobs.map (·.cleanupStatus)) : r'.aggregate = r.aggregate := by
  unfold MeetingRecord.aggregate
  rw [hl, hj]

/-- A job that changes otherwise keeps its status. -/
theorem statuses_setJob {f : JobRecord → JobRecord} (hf : ∀ j, (f j).cleanupStatus = j.cleanupStatus) :
    (r.setJob f).jobs.map (·.cleanupStatus) = r.jobs.map (·.cleanupStatus) := by
  simp only [MeetingRecord.setJob, List.map_map]
  refine List.map_congr_left fun j _ => ?_
  simp only [Function.comp_apply]
  split
  · exact hf j
  · rfl

theorem aggregate_pending (h : r.localCleanupStatus = .pending ∨ ∃ j ∈ r.jobs, j.cleanupStatus = .pending) :
    r.aggregate = .pending := if_pos (mem_statuses.2 h)

/-- Nothing that is stored without recomputing the aggregate changes it. -/
structure Steady (v : View) (r : MeetingRecord) : Prop where
  /-- The GPU said something of the current job, and `_advance` is about to store it. -/
  polled : ∀ job remote, r.job = some job → r.meeting.status ≠ .failed → v.run readManifest = .error .notReady →
    Heard v.log r job remote → (r.polled remote).aggregate = r.aggregate
  /-- The upload was deleted, and `_cleanup` is about to say so. -/
  localDeleted : coordinating v.log → r.meeting.status.published = true → r.localCleanupStatus = .pending →
    v.uploadGone → v.justSynced → ∃ j ∈ r.jobs, j.cleanupStatus = .pending

theorem Move.summarises (m : Move v r r') (hs : Steady v r) (h : Summarises r) : Summarises r' := by
  rw [summarises_iff] at h ⊢
  have hsame : ∀ r₁ : MeetingRecord, r₁.localCleanupStatus = r.localCleanupStatus →
      r₁.jobs.map (·.cleanupStatus) = r.jobs.map (·.cleanupStatus) → r.meeting.cleanupStatus = r₁.aggregate :=
    fun r₁ hl hj => h.trans (aggregate_congr hl hj).symm
  cases m with
  | reconciled jobs t => rfl
  | flagged job t =>
    exact hsame _ rfl (statuses_setJob (f := fun j => { j with submitStarted := some true }) fun _ => rfl)
  | progressed job remote t hne hj hh hm => exact h.trans (hs.polled job remote hj hne hm hh).symm
  | polledFailed job remote code t hne hj hh hm => exact h.trans (hs.polled job remote hj hne hm hh).symm
  | published job b t _ _ _ hj =>
    rw [published_eq hj]
    exact hsame _ rfl (statuses_setJob (f := JobRecord.published b) fun _ => rfl)
  | localDeleted t hl hp hu hc hn =>
    have hold : r.aggregate = .pending := aggregate_pending (.inl hl)
    have hnew : (r.localDeleted.touch t).aggregate = .pending := aggregate_pending (.inr (hs.localDeleted hc hp hl hu hn))
    rw [hnew]
    exact h.trans hold
  | settled t => rfl
  | acked job id resultHash receipt t => rfl
  | expired t => rfl
  | retried t =>
    exact (aggregate_pending (.inr ⟨_, List.mem_append_right _ List.mem_cons_self, rfl⟩)).symm
  | begun | failed | localKept | deferred | reviewed | approved | exporting | exported => exact h

/-- **Every record says of the copies what is so, and `DELETE` is not refused for a copy that is gone.** -/
theorem cleanup_status_summarises (h : Reach (Conforming rot Steady) c) : ∀ r ∈ written c.world.log, Summarises r ∧
    (r.localCleanupStatus ≠ .pending → (∀ j ∈ r.jobs, j.cleanupStatus ≠ .pending) → r.cleanupPending = false) := by
  have hall : ∀ r ∈ written c.world.log, Summarises r := by
    refine h.written ?_ ?_ fun v r r' hs _ hm hr => hm.summarises hs hr
    · intro metadata t kind hours audio extension
      exact summarises_iff.2 rfl
    · intro metadata t kind hours audio extension
      exact summarises_iff.2 rfl
  intro r hr
  refine ⟨hall r hr, fun hl hj => ?_⟩
  have hne : r.meeting.cleanupStatus ≠ .pending := by
    intro hp
    rcases (hall r hr).pending.1 hp with hp | ⟨j, hm, hp⟩
    · exact hl hp
    · exact hj j hm hp
  simp [MeetingRecord.cleanupPending, hl, hne]

end

section
attribute [local instance] Sample.lib Sample.home

namespace Sample

/-- The GPU has accepted the job; later it has let it expire. -/
def acceptedJob : JobV1 := ⟨9, .queued, none, none, none, .pending, 5000, none⟩
def lapsedJob : JobV1 := ⟨9, .expired, none, none, none, .expired, 5000, some 6000⟩

def accepting : Request → Response
  | .submit .. => .http 202 (.job acceptedJob)
  | _ => .http 200 (.job acceptedJob)

def lapsing : Request → Response := fun _ => .http 200 (.job lapsedJob)

/-- The upload expires, then the job does. -/
def lapsed : Config := created.cues [.start .processOnce, .play never (answering accepting), .finish,
  .wait 86400001000 false, .start .sweep, .play never fun _ _ => .calm, .finish,
  .start .processOnce, .play never (answering lapsing), .finish]

/-- Then the meeting is to be deleted. -/
def refused : Config := lapsed.cues [.start (.delete 7), .play never fun _ _ => .calm]

theorem reach_lapsed : Reach (Step False) lapsed := reach_created.cues (.inr rfl)

end Sample

/-- Every copy has expired, the record still says pending, and `DELETE` is refused for it. -/
theorem cleanup_status_is_stale : (¬ ∀ c : Config, Reach (Step False) c → ∀ r ∈ written c.world.log, Summarises r ∧
    (r.localCleanupStatus ≠ .pending → (∀ j ∈ r.jobs, j.cleanupStatus ≠ .pending) → r.cleanupPending = false)) ∧
    Sample.refused.outcome = some (some (.lifecycleConflict .cleanupPending)) := by
  refine ⟨fun h => ?_, by decide +kernel⟩
  have hr : Sample.lapsed.world.view.run readRecord = .ok (Sample.recordOf Sample.lapsed) := by decide +kernel
  have hl : (Sample.recordOf Sample.lapsed).localCleanupStatus ≠ .pending := by decide +kernel
  have hj : ∀ j ∈ (Sample.recordOf Sample.lapsed).jobs, j.cleanupStatus ≠ .pending := by decide +kernel
  have hc : (Sample.recordOf Sample.lapsed).cleanupPending = true := by decide +kernel
  have hw : Sample.recordOf Sample.lapsed ∈ written Sample.lapsed.world.log := Sample.reach_lapsed.inv.written hr
  have hno := (h _ Sample.reach_lapsed _ hw).2 hl hj
  rw [hc] at hno
  cases hno

/-- Enough for `Steady`, and computed: here and at the GPU something is still pending. -/
def stillPending (w w' : World) : Bool :=
  decide (written w'.log = written w.log) || match w.view.run readRecord with
    | .ok r => r.localCleanupStatus = .pending && r.jobs.any (·.cleanupStatus = .pending)
    | .error _ => true

theorem steady_of_computed {c c' : Config} (hs : Step False c c') (h : stillPending c.world c'.world = true) :
    Conforming False Steady c c' := by
  refine ⟨hs, fun e r' r hl he hr => ?_⟩
  have hne : written c'.world.log ≠ written c.world.log := by
    rw [hl, written, written, List.filterMap_cons_some he]
    exact List.cons_ne_self _ _
  simp only [stillPending, hne, decide_false, hr, Bool.false_or, Bool.and_eq_true, decide_eq_true_eq, List.any_eq_true] at h
  obtain ⟨hp, hj⟩ := h
  refine ⟨fun job remote _ _ _ _ => ?_, fun _ _ _ _ _ => hj⟩
  have hpolled : (r.polled remote).aggregate = .pending := aggregate_pending (.inl hp)
  rw [hpolled, aggregate_pending (.inl hp)]

theorem steady_acknowledging : Reach (Conforming False Steady) Sample.acknowledging := by
  refine ⟨Sample.creation, Sample.initial, Relation.ReflTransGen.trans (b := Sample.created) ?_ ?_⟩
  · exact cues_keep (fun _ _ => steady_of_computed) rfl (by decide +kernel)
  · exact cues_keep (fun _ _ => steady_of_computed) rfl (by decide +kernel)

theorem cleanup_status_summarises_sample : Summarises (Sample.recordOf Sample.acknowledging) ∧
    (Sample.recordOf Sample.acknowledging).localCleanupStatus = .deleted := by
  have hreach : Reach (Step False) Sample.acknowledging := Sample.reach_created.cues (.inr rfl)
  have hr : Sample.acknowledging.world.view.run readRecord = .ok (Sample.recordOf Sample.acknowledging) := by decide +kernel
  exact ⟨(cleanup_status_summarises steady_acknowledging _ (hreach.inv.written hr)).1, by decide +kernel⟩

end

end Tirke
