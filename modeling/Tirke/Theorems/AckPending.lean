import Tirke.Theorems.CleanupStatus
/-!
# A pending ACK and the cleanup it waits for

`publish_results` sets `ack_pending` before it writes the manifest. The ACK, and `_reconcile_pending_jobs`, clear it
when they confirm the cleanup; `_advance`, which polls again as long as there is no manifest, confirms the cleanup
and leaves the flag. Where no such poll confirms anything, a pending ACK always waits for a pending cleanup.
-/

set_option linter.unusedSectionVars false

namespace Tirke

open CrashProg CrashDisk

section
variable [Lib] [Home] {v : View} {r r' : MeetingRecord} {j j' : JobRecord} {c : Config} {rot : Prop}

/-- A job that waits for its ACK is known to the GPU, and its cleanup is pending. -/
def Waits (j : JobRecord) : Prop := j.ackPending = true → j.jobId.isSome = true ∧ j.cleanupStatus = .pending

/-- Nothing confirms the cleanup of a job that waits for its ACK, but the ACK. -/
structure Timely (v : View) (r : MeetingRecord) : Prop where
  /-- The GPU said something of the current job, and `_advance` is about to store it. -/
  polled : ∀ job remote, r.job = some job → r.meeting.status ≠ .failed → v.run readManifest = .error .notReady →
    Heard v.log r job remote → job.ackPending = true → remote.cleanupStatus = .pending
  /-- The artifacts of its bundle are written, and `publish_results` is about to save the record. -/
  published : ∀ job b, coordinating v.log → r.meeting.status = .processing → r.job = some job → served v.log b →
    job.jobId = some b.jobId → (∀ n x, (n, x) ∈ b.artifacts → v.look (.folder, n) = some x) → v.justSynced →
    job.cleanupStatus = .pending

theorem mem_setJob {f : JobRecord → JobRecord} (h : j' ∈ (r.setJob f).jobs) :
    j' ∈ r.jobs ∨ ∃ j ∈ r.jobs, j.attempt = r.meeting.attempt ∧ j' = f j := by
  simp only [MeetingRecord.setJob, List.mem_map] at h
  obtain ⟨j, hj, rfl⟩ := h
  split
  · next ha => exact .inr ⟨j, hj, ha, rfl⟩
  · exact .inl hj

/-- Only the current job is set. -/
theorem waits_setJob {f : JobRecord → JobRecord} {job : JobRecord} (hok : r.ok = true) (hj : r.job = some job)
    (h : ∀ j ∈ r.jobs, Waits j) (hf : Waits (f job)) : ∀ j ∈ (r.setJob f).jobs, Waits j := by
  intro j' hj'
  rcases mem_setJob hj' with hm | ⟨j, hm, ha, rfl⟩
  · exact h j' hm
  · rw [job_unique hok hj hm ha]
    exact hf

theorem Reconciled.waits {log : List Event} (h : Reconciled log j j') (hj : Waits j) : Waits j' := by
  cases h with
  | kept => exact hj
  | confirmed => exact nofun

theorem waits_expired (h : Waits j) : Waits j.expired := by
  intro ha
  unfold JobRecord.expired at ha ⊢
  split
  · next hc =>
    rw [if_pos hc] at ha
    simp only [Bool.and_eq_true, Option.isNone_iff_eq_none] at hc
    have hid := (h ha).1
    rw [hc.1.1] at hid
    cases hid
  · next hc =>
    rw [if_neg hc] at ha
    exact h ha

theorem Move.waits (m : Move v r r') (hok : r.ok = true) (ht : Timely v r) (h : ∀ j ∈ r.jobs, Waits j) :
    ∀ j ∈ r'.jobs, Waits j := by
  have hpolled : ∀ job remote, r.job = some job → r.meeting.status ≠ .failed →
      v.run readManifest = .error .notReady → Heard v.log r job remote → ∀ j ∈ (r.polled remote).jobs, Waits j := by
    intro job remote hj hne hm hh
    exact waits_setJob hok hj h fun ha => ⟨rfl, ht.polled job remote hj hne hm hh ha⟩
  cases m with
  | reconciled jobs t hall =>
    intro j' hj'
    obtain ⟨i, hi, rfl⟩ := List.getElem_of_mem hj'
    have hi' : i < r.jobs.length := by rw [hall.length_eq]; exact hi
    exact (hall.get hi' hi).waits (h _ (List.getElem_mem hi'))
  | flagged job t hs hj hid => exact waits_setJob hok hj h (h job (job_mem hj))
  | progressed job remote t hne hj hh hm => exact hpolled job remote hj hne hm hh
  | polledFailed job remote code t hne hj hh hm => exact hpolled job remote hj hne hm hh
  | published job b t hb hsv hst hj hid hm ha hc hn =>
    rw [published_eq hj]
    show ∀ j ∈ (r.setJob (JobRecord.published b)).jobs, Waits j
    exact waits_setJob hok hj h fun _ => ⟨rfl, ht.published job b hc hst hj hsv hid ha hn⟩
  | acked job id resultHash receipt t hs hj => exact waits_setJob hok hj h (by rintro ⟨⟩)
  | expired t =>
    intro j' hj'
    obtain ⟨j, hj, rfl⟩ := List.mem_map.1 hj'
    exact waits_expired (h j hj)
  | retried t =>
    intro j' hj'
    rcases List.mem_append.1 hj' with hm | hm
    · exact h j' hm
    · rw [List.mem_singleton.1 hm]
      rintro ⟨⟩
  | begun | failed | localDeleted | localKept | settled | deferred | reviewed | approved | exporting | exported => exact h

/-- **A pending ACK waits for a pending cleanup, and `DELETE` is not refused for a job that is gone.** -/
theorem ack_pending_waits (h : Reach (Conforming rot Timely) c) : ∀ r ∈ written c.world.log,
    (∀ j ∈ r.jobs, j.ackPending = true → j.cleanupStatus = .pending) ∧
    ((∀ j ∈ r.jobs, j.cleanupStatus ≠ .pending) → r.jobsPending = false) := by
  have hall : ∀ r ∈ written c.world.log, ∀ j ∈ r.jobs, Waits j := by
    refine h.written (Q := fun r => ∀ j ∈ r.jobs, Waits j) ?_ ?_ fun v r r' ht hok hm hr => hm.waits hok ht hr
    · intro metadata t kind hours audio extension j hj
      rw [List.mem_singleton.1 hj]
      exact nofun
    · intro metadata t kind hours audio extension j hj
      rw [List.mem_singleton.1 hj]
      exact nofun
  intro r hr
  refine ⟨fun j hj ha => (hall r hr j hj ha).2, fun hgone => ?_⟩
  rw [MeetingRecord.jobsPending, List.any_eq_false]
  intro j hj
  have hack : j.ackPending = false := by
    cases ha : j.ackPending with
    | false => rfl
    | true => exact absurd (hall r hr j hj ha).2 (hgone j hj)
  simp [hack, hgone j hj]

end

section
attribute [local instance] Sample.lib Sample.home

namespace Sample

/-- The operation shows the manifest. -/
def linksManifest : World → Op → Bool := fun _ o => match o with
  | .file (.link _ (.folder, .named .manifest)) => true
  | _ => false

/-- The publication is interrupted between the record and the manifest, and then the GPU lets the job expire. -/
def halfway : Config := created.cues [.start .processOnce, .play linksManifest (answering (gpu first)), .kill,
  .start .processOnce, .play never (answering lapsing), .finish]

theorem reach_halfway : Reach (Step False) halfway := reach_created.cues (.inr rfl)

/-- The upload expires as well, and the meeting is to be deleted. -/
def stuck : Config := halfway.cues [.wait 86400001000 false, .start .sweep, .play never fun _ _ => .calm, .finish,
  .start (.delete 7), .play never fun _ _ => .calm]

end Sample

/-- After a completed `process_once` the job waits for an ACK that will not come, and `DELETE` is refused for it. -/
theorem ack_outlives_cleanup : (¬ ∀ c : Config, Reach (Step False) c → c.idle → ∀ r, c.world.view.run readRecord = .ok r →
    ∀ j ∈ r.jobs, j.ackPending = true → j.cleanupStatus = .pending) ∧
    Sample.stuck.outcome = some (some (.lifecycleConflict .cleanupPending)) := by
  refine ⟨fun h => ?_, by decide +kernel⟩
  have hr : Sample.halfway.world.view.run readRecord = .ok (Sample.recordOf Sample.halfway) := by decide +kernel
  have hidle : Sample.halfway.idle := rfl
  have hno : ∃ j ∈ (Sample.recordOf Sample.halfway).jobs, j.ackPending = true ∧ j.cleanupStatus ≠ .pending := by
    decide +kernel
  obtain ⟨j, hj, ha, hc⟩ := hno
  exact hc (h _ Sample.reach_halfway hidle _ hr j hj ha)

/-- Enough for `Timely`, and computed. -/
def allPending (w w' : World) : Bool :=
  decide (written w'.log = written w.log) || match w.view.run readRecord with
    | .ok r => r.jobs.all fun j => j.cleanupStatus = .pending &&
        (!j.ackPending || decide (w.view.run readManifest ≠ .error .notReady))
    | .error _ => true

theorem timely_of_computed {c c' : Config} (hs : Step False c c') (h : allPending c.world c'.world = true) :
    Conforming False Timely c c' := by
  refine ⟨hs, fun e r' r hl he hr => ?_⟩
  have hne : written c'.world.log ≠ written c.world.log := by
    rw [hl, written, written, List.filterMap_cons_some he]
    exact List.cons_ne_self _ _
  simp only [allPending, hne, decide_false, hr, Bool.false_or, Bool.and_eq_true, decide_eq_true_eq, List.all_eq_true,
    Bool.or_eq_true, Bool.not_eq_true'] at h
  refine ⟨fun job remote hj _ hm _ ha => ?_, fun job _ _ _ hj _ _ _ _ => (h job (job_mem hj)).1⟩
  rcases (h job (job_mem hj)).2 with hack | hman
  · rw [hack] at ha
    cases ha
  · exact absurd hm hman

theorem timely_acknowledging : Reach (Conforming False Timely) Sample.acknowledging := by
  refine ⟨Sample.creation, Sample.initial, Relation.ReflTransGen.trans (b := Sample.created) ?_ ?_⟩
  · exact cues_keep (fun _ _ => timely_of_computed) rfl (by decide +kernel)
  · exact cues_keep (fun _ _ => timely_of_computed) rfl (by decide +kernel)

theorem ack_pending_waits_sample : (∀ j ∈ (Sample.recordOf Sample.acknowledging).jobs, j.ackPending = true →
    j.cleanupStatus = .pending) ∧ ∃ j ∈ (Sample.recordOf Sample.acknowledging).jobs, j.ackPending = true := by
  have hreach : Reach (Step False) Sample.acknowledging := Sample.reach_created.cues (.inr rfl)
  have hr : Sample.acknowledging.world.view.run readRecord = .ok (Sample.recordOf Sample.acknowledging) := by decide +kernel
  exact ⟨(ack_pending_waits timely_acknowledging _ (hreach.inv.written hr)).1, by decide +kernel⟩

end

end Tirke
