import Tirke.Runs.Playing
/-!
# Nothing is acknowledged before it is durable

The acknowledgement lets the GPU destroy the only other copy of a result. Whenever `gpu.ack` is sent, on the
first publication as on any later one, the folder a power failure would leave holds the bundle.
-/

set_option linter.unusedSectionVars false

namespace Tirke

open CrashProg CrashDisk

section
variable [Lib] [Home] {v : View} {r : MeetingRecord} {b : ResultBundleV1} {c : Config}

/-- The folder, as it would be found after a power failure, holds the bundle as this attempt's results. -/
structure Secured (v : View) (attempt : Nat) (b : ResultBundleV1) : Prop where
  record : ∃ r, v.afterPower.run readRecord = .ok r ∧ r.meeting.attempt = attempt
  artifacts : ∀ n x, (n, x) ∈ b.artifacts → v.afterPower.look (.folder, n) = some x
  manifest : v.afterPower.look (.folder, .manifest) = some (.manifest (b.manifest attempt))
  results : v.afterPower.run readResults = .ok (b.transcript, b.insights)

/-- What is read from an undamaged folder is the bundle that backs its manifest. -/
theorem BackedBy.results {d : Doc} (h : BackedBy v.log v.files r d b) (hr : v.run readRecord = .ok r)
    (hd : v.files .manifest = some d) (hu : undamaged v.log) : v.run readResults = .ok (b.transcript, b.insights) := by
  have hlook : ∀ n x, v.files n = some x → v.look (.folder, n) = some x := fun n x hx =>
    (look_of_reach (p := (.folder, n)) (readable_reach hr)).trans hx
  refine (committed_of hr h.valid h.meeting (fun n x hx => hlook n x (h.artifacts hu n x hx)) ?_).results
  rw [← h.manifest]
  exact hlook _ d hd

theorem MayAck.secured {id : UUID} {resultHash : Sha256} {m : ReadyManifest} {t : TranscriptV1} {i : InsightsV1}
    (h : MayAck v id resultHash m t i) (hi : Inv v) (hu : undamaged v.log) : ∃ r b, v.run readRecord = .ok r ∧
      served v.log b ∧ b.jobId = id ∧ b.resultHash = resultHash ∧ Secured v r.meeting.attempt b := by
  obtain ⟨r, hr, hman, -⟩ := readManifest_ok.1 h.committed.manifest
  have hrec := files_of_readable hr
  obtain ⟨b, hb⟩ := hi.backed.now (inPlay_of_readable hr) r _ hrec (vol_of_look hman)
  have hm : m = b.manifest r.meeting.attempt := by
    have := hb.manifest
    cases this
    rfl
  have hres : (t, i) = (b.transcript, b.insights) := by
    have := h.committed.results.symm.trans (hb.results hr (vol_of_look hman) hu)
    cases this
    rfl
  refine ⟨r, b, hr, hb.served, by rw [← h.jobId, hm]; rfl, by rw [← h.resultHash, hm]; rfl, ?_⟩
  have hlook : ∀ n ∈ [Name.transcript, .insights, .text, .meeting, .manifest], ∀ x, v.files n = some x →
      v.afterPower.look (.folder, n) = some x := by
    intro n hn x hx
    obtain ⟨y, hy⟩ := h.files n hn
    have hxy : some y = some x := (vol_of_look hy.now).symm.trans hx
    cases hxy
    exact hy.later
  have hrec' : v.afterPower.run readRecord = .ok r := by
    obtain ⟨-, hok, ho, hid⟩ := readRecord_ok.1 hr
    exact readRecord_ok.2 ⟨hlook .meeting (by simp) _ hrec, hok, ho, hid⟩
  refine ⟨⟨r, hrec', rfl⟩, fun n x hx => hlook n ?_ x (hb.artifacts hu n x hx), ?_, ?_⟩
  · rcases artifact_name hx with rfl | rfl | rfl <;> simp
  · rw [← hb.manifest]
    exact hlook .manifest (by simp) _ (vol_of_look hman)
  · rw [h.durable.results, hres]

/-- **Whenever a result is acknowledged, the disk holds it.** -/
theorem acknowledged_is_durable (h : Reach (Step False) c) {id : UUID} {resultHash : Sha256}
    (hq : c.asks = some (.ack id resultHash)) : ∃ r b, c.world.view.run readRecord = .ok r ∧
      served c.world.log b ∧ b.jobId = id ∧ b.resultHash = resultHash ∧ Secured c.world.view r.meeting.attempt b := by
  cases h.legal hq .timeout with
  | ack _ _ _ m t i hm => exact hm.secured h.inv h.undamaged

end

section
attribute [local instance] Sample.lib Sample.home

namespace Sample

def acks : Request → Bool
  | .ack _ _ => true
  | _ => false

def acknowledging : Config := created.cues [.start .processOnce, .play (requests acks) (answering (gpu first))]

end Sample

theorem acknowledged_is_durable_sample : ∃ r b, Sample.acknowledging.world.view.run readRecord = .ok r ∧
    served Sample.acknowledging.world.log b ∧ b.jobId = 9 ∧ b.resultHash = Sample.first.resultHash ∧
    Secured Sample.acknowledging.world.view r.meeting.attempt b :=
  acknowledged_is_durable (Sample.reach_created.cues (.inr rfl)) (by decide +kernel)

end

end Tirke
