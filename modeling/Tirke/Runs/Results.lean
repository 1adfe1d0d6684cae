import Tirke.Runs.Submissions
/-!
# A manifest is backed by a bundle the GPU served

`Backed`: under a manifest stands a record that is published or failed, bound to the manifest's job, and the
artifacts are the bundle's own, unless somebody damaged them.
-/

set_option linter.unusedSectionVars false

namespace Tirke

open CrashProg CrashDisk

variable [Lib] [Home] [Weather] {v v' : View} {r r' : MeetingRecord} {b : ResultBundleV1} {e : Event} {rot : Prop}

/-- Nobody changed a stored result behind the services' back. -/
def undamaged (log : List Event) : Prop := ∀ n d, .damaged n d ∉ log

theorem undamaged_cons {log : List Event} (h : undamaged (e :: log)) : undamaged log :=
  fun n d hm => h n d (List.mem_cons_of_mem _ hm)

theorem Legal.undamaged (h : Legal v e) (hu : undamaged v.log) : undamaged (e :: v.log) := by
  intro n d hm
  rcases List.mem_cons.1 hm with he | hm
  · subst he
    cases h
  · exact hu n d hm

/-- Where nothing rots, nothing is damaged. -/
theorem Life.undamaged (h : Life False v) : undamaged v.log := by
  induction h with
  | blank h => intro n d hm; rw [h.log] at hm; cases hm
  | legacy h =>
    obtain ⟨answers, hl⟩ := h.log
    intro n d hm
    rw [hl] at hm
    simp [legacyLog] at hm
  | step h hh ih =>
    cases hh with
    | lawful e hl => rw [after_log]; exact hl.undamaged ih
    | bounds e he =>
      intro n d hm
      rcases List.mem_cons.1 hm with hd | hm
      · subst hd; exact he.elim
      · exact ih n d hm
    | power =>
      intro n d hm
      rcases List.mem_cons.1 hm with hd | hm
      · cases hd
      · exact ih n d hm
    | damaged n d h => exact h.elim

theorem served_cons {log : List Event} (h : served log b) : served (e :: log) b := by
  obtain ⟨a, ha, hb⟩ := h
  exact ⟨a, List.mem_cons_of_mem _ ha, hb⟩

/-- The bundle `b` was committed by the record `r`. -/
structure BackedBy (log : List Event) (f : Name → Option Doc) (r : MeetingRecord) (d : Doc) (b : ResultBundleV1) :
    Prop where
  valid : b.valid = true
  meeting : b.transcript.meetingId = Home.meetingId
  served : served log b
  manifest : d = .manifest (b.manifest r.meeting.attempt)
  bound : r.boundTo (b.manifest r.meeting.attempt)
  status : r.meeting.status.published = true ∨ r.meeting.status = .failed
  artifacts : undamaged log → ∀ n x, (n, x) ∈ b.artifacts → f n = some x

def Backed : Property := fun v _ f => ∀ r d, f .meeting = some (.record r) → f .manifest = some d →
  ∃ b, BackedBy v.log f r d b

theorem BackedBy.same {log : List Event} {f g : Name → Option Doc} {d : Doc} (h : BackedBy log f r d b)
    (hg : ∀ n x, (n, x) ∈ b.artifacts → g n = f n) : BackedBy (e :: log) g r d b :=
  ⟨h.valid, h.meeting, served_cons h.served, h.manifest, h.bound, h.status, fun hu n x hx =>
    (hg n x hx).trans (h.artifacts (undamaged_cons hu) n x hx)⟩

theorem artifact_name {n : Name} {x : Doc} (h : (n, x) ∈ b.artifacts) : n = .transcript ∨ n = .insights ∨ n = .text := by
  simp only [ResultBundleV1.artifacts, List.mem_cons, Prod.mk.injEq, List.not_mem_nil, or_false] at h
  rcases h with ⟨rfl, -⟩ | ⟨rfl, -⟩ | ⟨rfl, -⟩ <;> simp

/-- In play, a manifest that stands in the folder is read. -/
theorem BackedBy.read {d : Doc} (h : BackedBy v.log v.files r d b) (hr : v.run readRecord = .ok r)
    (hd : v.files .manifest = some d) : v.run readManifest = .ok (b.manifest r.meeting.attempt) := by
  have hatt : 1 ≤ r.meeting.attempt := (meeting_valid_iff.1 (ok_iff.1 (readable_ok hr)).1).2.1
  refine readManifest_ok.2 ⟨r, hr, ?_, manifest_valid h.valid hatt, rfl, rfl, rfl⟩
  rw [look_of_reach (p := (.folder, .manifest)) (readable_reach hr), ← h.manifest]
  exact hd

/-- Under a manifest that is read, a move keeps the commitment. -/
theorem Move.backed (m : Move v r r') (hr : v.run readRecord = .ok r) {d : Doc} (hd : v.files .manifest = some d)
    (h : BackedBy v.log v.files r d b) : r'.meeting.attempt = r.meeting.attempt ∧
      r'.boundTo (b.manifest r'.meeting.attempt) ∧ (r'.meeting.status.published = true ∨ r'.meeting.status = .failed) := by
  have hread := h.read hr hd
  have hlook : v.look (.folder, .manifest) = some d := (look_of_reach (p := (.folder, .manifest)) (readable_reach hr)).trans hd
  have hnotReady : v.run readManifest ≠ .error .notReady := by rw [hread]; nofun
  have hatt : r'.meeting.attempt = r.meeting.attempt := by
    rcases m.attempt_or with ha | ⟨t, -, -, hn⟩
    · exact ha
    · rw [hn .manifest (by simp [originals])] at hlook; cases hlook
  refine ⟨hatt, ?_, ?_⟩
  · rw [hatt]
    obtain ⟨job, hj, hid, hh⟩ := h.bound
    rcases m.jobs (readable_ok hr) with hf | ⟨-, ha⟩
    · obtain ⟨job', hj', hm⟩ := job_moved hf hatt hj
      refine ⟨job', hj', hm.jobId hid, ?_⟩
      cases hm with
      | published b' _ _ hnone => rw [hnone] at hlook; cases hlook
      | expired _ => unfold JobRecord.expired; split <;> exact hh
      | _ => exact hh
    · omega
  · cases m with
    | begun job t _ _ _ hm | progressed job remote t _ _ _ hm | polledFailed job remote code t _ _ _ hm =>
      exact absurd hm hnotReady
    | flagged job t hs => rcases h.status with hp | hp <;> rw [hs] at hp <;> cases hp
    | failed => exact .inr rfl
    | published job b' t _ _ _ _ _ hm => rw [hm] at hlook; cases hlook
    | retried t _ _ _ hn => rw [hn .manifest (by simp [originals])] at hlook; cases hlook
    | reviewed | approved => exact .inl rfl
    | _ => exact h.status

theorem stable_backed : Stable (fun _ => True) Backed where
  absent h0 r d hr := by rw [h0] at hr; cases hr
  frozen {v e h f} _ _ _ hp r d hr hd := by
    obtain ⟨b, hb⟩ := hp r d hr hd
    rw [after_log]
    exact ⟨b, hb.same fun _ _ _ => rfl⟩
  bounds {v e h f} _ _ hp r d hr hd := by
    obtain ⟨b, hb⟩ := hp r d hr hd
    exact ⟨b, hb.same fun _ _ _ => rfl⟩
  power {v} _ hp r d hr hd := by
    obtain ⟨b, hb⟩ := hp r d hr hd
    exact ⟨b, hb.same fun _ _ _ => rfl⟩
  damaged {v n d h f} _ hn hp r d' hr hd := by
    have hmeet : n ≠ .meeting := by rintro rfl; simp [resultNames] at hn
    have hman : n ≠ .manifest := by rintro rfl; simp [resultNames] at hn
    rw [Function.update_of_ne hmeet.symm] at hr
    rw [Function.update_of_ne hman.symm] at hd
    obtain ⟨b, hb⟩ := hp r d' hr hd
    exact ⟨b, hb.valid, hb.meeting, served_cons hb.served, hb.manifest, hb.bound, hb.status, fun hu =>
      absurd List.mem_cons_self (hu n d)⟩
  put {v n x} _ hl hn hin hp r d hr hd := by
    rw [Function.update_of_ne hn.symm] at hr
    -- under a manifest no artifact is written, and the manifest is written over all of them
    have hother : n ≠ .manifest → (∀ b : ResultBundleV1, ∀ n' x', (n', x') ∈ b.artifacts → n ≠ n') →
        ∃ b, BackedBy (v.put (.folder, n) x).log (Function.update v.files n (some x)) r d b := by
      intro hman hart
      rw [Function.update_of_ne hman.symm] at hd
      obtain ⟨b, hb⟩ := hp r d hr hd
      exact ⟨b, hb.same fun n' x' hx => Function.update_of_ne (hart b n' x' hx).symm _ _⟩
    have hnames : ∀ {n : Name}, n ≠ .transcript → n ≠ .insights → n ≠ .text → ∀ b : ResultBundleV1,
        ∀ n' x', (n', x') ∈ b.artifacts → n ≠ n' := by
      rintro n h₁ h₂ h₃ b n' x' hx rfl
      rcases artifact_name hx with h | h | h
      · exact h₁ h
      · exact h₂ h
      · exact h₃ h
    cases hl with
    | moved | born => exact absurd rfl hn
    | artifact r₀ b₀ n x hpub hs hx hfree =>
      have hunp := hpub.unpublished
      rw [look_of_reach (p := (.folder, .manifest)) (readable_reach hpub.readable)] at hunp
      have hman : (Name.manifest : Name) ≠ n := by rintro rfl; rcases artifact_name hx with h | h | h <;> cases h
      rw [Function.update_of_ne hman] at hd
      have hd' : v.img.vol (.folder, .manifest) = some d := hd
      rw [hunp] at hd'
      cases hd'
    | manifest r₀ b₀ hpub hs hb ha =>
      have hl := files_of_readable hpub.readable
      rw [hl] at hr
      cases hr
      rw [Function.update_self] at hd
      cases hd
      refine ⟨b₀, hpub.valid, hpub.meeting, served_cons hpub.served, rfl, hb, .inl (by rw [hs]; rfl), fun _ n' x' hx => ?_⟩
      rw [Function.update_of_ne (by rintro rfl; rcases artifact_name hx with h | h | h <;> cases h)]
      exact vol_of_look (ha n' x' hx)
    | uploaded | snapshot | review | pdf | pdfMarker => exact hother (by simp) (hnames (by simp) (by simp) (by simp))
  removed {v n} _ hl hn hin hp r d hr hd := by
    rw [Function.update_of_ne hn.symm] at hr
    have hman : n ≠ .manifest := by rintro rfl; rw [Function.update_self] at hd; cases hd
    rw [Function.update_of_ne hman.symm] at hd
    obtain ⟨b, hb⟩ := hp r d hr hd
    have hsame : (∀ n' x', (n', x') ∈ b.artifacts → n ≠ n') →
        ∃ b, BackedBy (v.drop (.folder, n)).log (Function.update v.files n none) r d b := fun hart =>
      ⟨b, hb.same fun n' x' hx => Function.update_of_ne (hart n' x' hx).symm _ _⟩
    cases hl with
    | withdrawn => exact absurd rfl hn
    | dropped r₀ n x hr₀ hs hx hdur hname hfirst =>
      have hnone := hfirst hman
      rw [look_of_reach (p := (.folder, .manifest)) (readable_reach hr₀)] at hnone
      have hd' : v.img.vol (.folder, .manifest) = some d := hd
      rw [hnone] at hd'
      cases hd'
    | pdfDropped r₀ n hr₀ hname =>
      refine hsame fun n' x' hx he => ?_
      subst he
      rcases artifact_name hx with h | h | h <;> rcases hname with h' | h' <;> rw [h] at h' <;> cases h'
    | uploadDropped r₀ hr₀ =>
      refine hsame fun n' x' hx he => ?_
      subst he
      rcases artifact_name hx with h | h | h <;> cases h
  moved {v r r'} _ hr hok hm ha hp r₁ d hr₁ hd := by
    rw [Function.update_self] at hr₁
    cases hr₁
    rw [Function.update_of_ne (by decide)] at hd
    obtain ⟨b, hb⟩ := hp r d (files_of_readable hr) hd
    obtain ⟨hatt, hbound, hst⟩ := hm.backed hr hd hb
    refine ⟨b, hb.valid, hb.meeting, served_cons hb.served, by rw [hatt]; exact hb.manifest, hbound, hst, fun hu n x hx => ?_⟩
    rw [Function.update_of_ne (by rintro rfl; rcases artifact_name hx with h | h | h <;> cases h)]
    exact hb.artifacts (undamaged_cons hu) n x hx
  born {v r} _ hl hr hv r₁ d hr₁ hd := by
    rw [Function.update_of_ne (by decide)] at hd
    cases hl with
    | moved r r' hrd _ _ ha => exact absurd hr ha
    | born metadata t kind hours audio extension _ _ _ hu ho =>
      have hd' : v.img.vol (.folder, .manifest) = some d := hd
      rw [ho .manifest (by decide)] at hd'
      cases hd'
    | artifact r b n x hp hst hx hn => simp [ResultBundleV1.artifacts] at hx

end Tirke
