import Tirke.Runs.Results
/-!
# Cleanup is not claimed without proof

`Cleared`: a record that says the local copy is gone stands over a folder without upload, and a job that says
the remote copy is gone has the GPU's word for it, or was never sent and cannot be sent any more.
-/

set_option linter.unusedSectionVars false

namespace Tirke

open CrashProg CrashDisk

variable [Lib] [Home] [Weather] {v v' : View} {r r' : MeetingRecord} {j j' : JobRecord} {e : Event} {rot : Prop}

/-- The GPU said of its job `id` that the cleanup status is `s`. -/
def confirmed (log : List Event) (id : UUID) (s : CleanupStatus) : Prop :=
  (∃ q remote, told log q remote ∧ remote.jobId = id ∧ remote.cleanupStatus = s) ∨
    ∃ resultHash receipt, acknowledged log id resultHash receipt ∧ receipt.cleanupStatus = s

theorem told_cons {log : List Event} {q : Request} {remote : JobV1} (h : told log q remote) : told (e :: log) q remote := by
  obtain ⟨a, ha, hb⟩ := h
  exact ⟨a, List.mem_cons_of_mem _ ha, hb⟩

theorem confirmed_cons {log : List Event} {id : UUID} {s : CleanupStatus} (h : confirmed log id s) :
    confirmed (e :: log) id s := by
  rcases h with ⟨q, remote, ht, hid, hs⟩ | ⟨hash, receipt, ⟨a, ha, hb⟩, hs⟩
  · exact .inl ⟨q, remote, told_cons ht, hid, hs⟩
  · exact .inr ⟨hash, receipt, ⟨a, List.mem_cons_of_mem _ ha, hb⟩, hs⟩

theorem Heard.told {job : JobRecord} {remote : JobV1} {log : List Event} (h : Heard log r job remote) :
    ∃ q, Tirke.told log q remote := by
  have hmem : ∀ q, hears log q remote → ∃ q, Tirke.told log q remote := by
    rintro q ⟨a, rest, rfl, ha⟩
    exact ⟨q, a, List.mem_cons_self, ha⟩
  cases h with
  | polled _ h => exact hmem _ h
  | looked _ h => exact hmem _ h
  | submitted _ _ _ _ h => exact hmem _ h

/-- An upload that is gone stays gone, for want of a creation. -/
theorem Legal.uploadGone (h : Legal v e) (hg : v.uploadGone) : (v.after e).uploadGone ∨ v.Void := by
  rcases h.stored with - | ⟨x, -, hv, -⟩
  · by_cases hv : v.Void
    · exact .inr hv
    refine .inl ⟨?_, ?_⟩
    · cases hx : (v.after e).img.vol (.folder, .upload) with
      | none => rfl
      | some x =>
        cases e with
        | file e =>
          rcases Images.vol_apply hx with hx | rfl
          · rw [hg.1] at hx; cases hx
          · cases h with
            | uploaded _ hv' => exact absurd hv' hv
            | artifact r b n x hp hs hm =>
              rcases artifact_name hm with hn | hn | hn <;> cases hn
        | _ => exact hx.symm.trans hg.1
    · cases hx : (v.after e).img.dur (.folder, .upload) with
      | none => rfl
      | some x =>
        cases e with
        | file e =>
          rcases Images.dur_apply hx with hx | hx
          · rw [hg.2] at hx; cases hx
          · rw [hg.1] at hx; cases hx
        | _ => exact hx.symm.trans hg.2
  · exact .inr hv

/-- Why a job may say that its copy is gone. -/
def Explained (log : List Event) (r : MeetingRecord) (j : JobRecord) : Prop :=
  (∃ id, j.jobId = some id ∧ confirmed log id j.cleanupStatus) ∨
    (j.attempt ∉ submissions log ∧ r.localCleanupStatus ≠ .pending)

def Cleared : Property := fun v _ f => ∀ r, f .meeting = some (.record r) →
  (r.localCleanupStatus ≠ .pending → v.uploadGone) ∧
    ∀ j ∈ r.jobs, j.cleanupStatus ≠ .pending → Explained v.log r j

theorem Explained.same {log log' : List Event} (h : Explained log r j) (hs : submissions log' = submissions log)
    (hc : ∀ id s, confirmed log id s → confirmed log' id s) : Explained log' r j := by
  rcases h with ⟨id, hid, h⟩ | ⟨h, hl⟩
  · exact .inl ⟨id, hid, hc id _ h⟩
  · exact .inr ⟨by rwa [hs], hl⟩

/-- What a move does to a job is explained. -/
theorem JobMoved.explained (h : JobMoved v r r' j j') (hl : r.localCleanupStatus ≠ .pending → r'.localCleanupStatus ≠ .pending)
    (hu : j.submitStarted = some false → j.attempt ∉ submissions v.log)
    (hj : j.cleanupStatus ≠ .pending → Explained v.log r j) (hp : j'.cleanupStatus ≠ .pending) : Explained v.log r' j' := by
  have hkeep : j'.attempt = j.attempt → j'.jobId = j.jobId → j'.cleanupStatus = j.cleanupStatus → Explained v.log r' j' := by
    intro ha hid hc
    rw [hc] at hp
    rcases hj hp with ⟨id, hi, h⟩ | ⟨h, hl'⟩
    · exact .inl ⟨id, by rw [hid]; exact hi, by rw [hc]; exact h⟩
    · exact .inr ⟨by rw [ha]; exact h, hl hl'⟩
  cases h with
  | kept | flagged _ _ => exact hkeep rfl rfl rfl
  | reconciled id remote hid ht hr => exact .inl ⟨id, hid, .inl ⟨_, remote, ht, hr, rfl⟩⟩
  | polled remote _ hh =>
    obtain ⟨q, hq⟩ := hh.told
    exact .inl ⟨_, rfl, .inl ⟨q, remote, hq, rfl, rfl⟩⟩
  | published b _ hid _ => exact hkeep rfl hid.symm rfl
  | acked id hash receipt _ hid _ ha => exact .inl ⟨id, hid, .inr ⟨hash, receipt, ha, rfl⟩⟩
  | expired hl' =>
    unfold JobRecord.expired at hp hkeep ⊢
    split at hp
    · next hc =>
      simp only [Bool.and_eq_true, decide_eq_true_eq] at hc
      simp only [hc, Bool.and_self, decide_true, if_true]
      exact .inr ⟨hu hc.1.2, hl'⟩
    · next hc =>
      rw [if_neg hc] at hkeep ⊢
      exact hkeep rfl rfl rfl

theorem Move.cleaned (m : Move v r r') (h : r'.localCleanupStatus ≠ .pending) :
    r.localCleanupStatus ≠ .pending ∨ v.uploadGone := by
  cases m with
  | published job b t _ _ _ hj => rw [published_eq hj] at h; exact .inl h
  | localDeleted t _ _ hu => exact .inr hu
  | expired t _ hu => exact .inr hu
  | _ => exact .inl h

theorem Cleared.same {h : History} {f g : Name → Option Doc} (hp : Cleared v h f) (hg : g .meeting = f .meeting)
    (hu : v.uploadGone → v'.uploadGone) (hs : submissions v'.log = submissions v.log)
    (hc : ∀ id s, confirmed v.log id s → confirmed v'.log id s) : Cleared v' h g := by
  intro r hr
  rw [hg] at hr
  obtain ⟨h₁, h₂⟩ := hp r hr
  exact ⟨fun hl => hu (h₁ hl), fun j hj hpend => (h₂ j hj hpend).same hs hc⟩

theorem uploadGone_damaged {n : Name} {d : Option Doc} (hn : n ∈ resultNames) (h : v.uploadGone) :
    (v.damaged n d).uploadGone := by
  have hne : ((.folder, .upload) : Path) ≠ (.folder, n) := by rintro he; cases he; simp [resultNames] at hn
  exact ⟨(Function.update_of_ne hne _ _).trans h.1, (Function.update_of_ne hne _ _).trans h.2⟩

theorem stable_cleared : Stable (Holds Accounted) Cleared where
  absent h0 r hr := by rw [h0] at hr; cases hr
  frozen {v e h f} _ hl hf hp r hr := by
    have hnv : ¬ v.Void := by
      rintro ⟨h₁, h₂⟩
      rcases hf with ⟨rfl, -⟩ | rfl
      · rw [View.files, h₁] at hr; cases hr
      · rw [View.backup, h₂] at hr; cases hr
    have hgone : v.uploadGone → (v.after e).uploadGone := fun hg => (hl.uploadGone hg).resolve_right hnv
    rcases hl.sends with hs | ⟨key, context, audio, suffix, a, r₀, job, sha, rfl, hsub⟩
    · exact hp.same (h := h) rfl hgone (by rw [after_log, submissions, submissions, hs])
        (fun id s hc => by rw [after_log]; exact confirmed_cons hc) r hr
    · obtain ⟨h₁, h₂⟩ := hp r hr
      obtain rfl := hsub.copy hf hr
      -- the upload that is being sent is still there
      have hpend : r.localCleanupStatus = .pending := by
        by_contra hne
        have hvol := vol_of_look hsub.upload
        rw [(h₁ hne).1] at hvol
        cases hvol
      refine ⟨fun hne => absurd hpend hne, fun j hj hjp => ?_⟩
      rcases h₂ j hj hjp with ⟨id, hid, hc⟩ | ⟨-, hne⟩
      · exact .inl ⟨id, hid, confirmed_cons hc⟩
      · exact absurd hpend hne
  bounds {v e h f} _ he hp := hp.same (h := h) rfl id (by rw [submissions, submissions]; exact congrArg _ (bounds_silent he).1)
    fun _ _ => confirmed_cons
  power {v} _ hp := hp.same (h := v.kept) rfl (fun hg => ⟨hg.2, hg.2⟩) rfl fun _ _ => confirmed_cons
  damaged {v n d h f} _ hn hp := hp.same (h := h) (Function.update_of_ne (by rintro rfl; simp [resultNames] at hn) _ _)
    (uploadGone_damaged hn) rfl fun _ _ => confirmed_cons
  put {v n x} _ hl hn _ hp r hr := by
    have hmem : v.files .meeting = some (.record r) := (Function.update_of_ne hn.symm _ _).symm.trans hr
    have hnv : ¬ v.Void := fun hv => by rw [View.files, hv.1] at hmem; cases hmem
    have hsame : Cleared (v.put (.folder, n) x) v.hist v.files :=
      hp.same rfl (fun hg => (hl.uploadGone hg).resolve_right hnv) rfl fun _ _ => confirmed_cons
    exact hsame r hmem
  removed {v n} _ hl hn _ hp r hr := by
    have hmem : v.files .meeting = some (.record r) := (Function.update_of_ne hn.symm _ _).symm.trans hr
    have hnv : ¬ v.Void := fun hv => by rw [View.files, hv.1] at hmem; cases hmem
    have hsame : Cleared (v.drop (.folder, n)) v.hist v.files :=
      hp.same rfl (fun hg => (hl.uploadGone hg).resolve_right hnv) rfl fun _ _ => confirmed_cons
    exact hsame r hmem
  moved {v r r'} hi hr hok hm ha hp r₁ hr₁ := by
    rw [Function.update_self] at hr₁
    cases hr₁
    have hmem := files_of_readable hr
    have hin := inPlay_of_readable hr
    obtain ⟨h₁, h₂⟩ := hp r hmem
    refine ⟨fun hl => ?_, fun j' hj' hpend => ?_⟩
    · have hg : v.uploadGone := (hm.cleaned hl).elim h₁ id
      exact ⟨(vol_put_of_ne (by decide)).trans hg.1, hg.2⟩
    · have hex : Explained v.log r' j' := by
        rcases hm.jobs (readable_ok hr) with hf | ⟨hf, -⟩
        · obtain ⟨i, hi', rfl⟩ := List.getElem_of_mem hj'
          have hlt : i < r.jobs.length := hf.length_eq ▸ hi'
          have hmem' := List.getElem_mem hlt
          exact (hf.get hlt hi').explained hm.cleaned_stays
            ((hi.now hin).unsent hmem (readable_ok hr) hmem') (h₂ _ hmem') hpend
        · rw [hf, List.mem_append, List.mem_singleton] at hj'
          rcases hj' with hj' | rfl
          · rcases h₂ j' hj' hpend with h | ⟨h, hl⟩
            · exact .inl h
            · exact .inr ⟨h, hm.cleaned_stays hl⟩
          · exact absurd rfl hpend
      exact hex.same rfl fun _ _ => confirmed_cons
  born {v r} _ hl hr hv r₁ hr₁ := by
    rw [Function.update_self] at hr₁
    cases hr₁
    cases hl with
    | moved r r' hrd _ _ ha => exact absurd hr ha
    | born => exact ⟨fun h => absurd rfl h, fun j hj hp => by
        simp only [MeetingRecord.new, List.mem_singleton] at hj
        rw [hj] at hp
        exact absurd rfl hp⟩
    | artifact r b n x hp hst hx hn => simp [ResultBundleV1.artifacts] at hx

theorem Cleared.legacy {audio : Bytes} (hl : Legacy v r audio) {h : History} :
    Cleared v h fun n => legacyFiles r audio (.folder, n) := by
  obtain ⟨metadata, t, kind, hours, extension, -, hrec⟩ := hl.isNew
  intro r₁ hr₁
  have hr₁' : some (Doc.record r) = some (.record r₁) := hr₁
  cases hr₁'
  rw [hrec]
  refine ⟨fun h => absurd rfl h, fun j hj hp => ?_⟩
  simp only [MeetingRecord.legacy, List.mem_singleton] at hj
  rw [hj] at hp
  exact absurd rfl hp

end Tirke
