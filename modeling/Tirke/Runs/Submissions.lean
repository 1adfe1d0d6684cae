import Tirke.Runs.Records
/-!
# What was sent, in every life

`Accounted`: every attempt audio was sent for has its job, and that job does not say it was never sent.
`Sourced`: all that was sent is the audio the meeting was created with, under a context that only the attempt
tells apart.
-/

set_option linter.unusedSectionVars false

namespace Tirke

open CrashProg CrashDisk

variable [Lib] [Home] [Weather] {v v' : View} {r r' : MeetingRecord} {j j' : JobRecord} {e : Event} {rot : Prop}

/-- The upload as it was written last. -/
def stored : List Event → Option Doc
  | [] => none
  | .file (.put (.folder, .upload) x) :: _ => some x
  | _ :: log => stored log

/-! ## The log under one event -/

theorem Legal.running (h : Legal v e) : running (e :: v.log) = running v.log := by cases h <;> rfl

theorem bounds_running (h : e.bounds) (hr : running (e :: v.log) = none) : running v.log = none := by
  cases e with
  | started a => cases hr
  | finished _ | killed => exact hr
  | _ => exact h.elim

/-- Only `gpu.submit` sends anything, and only when it may. -/
theorem Legal.sends (h : Legal v e) : sends (e :: v.log) = sends v.log ∨ ∃ key context audio suffix a r job sha,
    e = .asked (.submit key context audio suffix) a ∧ MaySubmit v key context audio suffix r job sha := by
  cases h with
  | submit key context audio suffix a r job sha h => exact .inr ⟨key, context, audio, suffix, a, r, job, sha, rfl, h⟩
  | _ => exact .inl rfl

/-- Only a creation writes an upload. -/
theorem Legal.stored (h : Legal v e) : stored (e :: v.log) = stored v.log ∨
    ∃ x, e = .file (.put (.folder, .upload) x) ∧ v.Void ∧ v.backup .upload = none := by
  cases h with
  | uploaded x hv hr hd => exact .inr ⟨x, rfl, hv, hd⟩
  | artifact r b n x hp hs hx =>
    simp only [ResultBundleV1.artifacts, List.mem_cons, Prod.mk.injEq, List.not_mem_nil, or_false] at hx
    rcases hx with ⟨rfl, -⟩ | ⟨rfl, -⟩ | ⟨rfl, -⟩ <;> exact .inl rfl
  | _ => exact .inl rfl

theorem bounds_silent (h : e.bounds) : sends (e :: v.log) = sends v.log ∧ stored (e :: v.log) = stored v.log := by
  cases e with
  | started _ | finished _ | killed => exact ⟨rfl, rfl⟩
  | _ => exact h.elim

/-- A copy whose marker was checked before a submission holds the record that was submitted. -/
theorem MaySubmit.copy {key : UUID × Nat} {context : GPUContextV1} {audio : Doc} {suffix : Option AudioExtension}
    {job : JobRecord} {sha : Sha256} (h : MaySubmit v key context audio suffix r job sha) {f : Name → Option Doc}
    (hf : f = v.files ∧ v.inPlay ∨ f = v.backup) (hr : f .meeting = some (.record r')) : r' = r := by
  rcases hf with ⟨rfl, -⟩ | rfl
  · have := files_of_readable h.readable
    rw [this] at hr
    cases hr
    rfl
  · rw [View.backup, h.durable] at hr
    cases hr
    rfl

/-! ## Accounts -/

/-- Nothing is sent before the meeting exists. -/
def Unsent (v : View) : Prop := running v.log = none → sends v.log = []

def Accounted : Property := fun v _ f => ∀ r, f .meeting = some (.record r) →
  (∀ k ∈ submissions v.log, ∃ j ∈ r.jobs, j.attempt = k ∧ j.submitStarted ≠ some false) ∧
    (running v.log = none → r.jobs = [.new 1 (some false)] ∧ r.localCleanupStatus = .pending)

theorem JobMoved.sent (h : JobMoved v r r' j j') (hs : j.submitStarted ≠ some false) : j'.submitStarted ≠ some false := by
  cases h with
  | flagged _ _ => exact nofun
  | expired _ => unfold JobRecord.expired; split <;> exact hs
  | _ => exact hs

/-- The job of an attempt survives a move. -/
theorem Move.keeps_sent (m : Move v r r') (h : r.ok = true) {k : Nat}
    (hj : ∃ j ∈ r.jobs, j.attempt = k ∧ j.submitStarted ≠ some false) :
    ∃ j ∈ r'.jobs, j.attempt = k ∧ j.submitStarted ≠ some false := by
  obtain ⟨j, hj, rfl, hs⟩ := hj
  rcases m.jobs h with hf | ⟨hf, -⟩
  · obtain ⟨i, hi, rfl⟩ := List.getElem_of_mem hj
    have hi' : i < r'.jobs.length := hf.length_eq ▸ hi
    have hmv : JobMoved v r r' r.jobs[i] r'.jobs[i] := hf.get hi hi'
    exact ⟨_, List.getElem_mem hi', hmv.attempt, hmv.sent hs⟩
  · exact ⟨j, by rw [hf]; exact List.mem_append_left _ hj, rfl, hs⟩

theorem Accounted.same {h : History} {f g : Name → Option Doc} (hp : Accounted v h f) (hg : g .meeting = f .meeting)
    (hs : sends v'.log = sends v.log) (hr : Tirke.running v'.log = none → Tirke.running v.log = none) :
    Accounted v' h g := by
  intro r hm
  rw [hg] at hm
  obtain ⟨h₁, h₂⟩ := hp r hm
  exact ⟨fun k hk => h₁ k (by rwa [submissions, hs] at hk), fun h => h₂ (hr h)⟩

theorem stable_accounted : Stable Unsent Accounted where
  absent h0 r hr := by rw [h0] at hr; cases hr
  frozen {v e h f} _ hl hf hp r hr := by
    obtain ⟨h₁, h₂⟩ := hp r hr
    rcases hl.sends with hs | ⟨key, context, audio, suffix, a, r₀, job, sha, rfl, hsub⟩
    · exact hp.same (h := h) rfl (by rw [after_log]; exact hs) (by rw [after_log, hl.running]; exact id) r hr
    · refine ⟨fun k hk => ?_, h₂⟩
      obtain rfl := hsub.copy hf hr
      rcases List.mem_cons.1 hk with hk | hk
      · refine ⟨job, job_mem hsub.isJob, ?_, by rw [hsub.flagged]; exact nofun⟩
        rw [job_attempt hsub.isJob, hk, hsub.key]
      · exact h₁ k hk
  bounds {v e h f} _ he hp := hp.same (h := h) rfl (bounds_silent he).1 (bounds_running he)
  power {v} _ hp := hp.same (h := v.kept) rfl rfl id
  damaged {v n d h f} _ hn hp := hp.same (h := h) (Function.update_of_ne (by rintro rfl; simp [resultNames] at hn) _ _) rfl id
  put {v n x} _ _ hn _ hp := hp.same (h := v.hist) (Function.update_of_ne hn.symm _ _) rfl id
  removed {v n} _ _ hn _ hp := hp.same (h := v.hist) (Function.update_of_ne hn.symm _ _) rfl id
  moved {v r r'} _ hr hok hm ha hp r₁ hr₁ := by
    rw [Function.update_self] at hr₁
    cases hr₁
    obtain ⟨h₁, -⟩ := hp r (files_of_readable hr)
    exact ⟨fun k hk => hm.keeps_sent (readable_ok hr) (h₁ k hk), fun h => absurd h ha⟩
  born {v r} hi hl hr hv r₁ hr₁ := by
    rw [Function.update_self] at hr₁
    cases hr₁
    have hnone : submissions v.log = [] := by rw [submissions, hi hr]; rfl
    refine ⟨fun k hk => ?_, fun _ => ?_⟩
    · have hk' : k ∈ submissions v.log := hk
      rw [hnone] at hk'
      cases hk'
    · cases hl with
      | moved r r' hrd _ _ ha => exact absurd hr ha
      | born => exact ⟨rfl, rfl⟩
      | artifact r b n x hp hst hx hn => simp [ResultBundleV1.artifacts] at hx

/-- A job that says it was never sent, was not. -/
theorem Accounted.unsent {h : History} {f : Name → Option Doc} (hp : Accounted v h f) (hr : f .meeting = some (.record r))
    (hok : r.ok = true) (hj : j ∈ r.jobs) (hs : j.submitStarted = some false) : j.attempt ∉ submissions v.log := by
  intro hk
  obtain ⟨j', hj', ha, hs'⟩ := (hp r hr).1 _ hk
  have hnd : (r.jobs.map (·.attempt)).Nodup := (ok_iff.1 hok).2.2.1
  obtain rfl := List.inj_on_of_nodup_map hnd hj' hj ha
  exact hs' hs

/-! ## A meeting of an older build -/

theorem running_legacy {audio : Bytes} {answers : List Response} :
    Tirke.running (legacyLog r audio answers) = some .processOnce := by
  induction answers with
  | nil => rfl
  | cons a answers ih => exact ih

theorem stored_legacy {audio : Bytes} {answers : List Response} :
    Tirke.stored (legacyLog r audio answers) = some (.blob audio) := by
  induction answers with
  | nil => rfl
  | cons a answers ih => exact ih

theorem sends_legacy {audio : Bytes} {answers : List Response} {s : Submission}
    (h : s ∈ Tirke.sends (legacyLog r audio answers)) :
    s = ⟨(r.meeting.id, r.meeting.attempt), r.context (Lib.sha256 (.blob audio)), .blob audio, r.audioExtension⟩ := by
  induction answers with
  | nil => cases h
  | cons a answers ih =>
    have h' : s ∈ (⟨(r.meeting.id, r.meeting.attempt), r.context (Lib.sha256 (.blob audio)), .blob audio,
        r.audioExtension⟩ : Submission) :: Tirke.sends (legacyLog r audio answers) := h
    rcases List.mem_cons.1 h' with h' | h'
    · exact h'
    · exact ih h'

theorem Accounted.legacy {audio : Bytes} (hl : Legacy v r audio) {h : History} :
    Accounted v h fun n => legacyFiles r audio (.folder, n) := by
  obtain ⟨answers, hlog⟩ := hl.log
  obtain ⟨metadata, t, kind, hours, extension, -, hrec⟩ := hl.isNew
  intro r₁ hr₁
  have hr₁' : some (Doc.record r) = some (.record r₁) := hr₁
  cases hr₁'
  rw [hlog]
  refine ⟨fun k hk => ?_, fun hn => by rw [running_legacy] at hn; cases hn⟩
  obtain ⟨s, hs, rfl⟩ := List.mem_map.1 hk
  rw [sends_legacy hs, hrec]
  exact ⟨_, List.mem_cons_self, rfl, nofun⟩

/-! ## The source -/

/-- Whatever the folder holds as its upload is what was written last. -/
def Uploaded (v : View) : Prop := ∀ x, v.files .upload = some x ∨ v.backup .upload = some x → stored v.log = some x

/-- The context of another attempt of the same meeting. -/
def GPUContextV1.forAttempt (c : GPUContextV1) (n : Nat) : GPUContextV1 := { c with attempt := n }

theorem context_identity {sha : Sha256} {n : Nat} (h : r'.identity = r.identity) :
    (r'.context sha).forAttempt n = (r.context sha).forAttempt n := by
  have hid : r'.meeting.id = r.meeting.id := congrArg Identity.id h
  have hmd : r'.meeting.toMeetingMetadata = r.meeting.toMeetingMetadata := congrArg Identity.metadata h
  simp only [MeetingRecord.context, GPUContextV1.forAttempt, hid, hmd]

/-- What may be sent for a meeting with this audio. -/
def MeetingRecord.submission (r : MeetingRecord) (audio : Doc) (n : Nat) : Submission :=
  ⟨(r.meeting.id, n), (r.context (Lib.sha256 audio)).forAttempt n, audio, r.audioExtension⟩

def Sourced : Property := fun v _ f => ∀ r, f .meeting = some (.record r) → ∃ audio, stored v.log = some audio ∧
  r.audioSha256 = some (Lib.sha256 audio) ∧ ∀ s ∈ sends v.log, s = r.submission audio s.key.2

theorem submission_identity {audio : Doc} {n : Nat} (h : r'.identity = r.identity) :
    r'.submission audio n = r.submission audio n := by
  have hid : r'.meeting.id = r.meeting.id := congrArg Identity.id h
  have hext : r'.audioExtension = r.audioExtension := congrArg Identity.audioExtension h
  simp only [MeetingRecord.submission, context_identity h, hid, hext]

theorem Sourced.same {h : History} {f g : Name → Option Doc} (hp : Sourced v h f) (hg : g .meeting = f .meeting)
    (hs : sends v'.log = sends v.log) (hst : stored v'.log = stored v.log) : Sourced v' h g := by
  intro r hm
  rw [hg] at hm
  rw [hs, hst]
  exact hp r hm

theorem stable_sourced : Stable (fun v => Unsent v ∧ Uploaded v) Sourced where
  absent h0 r hr := by rw [h0] at hr; cases hr
  frozen {v e h f} hi hl hf hp r hr := by
    rcases hl.stored with hst | ⟨-, -, hv, -⟩
    · rcases hl.sends with hs | ⟨key, context, audio, suffix, a, r₀, job, sha, rfl, hsub⟩
      · exact hp.same (h := h) rfl (by rw [after_log]; exact hs) (by rw [after_log]; exact hst) r hr
      · obtain ⟨audio₀, h₁, h₂, h₃⟩ := hp r hr
        refine ⟨audio₀, h₁, h₂, fun s hs => ?_⟩
        rcases List.mem_cons.1 hs with rfl | hs
        · obtain rfl := hsub.copy hf hr
          have hau : some audio₀ = some audio := h₁.symm.trans (hi.2 audio (.inl (vol_of_look hsub.upload)))
          cases hau
          have hsha : some sha = some (Lib.sha256 audio) := hsub.source.symm.trans h₂
          cases hsha
          simp only [MeetingRecord.submission, hsub.key, hsub.context, hsub.suffix]
          rfl
        · exact h₃ s hs
    · -- an upload is written only before there is a marker
      rcases hf with ⟨rfl, -⟩ | rfl
      · rw [View.files, hv.1] at hr; cases hr
      · rw [View.backup, hv.2] at hr; cases hr
  bounds {v e h f} _ he hp := hp.same (h := h) rfl (bounds_silent he).1 (bounds_silent he).2
  power {v} _ hp := hp.same (h := v.kept) rfl rfl rfl
  damaged {v n d h f} _ hn hp := hp.same (h := h) (Function.update_of_ne (by rintro rfl; simp [resultNames] at hn) _ _) rfl rfl
  put {v n x} _ hl hn hi hp r hr := by
    have hmem : v.files .meeting = some (.record r) := (Function.update_of_ne hn.symm _ _).symm.trans hr
    have hst : stored (v.put (.folder, n) x).log = stored v.log := by
      refine hl.stored.resolve_right ?_
      rintro ⟨-, -, hv, -⟩
      rw [View.files, hv.1] at hmem
      cases hmem
    have hsame : Sourced (v.put (.folder, n) x) v.hist v.files := hp.same rfl rfl hst
    exact hsame r hmem
  removed {v n} _ _ hn _ hp := hp.same (h := v.hist) (Function.update_of_ne hn.symm _ _) rfl rfl
  moved {v r r'} _ hr hok hm ha hp r₁ hr₁ := by
    rw [Function.update_self] at hr₁
    cases hr₁
    obtain ⟨audio, h₁, h₂, h₃⟩ := hp r (files_of_readable hr)
    have hid := hm.identity
    refine ⟨audio, h₁, (congrArg Identity.audioSha256 hid).trans h₂, fun s hs => ?_⟩
    rw [submission_identity hid]
    exact h₃ s hs
  born {v r} hi hl hr hv r₁ hr₁ := by
    rw [Function.update_self] at hr₁
    cases hr₁
    cases hl with
    | moved r r' hrd _ _ ha => exact absurd hr ha
    | born metadata t kind hours audio extension _ _ _ hu =>
      refine ⟨.blob audio, hi.2 _ (.inl (vol_of_look hu)), rfl, fun s hs => ?_⟩
      have hs' : s ∈ Tirke.sends v.log := hs
      rw [hi.1 hr] at hs'
      cases hs'
    | artifact r b n x hp hst hx hn => simp [ResultBundleV1.artifacts] at hx

theorem Sourced.legacy {audio : Bytes} (hl : Legacy v r audio) {h : History} :
    Sourced v h fun n => legacyFiles r audio (.folder, n) := by
  obtain ⟨answers, hlog⟩ := hl.log
  obtain ⟨metadata, t, kind, hours, extension, -, hrec⟩ := hl.isNew
  intro r₁ hr₁
  have hr₁' : some (Doc.record r) = some (.record r₁) := hr₁
  cases hr₁'
  rw [hlog]
  refine ⟨.blob audio, stored_legacy, by rw [hrec]; rfl, fun s hs => ?_⟩
  rw [sends_legacy hs]
  rfl

/-! ## The two facts about the log -/

theorem Unsent.step (hs : Unsent v) (ha : Holds Accounted v) (hh : Happens rot v v') : Unsent v' := by
  cases hh with
  | lawful e hl =>
    intro hr
    rw [after_log, hl.running] at hr
    rw [after_log]
    rcases hl.sends with he | ⟨key, context, audio, suffix, a, r, job, sha, rfl, hsub⟩
    · rw [he]; exact hs hr
    · -- before the first action every job says it was never sent
      have hin := inPlay_of_readable hsub.readable
      have hjobs := ((ha.now hin r (files_of_readable hsub.readable)).2 hr).1
      have hmem := job_mem hsub.isJob
      rw [hjobs, List.mem_singleton] at hmem
      have hflag := hsub.flagged
      rw [hmem] at hflag
      cases hflag
  | bounds e he =>
    intro hr
    exact (bounds_silent he).1.trans (hs (bounds_running he hr))
  | power => exact hs
  | damaged => exact hs

theorem Uploaded.step (hu : Uploaded v) (hh : Happens rot v v') : Uploaded v' := by
  have hsame : ∀ {v'' : View}, (∀ x, v''.files .upload = some x → v.files .upload = some x ∨ v.backup .upload = some x) →
      (∀ x, v''.backup .upload = some x → v.files .upload = some x ∨ v.backup .upload = some x) →
      stored v''.log = stored v.log → Uploaded v'' := by
    intro v'' hf hb hst x hx
    rw [hst]
    exact hu x (hx.elim (hf x) (hb x))
  cases hh with
  | bounds e he => exact hsame (fun x => .inl) (fun x => .inr) (bounds_silent he).2
  | power => exact hsame (fun x => .inr) (fun x => .inr) rfl
  | damaged n d _ hn hl =>
    have hne : ((.folder, .upload) : Path) ≠ (.folder, n) := by rintro he; cases he; simp [resultNames] at hn
    refine hsame (fun x hx => .inl ?_) (fun x hx => .inr ?_) rfl
    · exact (Function.update_of_ne hne _ _).symm.trans hx
    · exact (Function.update_of_ne hne _ _).symm.trans hx
  | lawful e hl =>
    have hf : ∀ x, (v.after e).files .upload = some x → v.files .upload = some x ∨ e = .file (.put (.folder, .upload) x) := by
      intro x hx
      cases e with
      | file e => exact (Images.vol_apply hx).imp id (congrArg Event.file)
      | _ => exact .inl hx
    have hb : ∀ x, (v.after e).backup .upload = some x → v.backup .upload = some x ∨ v.files .upload = some x := by
      intro x hx
      cases e with
      | file e => exact Images.dur_apply hx
      | _ => exact .inl hx
    rcases hl.stored with hst | ⟨y, rfl, hv, hd⟩
    · have hne : ∀ x, v.files .upload = some x ∨ e = .file (.put (.folder, .upload) x) →
          v.files .upload = some x ∨ stored v.log = some x := by
        rintro x (hx | rfl)
        · exact .inl hx
        · exact .inr hst.symm
      intro x hx
      rw [after_log, hst]
      rcases hx with hx | hx
      · exact (hne x (hf x hx)).elim (fun h => hu x (.inl h)) id
      · exact hu x (hb x hx).symm
    · intro x hx
      rcases hx with hx | hx
      · rcases hf x hx with h | h
        · have : (v.after (.file (.put (.folder, .upload) y))).files .upload = some y := by
            simp [View.files, Images.apply]
          rw [this] at hx
          exact hx
        · cases h; rfl
      · have hx' : v.backup .upload = some x := hx
        rw [hd] at hx'
        cases hx'

end Tirke
