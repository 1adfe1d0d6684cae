import Tirke.Theorems.Acknowledgement
import Tirke.Runs.Written
/-!
# At most one logical submission for each attempt

The client may crash, and every exchange may be lost. Still all that is sent for one attempt is one and the same
submission, and once its job is known on disk the attempt keeps it.
-/

set_option linter.unusedSectionVars false

namespace Tirke

open CrashProg CrashDisk

section
variable [Lib] [Home] {v v' : View} {r r' : MeetingRecord} {e : Event} {c c' : Config} {rot : Prop}

/-! ## What is sent for one attempt -/

/-- Two submissions of one attempt are the same, and each says the hash of its audio. -/
structure Coherent (log : List Event) : Prop where
  same : ∀ s ∈ sends log, ∀ s' ∈ sends log, s.key.2 = s'.key.2 → s = s'
  hashed : ∀ s ∈ sends log, s.context.audioSha256 = Lib.sha256 s.audio

theorem Coherent.of_source {log : List Event} {audio : Doc} (h : ∀ s ∈ sends log, s = r.submission audio s.key.2) :
    Coherent log := by
  refine ⟨fun s hs s' hs' hk => ?_, fun s hs => ?_⟩
  · rw [h s hs, h s' hs', hk]
  · rw [h s hs]
    rfl

theorem Coherent.lawful (h : Coherent v.log) (hi : Inv v) (hl : Legal v e) : Coherent (v.after e).log := by
  rcases hl.sends with hs | ⟨key, context, audio, suffix, a, r, job, sha, rfl, hsub⟩
  · rw [after_log]
    exact ⟨by rw [hs]; exact h.same, by rw [hs]; exact h.hashed⟩
  · have hp : Sourced (v.after (.asked (.submit key context audio suffix) a)) v.hist v.files :=
      stable_sourced.frozen ⟨hi.unsent, hi.uploaded⟩ hl (.inl ⟨rfl, inPlay_of_readable hsub.readable⟩)
        (hi.sourced.now (inPlay_of_readable hsub.readable))
    obtain ⟨audio₀, -, -, h₀⟩ := hp r (files_of_readable hsub.readable)
    exact .of_source h₀

theorem Life.coherent (h : Life rot v) : Coherent v.log := by
  induction h with
  | blank h =>
    rw [h.log]
    exact ⟨fun s hs => absurd hs List.not_mem_nil, fun s hs => absurd hs List.not_mem_nil⟩
  | legacy h =>
    obtain ⟨answers, hl⟩ := h.log
    rw [hl]
    exact ⟨fun s hs s' hs' _ => (sends_legacy hs).trans (sends_legacy hs').symm, fun s hs => by rw [sends_legacy hs]; rfl⟩
  | step h hh ih =>
    cases hh with
    | lawful e hl => exact ih.lawful h.inv hl
    | bounds e he =>
      have hs := (bounds_silent (v := ‹View›) he).1
      exact ⟨by rw [View.note_log, hs]; exact ih.same, by rw [View.note_log, hs]; exact ih.hashed⟩
    | power => exact ⟨ih.same, ih.hashed⟩
    | damaged => exact ⟨ih.same, ih.hashed⟩

/-! ## A job that is known stays known -/

/-- The record knows the job of attempt `n` as `id`. -/
def MeetingRecord.knows (r : MeetingRecord) (n : Nat) (id : UUID) : Prop :=
  ∃ j ∈ r.jobs, j.attempt = n ∧ j.jobId = some id

theorem Evolves.knows {n : Nat} {id : UUID} (h : Evolves r r') (hk : r.knows n id) : r'.knows n id := by
  obtain ⟨j, hj, rfl, hid⟩ := hk
  obtain ⟨j', hj', ha, hid'⟩ := h.jobs j hj
  exact ⟨j', hj', ha, hid' id hid⟩

/-- Attempts are unique, so the identity is. -/
theorem MeetingRecord.knows.unique {n : Nat} {id id' : UUID} (hok : r.ok = true) (h : r.knows n id) (h' : r.knows n id') :
    id = id' := by
  obtain ⟨j, hj, rfl, hid⟩ := h
  obtain ⟨j', hj', ha, hid'⟩ := h'
  have hnd : (r.jobs.map (·.attempt)).Nodup := (ok_iff.1 hok).2.2.1
  obtain rfl := List.inj_on_of_nodup_map hnd hj' hj ha
  exact Option.some.inj (hid.symm.trans hid')

def Known (n : Nat) (id : UUID) : Property := fun _ _ f => ∀ r, f .meeting = some (.record r) → r.knows n id

/-- Only a creation acts before the first use of the meeting, and its record knows no job. -/
theorem Accounted.acting {h : History} {f : Name → Option Doc} (hp : Accounted v h f) (hr : f .meeting = some (.record r))
    {n : Nat} {id : UUID} (hk : r.knows n id) : Tirke.running v.log ≠ none := by
  intro hn
  have hj := ((hp r hr).2 hn).1
  obtain ⟨j, hm, -, hid⟩ := hk
  rw [hj, List.mem_singleton] at hm
  rw [hm] at hid
  cases hid

theorem Inv.knows {n : Nat} {id : UUID} (h : Inv v) (hp : v.inPlay) (hr : v.files .meeting = some (.record r'))
    {k : Commit} (hk : k ∈ v.hist) (hn : k.record.knows n id) : r'.knows n id := by
  rcases h.newest hp hr hk with rfl | he
  · exact hn
  · exact he.knows hn

/-- Without a power failure nothing is taken back. -/
theorem Happens.hist (h : Happens rot v v') (hr : Tirke.running v.log ≠ none) (hp : v'.log ≠ .power :: v.log) :
    v.hist <:+ v'.hist := by
  have hcons : ∀ e : Event, e ≠ .power → (commits v.log).1 <:+ (commits (e :: v.log)).1 := by
    intro e he
    cases hm : e.marked with
    | some r =>
      simp only [commits, hm]
      rw [if_pos (Option.isSome_iff_ne_none.2 hr)]
      exact List.suffix_cons _ _
    | none =>
      simp only [commits, hm]
      split
      · exact List.suffix_refl _
      · exact absurd rfl he
      · exact List.suffix_refl _
  cases h with
  | lawful e hl =>
    rw [View.hist, View.hist, after_log]
    exact hcons e (by rintro rfl; cases hl)
  | bounds e he => exact hcons e (by rintro rfl; exact he.elim)
  | power => exact absurd rfl hp
  | damaged n d => exact hcons (.damaged n d) (by simp)

/-! ## The result -/

/-- A submission that may be sent now. -/
structure Permitted (v : View) (s : Submission) : Prop where
  /-- The attempt has no job, and that it is being submitted is on disk. -/
  stored : ∃ r job, v.run readRecord = .ok r ∧ v.img.dur (.folder, .meeting) = some (.record r) ∧
    s.key = (r.meeting.id, r.meeting.attempt) ∧ r.job = some job ∧ job.jobId = none ∧ job.submitStarted = some true
  /-- It is the attempt's first, or the key was looked up in this use of the meeting. -/
  fresh : s.key.2 ∉ submissions v.log ∨ ∃ a, (s.key, a) ∈ lookups (current v.log) ∧ notFound a
  absent : ∀ l ∈ lookups (current v.log), notFound l.2
  /-- No submission sent before under this key differs from it. -/
  repeated : ∀ s' ∈ sends v.log, s'.key = s.key → s' = s
  hashed : s.context.audioSha256 = Lib.sha256 s.audio

theorem MaySubmit.permitted {key : UUID × Nat} {context : GPUContextV1} {audio : Doc} {suffix : Option AudioExtension}
    {job : JobRecord} {sha : Sha256} (h : MaySubmit v key context audio suffix r job sha)
    (hc : Coherent (.asked (.submit key context audio suffix) .timeout :: v.log)) :
    Permitted v ⟨key, context, audio, suffix⟩ := by
  refine ⟨⟨r, job, h.readable, h.durable, h.key, h.isJob, h.unbound, h.flagged⟩, ?_, h.absent, fun s' hs hk => ?_, ?_⟩
  · rcases h.fresh with hf | ⟨a, ha⟩
    · exact .inl (by rw [h.key]; exact hf)
    · exact .inr ⟨a, by rw [h.key]; exact ha, h.absent _ ha⟩
  · exact hc.same s' (List.mem_cons_of_mem _ hs) _ List.mem_cons_self (congrArg Prod.snd hk)
  · exact hc.hashed _ List.mem_cons_self

/-- A run without power failures. -/
abbrev Powered (rot : Prop) : Config → Config → Prop :=
  Relation.ReflTransGen fun c c' => Step rot c c' ∧ c'.world.log ≠ .power :: c.world.log

/-- What the marker shows, or would show after a power failure. -/
def View.records (v : View) (r : MeetingRecord) : Prop :=
  v.run readRecord = .ok r ∨ v.backup .meeting = some (.record r)

theorem Run.known {n : Nat} {id : UUID} (h : Reach (Step rot) c) (hr : c.world.view.backup .meeting = some (.record r))
    (hk : r.knows n id) (hs : Run rot c c') : Holds (Known n id) c'.world.view := by
  have hi := h.inv
  obtain ⟨k, hk₀, rfl⟩ := hi.kept_hist hr
  have hw : Tirke.written c.world.log ≠ [] := List.ne_nil_of_mem (mem_commits (.inl hk₀))
  refine Run.recorded (fun _ _ _ hok hm hk => (hm.evolves hok).knows hk) h hw ⟨fun hp r₁ hr₁ => ?_, fun r₁ hr₁ => ?_⟩ hs
  · exact hi.knows hp hr₁ hk₀ hk
  · rw [hr] at hr₁
    cases hr₁
    exact hk

theorem Powered.hist (h : Reach (Step rot) c) (hr : Tirke.running c.world.log ≠ none) (hs : Powered rot c c') :
    c.world.view.hist <:+ c'.world.view.hist ∧ Tirke.running c'.world.log ≠ none ∧ Reach (Step rot) c' := by
  induction hs with
  | refl => exact ⟨List.suffix_refl _, hr, h⟩
  | @tail c₁ c₂ _ hstep ih =>
    obtain ⟨hsuf, hrun, hreach⟩ := ih
    have hg : Good rot c₁ := reach_good (fun _ _ h => h) hreach
    refine ⟨?_, ?_, hreach.trans (.single hstep.1)⟩
    all_goals rcases hstep.1.happens hg with he | hh
    · rw [he]; exact hsuf
    · exact hsuf.trans (hh.hist hrun hstep.2)
    · rw [show c₂.world.log = c₁.world.log from congrArg View.log he]; exact hrun
    · exact hh.running hrun

/-- **At most one logical submission for each attempt.** -/
theorem submitted_at_most_once (h : Reach (Step rot) c) :
    (∀ key context audio suffix, c.asks = some (.submit key context audio suffix) →
      Permitted c.world.view ⟨key, context, audio, suffix⟩) ∧
    Coherent c.world.log ∧
    (∀ r n id c', c.world.view.backup .meeting = some (.record r) → r.knows n id → Run rot c c' →
      ∀ r', c'.world.view.records r' → r'.knows n id) ∧
    ∀ r n id c', c.world.view.run readRecord = .ok r → r.knows n id → Powered rot c c' →
      ∀ r', c'.world.view.run readRecord = .ok r' → r'.knows n id := by
  have hlife := (reach_good (fun _ _ h => h) h : Good rot c).life
  refine ⟨fun key context audio suffix hq => ?_, hlife.coherent, fun r n id c' hr hk hs r' hr' => ?_,
    fun r n id c' hr hk hs r' hr' => ?_⟩
  · have hl := h.legal hq .timeout
    have hc : Coherent (.asked (.submit key context audio suffix) .timeout :: c.world.log) :=
      (Life.step hlife (.lawful _ hl)).coherent
    cases hl with
    | submit _ _ _ _ _ r job sha hsub => exact hsub.permitted hc
  · have hknown := Run.known h hr hk hs
    rcases hr' with hr' | hr'
    · exact hknown.now (inPlay_of_readable hr') r' (files_of_readable hr')
    · exact hknown.later r' hr'
  · have hi := h.inv
    obtain ⟨k, h', hhist, rfl⟩ := hi.genuine.head hr
    have hact := (hi.accounted.now (inPlay_of_readable hr)).acting (files_of_readable hr) hk
    obtain ⟨hsuf, -, hreach⟩ := Powered.hist h hact hs
    refine hreach.inv.knows (inPlay_of_readable hr') (files_of_readable hr') (hsuf.subset ?_) hk
    rw [hhist]
    exact List.mem_cons_self

end

section
attribute [local instance] Sample.lib Sample.home

namespace Sample

def submits : Request → Bool
  | .submit .. => true
  | _ => false

def submitting : Config := created.cues [.start .processOnce, .play (requests submits) (answering (gpu first))]

end Sample

theorem submitted_at_most_once_sample : (∀ key context audio suffix,
      Sample.submitting.asks = some (.submit key context audio suffix) →
      Permitted Sample.submitting.world.view ⟨key, context, audio, suffix⟩) ∧
    Coherent Sample.submitting.world.log ∧
    (∀ r n id c', Sample.submitting.world.view.backup .meeting = some (.record r) → r.knows n id →
      Run False Sample.submitting c' → ∀ r', c'.world.view.records r' → r'.knows n id) ∧
    ∀ r n id c', Sample.submitting.world.view.run readRecord = .ok r → r.knows n id → Powered False Sample.submitting c' →
      ∀ r', c'.world.view.run readRecord = .ok r' → r'.knows n id :=
  submitted_at_most_once (Sample.reach_created.cues (.inr rfl))

end

end Tirke
