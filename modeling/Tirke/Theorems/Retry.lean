import Tirke.Runs.Archiving
/-!
# When a retry can be resumed

`_archive_attempt` stores a copy of the record before it moves the originals, and the copy is immutable. An
interrupted retry is resumed exactly when the copies it left are still the files to be copied; whatever happens,
no original is lost.
-/

set_option linter.unusedSectionVars false

namespace Tirke

open CrashProg CrashDisk

section
variable [Lib] [Home] {v v' : View} {r r₀ : MeetingRecord} {c c' c₀ : Config} {d : Time} {n : Nat}

/-- A run in which whoever reads the meeting finds attempt `n` failed, or a later one. -/
abbrev Failing (n : Nat) : Config → Config → Prop :=
  Relation.ReflTransGen fun c c' => Step False c c' ∧ Still n c'.world.view

/-- The originals of attempt `n`, as `v` has them in the folder, are in the folder or in the archive. -/
def Keeps (v : View) (n : Nat) (v' : View) : Prop := ∀ name ∈ originals, ∀ x, v.look (.folder, name) = some x →
  v'.look (.folder, name) = some x ∨ v'.Durable (.attempt n, name) x

theorem Failing.preserving {O : Name → Doc → Prop} (h : Reach (Step False) c) (hO : ∀ name x, O name x → name ∈ originals)
    (hp : Preserving n O c.world.view) (hst : Still n c.world.view) (hs : Failing n c c') :
    Preserving n O c'.world.view ∧ Still n c'.world.view ∧ Reach (Step False) c' := by
  induction hs with
  | refl => exact ⟨hp, hst, h⟩
  | @tail c₁ c₂ hs hstep ih =>
    obtain ⟨hp₁, hst₁, h₁⟩ := ih
    have hg : Good False c₁ := reach_good (fun _ _ h => h) h₁
    have h₂ := h₁.trans (.single hstep.1)
    refine ⟨?_, hstep.2, h₂⟩
    rcases hstep.1.happens hg with he | hh
    · rw [he]; exact hp₁
    · exact hp₁.step hO hst₁ hstep.2 h₂.inv hh

/-- What a failed attempt had when a retry began, as far as it is needed later. -/
theorem preserving_begin (h₀ : Reach (Step False) c₀) (hidle : c₀.idle) (hr₀ : c₀.world.view.run readRecord = .ok r₀)
    (hs₀ : r₀.meeting.status = .failed) : Reach (Step False) (c₀.begin .retry) ∧ Still r₀.meeting.attempt (c₀.begin .retry).world.view ∧
      Preserving r₀.meeting.attempt (fun name x => name ∈ originals ∧ c₀.world.view.look (.folder, name) = some x)
        (c₀.begin .retry).world.view := by
  have h := h₀.trans (.single (step_begin hidle (a := .retry) trivial))
  have hg : Good False (c₀.begin .retry) := reach_good (fun _ _ h => h) h
  have hr : (c₀.begin .retry).world.view.run readRecord = .ok r₀ := (run_note readOnly_readRecord).trans hr₀
  refine ⟨h, fun r hr' => ?_, Preserving.start hg.life.firm hr hs₀ nofun⟩
  cases hr.symm.trans hr'
  exact .inr ⟨rfl, hs₀⟩

theorem Preserving.keeps {O : Name → Doc → Prop} (h : Preserving n O v) (hr : v.run readRecord = .ok r)
    (hatt : r.meeting.attempt = n) {name : Name} {x : Doc} (hx : O name x) :
    v.look (.folder, name) = some x ∨ Stored v n name x := by
  rcases h.now (inPlay_of_readable hr) r (files_of_readable hr) hatt name x hx with hx | hx
  · exact .inl ((look_of_reach (p := (.folder, name)) (readable_reach hr)).trans hx)
  · exact .inr hx

/-! ## A retry that nothing interrupts -/

/-- Nothing fails, and the deadline does not pass. -/
def before (d : Time) : Env host := fun w _ ch => ch.fault = none ∧ w.clock + ch.elapsed < d

/-- What a retry that succeeded has done: the next attempt is queued, and the old one's originals are archived. -/
structure RetriedFrom (v₀ : View) (r : MeetingRecord) (out : Except Exn Meeting) (v' : View) : Prop where
  queued : ∃ m, out = .ok m ∧ m.status = .queued ∧ m.attempt = r.meeting.attempt + 1
  record : ∃ t, v'.run readRecord = .ok (r.retried t)
  archived : ∀ name ∈ originals, ∀ x, v₀.look (.folder, name) = some x → v'.Durable (.attempt r.meeting.attempt, name) x

/-- Every retry that nothing interrupts before the deadline `d` succeeds. -/
def Resumes (d : Time) (v₀ : View) (c : Config) (r : MeetingRecord) : Prop :=
  Sat (before d) (fun _ _ => True) (fun out (w' : World) => RetriedFrom v₀ r out w'.view)
    Lifecycle.retryMeeting (c.begin .retry).world

theorem before_calm : ¬ MayFail (before d) := by
  rintro ⟨w, o, ch, h, hf⟩
  rw [h.1] at hf
  cases hf

theorem before_shows {t : Time} (h : MayShow (before d) t) : t < d := by
  obtain ⟨w, ch, h, rfl⟩ := h
  exact h.2

/-- Nothing refuses it but the archive. -/
theorem does_retry_before (hi : Inv v) (hr : v.run readRecord = .ok r) (hs : r.meeting.status = .failed)
    (ha : r.meeting.attempt < 3) (hu : (v.look (.folder, .upload)).isSome = true) (hd : r.meeting.temporaryExpiresAt = some d)
    (hact : running v.log = some .retry) : Does (before d) Legal Lifecycle.retryMeeting v fun out v' => Retried (before d) v r out v' ∧
      (¬ Blocked v r → ∃ m, out = .ok m) := by
  refine (does_retry hr (hi.sound.rooted (readable_look hr)) hi.grounded hact).mono ?_
  rintro (e | m) v' h
  · refine ⟨h, fun hb => ?_⟩
    rcases h with ⟨-, hf⟩ | ⟨-, hblock⟩ | ⟨code, -, href⟩
    · exact absurd hf before_calm
    · exact absurd hblock hb
    · cases href with
      | state h => exact absurd hs h
      | attempts h => exact absurd ha (Nat.not_lt.2 h)
      | missing h => rw [h] at hu; cases hu
      | unlimited h => rw [hd] at h; cases h
      | late deadline t hd' ht h =>
        rw [hd] at hd'
        cases hd'
        exact absurd (before_shows ht) (Nat.not_lt.2 h)
  · exact ⟨h, fun _ => ⟨m, rfl⟩⟩

/-- Along a lawful run, what is in the archive stays there. -/
theorem sat_stored {A : Env host} {Q : Post host Exn Meeting} {p : Serv Meeting} {w : World} {O : Name → Doc → Prop}
    (hf : Fit w.disk) (hm : Marked w.view) (hO : ∀ name x, O name x → Stored w.view n name x)
    (hs : Sat A (Guarded Legal) Q p w) :
    Sat A (Guarded Legal) (fun out (w' : World) => Q out w' ∧ ∀ name x, O name x → Stored w'.view n name x) p w := by
  refine (hs.invariant (J := fun w' : World => Fit w'.disk ∧ Marked w'.view ∧ ∀ name x, O name x → Stored w'.view n name x)
    ⟨hf, hm, hO⟩ ?_).mono fun _ _ h => ⟨h.1, h.2.2.2⟩
  rintro w' o ch ⟨hf', hm', hO'⟩ hg -
  obtain ⟨hfit, hview⟩ := guarded_act hf' hg ch
  rcases hview with he | ⟨e, hl, he⟩
  · exact ⟨hfit, by rw [he]; exact hm', by rw [he]; exact hO'⟩
  · exact ⟨hfit, by rw [he]; exact hm'.lawful hl, fun name x hx => by rw [he]; exact (hO' name x hx).lawful hl hm'⟩

theorem clock_calm {w : World} {o : Op} : (w.act o .calm).2.clock = w.clock := by
  cases o <;> rfl

/-- A promise of the impossible is not kept. -/
theorem not_sat_false {α : Type} {p : Serv α} {w : World} (ht : w.clock < d)
    (h : Sat (M := host) (before d) (fun _ _ => True) (fun _ _ => False) p w) : False := by
  have hcalm : Sat (M := host) (fun _ _ (ch : Choice) => ch = .calm) (fun _ _ => True) (fun _ _ => False) p w := by
    refine h.restrict (J := fun w' : World => w'.clock < d) ht ?_
    rintro w' o ch hlt rfl
    exact ⟨⟨rfl, hlt⟩, by rw [show (host.act o Choice.calm w').2.clock = w'.clock from clock_calm]; exact hlt⟩
  exact hcalm.eval .calm fun _ _ => rfl

theorem View.Durable.rooted {x : Doc} {name : Name} (h : v.Durable (.attempt n, name) x) : v.Rooted .folder := by
  have hmem : ∀ q ∈ Dir.folder.chain, q ∈ (Dir.attempt n).chain := fun q hq =>
    List.mem_cons_of_mem _ (List.mem_cons_of_mem _ hq)
  exact ⟨reach_iff.2 fun q hq => reach_iff.1 (reach_of_look h.now) q (hmem q hq),
    reach_iff.2 fun q hq => reach_iff.1 (reach_of_look h.later) q (hmem q hq)⟩

/-- **The next retry succeeds exactly when nothing in the archive differs from what is to be stored there.** -/
theorem Preserving.resumes_iff (h : Reach (Step False) c)
    (hp : Preserving r.meeting.attempt (fun name x => name ∈ originals ∧ v.look (.folder, name) = some x) c.world.view)
    (hr : c.world.view.run readRecord = .ok r) (hs : r.meeting.status = .failed) (hidle : c.idle) (ha : r.meeting.attempt < 3)
    (hu : (c.world.view.look (.folder, .upload)).isSome = true) (hd : r.meeting.temporaryExpiresAt = some d)
    (ht : c.world.clock < d) : Resumes d v c r ↔ ¬ Blocked c.world.view r := by
  have hg : Good False c := reach_good (fun _ _ h => h) h
  have hi' : Inv (c.begin .retry).world.view := (h.trans (.single (step_begin hidle (a := .retry) trivial))).inv
  have hr' : (c.begin .retry).world.view.run readRecord = .ok r := (run_note readOnly_readRecord).trans hr
  have hsat := does_retry_before hi' hr' hs ha hu hd rfl _ rfl hg.fit
  constructor
  · intro hres hblock
    refine not_sat_false (p := Lifecycle.retryMeeting) (w := (c.begin .retry).world) ht ?_
    refine (hres.and (hsat.weaken (fun _ _ _ h => h) fun _ _ _ => trivial)).mono ?_
    rintro out w' ⟨hq, -, hret, -⟩
    obtain ⟨m, rfl, -⟩ := hq.queued
    obtain ⟨-, -, -, -, hfree⟩ := hret
    exact hfree hblock
  · intro hfree
    have hstored := sat_stored (O := fun name x => Stored c.world.view r.meeting.attempt name x) (n := r.meeting.attempt)
      (w := (c.begin .retry).world) hg.fit ⟨nofun, fun _ => by rw [files_of_readable hr']; nofun⟩ (fun name x hx => hx.note nofun) hsat
    refine (hstored.weaken (fun _ _ _ h => h) fun _ _ _ => trivial).mono ?_
    rintro out w' ⟨⟨-, hret, hok⟩, hkept⟩
    obtain ⟨m, rfl⟩ := hok hfree
    obtain ⟨hrec, harch, hqueued, hm, -⟩ := hret
    refine ⟨⟨m, rfl, hqueued, hm⟩, hrec, fun name hn x hx => ?_⟩
    rcases hp.keeps hr rfl ⟨hn, hx⟩ with hx' | hx'
    · exact harch.originals name hn x hx'
    · exact (hkept name x hx').durable harch.record.rooted

/-- What is known of a meeting that is still failed since a retry of it began. -/
theorem still_failed (h₀ : Reach (Step False) c₀) (hidle₀ : c₀.idle) (hr₀ : c₀.world.view.run readRecord = .ok r₀)
    (hs₀ : r₀.meeting.status = .failed) (hrun : Failing r₀.meeting.attempt (c₀.begin .retry) c)
    (hr : c.world.view.run readRecord = .ok r) (hatt : r.meeting.attempt = r₀.meeting.attempt) :
    Reach (Step False) c ∧ r.meeting.status = .failed ∧
      Preserving r.meeting.attempt (fun name x => name ∈ originals ∧ c₀.world.view.look (.folder, name) = some x) c.world.view := by
  obtain ⟨h₁, hst₁, hp₁⟩ := preserving_begin h₀ hidle₀ hr₀ hs₀
  obtain ⟨hp, hst, h⟩ := Failing.preserving h₁ (fun _ _ h => h.1) hp₁ hst₁ hrun
  refine ⟨h, ?_, hatt ▸ hp⟩
  rcases hst r hr with hlt | ⟨-, hs⟩
  · omega
  · exact hs

/-- **When a retry can be resumed.** Whatever happened since a retry of a failed meeting began, none of the originals
the attempt had is lost; and as long as the meeting is still failed, the next retry succeeds, and archives them, exactly
when no file of the archive differs from the one to be stored there. -/
theorem retry_resumes_iff (h₀ : Reach (Step False) c₀) (hidle₀ : c₀.idle) (hr₀ : c₀.world.view.run readRecord = .ok r₀)
    (hs₀ : r₀.meeting.status = .failed) (hrun : Failing r₀.meeting.attempt (c₀.begin .retry) c)
    (hr : c.world.view.run readRecord = .ok r) (hatt : r.meeting.attempt = r₀.meeting.attempt) :
    Keeps c₀.world.view r.meeting.attempt c.world.view ∧
    (c.idle → r.meeting.attempt < 3 → (c.world.view.look (.folder, .upload)).isSome = true →
      r.meeting.temporaryExpiresAt = some d → c.world.clock < d →
        (Resumes d c₀.world.view c r ↔ ¬ Blocked c.world.view r)) := by
  obtain ⟨h, hs, hp⟩ := still_failed h₀ hidle₀ hr₀ hs₀ hrun hr hatt
  have hroot : c.world.view.Rooted .folder := h.inv.sound.rooted (readable_look hr)
  refine ⟨fun name hn x hx => (hp.keeps hr rfl ⟨hn, hx⟩).imp_right fun hs => hs.durable hroot, ?_⟩
  intro hidle ha hu hd ht
  exact hp.resumes_iff h hr hs hidle ha hu hd ht

end

section
attribute [local instance] Sample.lib Sample.home

/-- `Still`, as far as it can be computed. -/
def stillFailed (n : Nat) (w : World) : Bool :=
  match w.view.run readRecord with
  | .ok r => n < r.meeting.attempt || (r.meeting.attempt = n && r.meeting.status = .failed)
  | .error _ => true

theorem still_of_computed {w : World} (h : stillFailed n w = true) : Still n w.view := by
  intro r hr
  simp only [stillFailed, hr, Bool.or_eq_true, Bool.and_eq_true, decide_eq_true_eq] at h
  exact h

namespace Sample

/-- The GPU has cleaned up. -/
def cleaned : Request → Response := fun _ => .http 200 (.job { failedJob with cleanupStatus := .deleted, receiptExpiresAt := some 6000 })

/-- The retry was killed when only the marker was left to write, and then the GPU's receipt was recorded. -/
def interrupted : List Cue := [.play replacesMarker fun _ _ => .calm, .kill,
  .start .processOnce, .play never (answering cleaned), .finish]

def blocked : Config := (failed.begin .retry).cues interrupted

theorem failing_blocked : Failing 1 (failed.begin .retry) blocked :=
  cues_keep (ψ := fun _ w' => stillFailed 1 w') (fun _ _ hs h => ⟨hs, still_of_computed h⟩) rfl (by decide +kernel)

theorem blocked_blocked : Blocked blocked.world.view (recordOf blocked) :=
  .inl ⟨.record (recordOf failed), by decide +kernel, by decide +kernel⟩

theorem read_failed : failed.world.view.run readRecord = .ok (recordOf failed) ∧ (recordOf failed).meeting.status = .failed ∧
    (recordOf failed).meeting.attempt = 1 := by decide +kernel

theorem read_blocked : blocked.world.view.run readRecord = .ok (recordOf blocked) ∧ (recordOf blocked).meeting.attempt = 1 ∧
    (recordOf blocked).meeting.temporaryExpiresAt = some 86400001000 ∧
    (blocked.world.view.look (.folder, .upload)).isSome = true ∧ blocked.world.clock < 86400001000 := by decide +kernel

theorem failing_from_failed : Failing (recordOf failed).meeting.attempt (failed.begin .retry) blocked := by
  rw [read_failed.2.2]
  exact failing_blocked

theorem same_attempt : (recordOf blocked).meeting.attempt = (recordOf failed).meeting.attempt :=
  read_blocked.2.1.trans read_failed.2.2.symm

end Sample

/-- The retry that follows an interrupted one is refused: the record was rewritten since it was archived. -/
theorem retry_is_stuck : ¬ ∀ (c₀ c : Config) (r₀ r : MeetingRecord) (d : Time), Reach (Step False) c₀ → c₀.idle →
    c₀.world.view.run readRecord = .ok r₀ → r₀.meeting.status = .failed → Failing r₀.meeting.attempt (c₀.begin .retry) c →
    c.world.view.run readRecord = .ok r → r.meeting.attempt = r₀.meeting.attempt → c.idle → r.meeting.attempt < 3 →
    (c.world.view.look (.folder, .upload)).isSome = true → r.meeting.temporaryExpiresAt = some d → c.world.clock < d →
    Resumes d c₀.world.view c r := by
  intro h
  obtain ⟨hr₀, hs₀, -⟩ := Sample.read_failed
  obtain ⟨hr, hatt, hd, hu, ht⟩ := Sample.read_blocked
  have ha : (Sample.recordOf Sample.blocked).meeting.attempt < 3 := by omega
  have hres := h _ _ _ _ _ Sample.reach_failed rfl hr₀ hs₀ Sample.failing_from_failed hr Sample.same_attempt rfl ha hu hd ht
  obtain ⟨hreach, hs, hp⟩ := still_failed Sample.reach_failed rfl hr₀ hs₀ Sample.failing_from_failed hr Sample.same_attempt
  exact (hp.resumes_iff hreach hr hs rfl ha hu hd ht).1 hres Sample.blocked_blocked

theorem retry_resumes_iff_sample : Resumes 86400001000 Sample.failed.world.view Sample.blocked (Sample.recordOf Sample.blocked) ↔
    ¬ Blocked Sample.blocked.world.view (Sample.recordOf Sample.blocked) := by
  obtain ⟨hr₀, hs₀, -⟩ := Sample.read_failed
  obtain ⟨hr, hatt, hd, hu, ht⟩ := Sample.read_blocked
  have ha : (Sample.recordOf Sample.blocked).meeting.attempt < 3 := by omega
  exact (retry_resumes_iff Sample.reach_failed rfl hr₀ hs₀ Sample.failing_from_failed hr Sample.same_attempt).2 rfl ha hu hd ht

end

end Tirke
