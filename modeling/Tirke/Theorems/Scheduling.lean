import Tirke.Runs.Ticking
import Tirke.Theorems.HalfPublished
/-!
# Faults of one meeting and the scheduler

What goes wrong at one meeting does not keep a tick from the others, with two exceptions: a half-published meeting whose
deadline has passed, and a call of `_meeting_ids` that raises. From the first on no tick gets past its sweep, as long as
the sweep finds the meeting and nothing fails there.
-/

set_option linter.unusedSectionVars false

namespace Tirke

open CrashProg CrashDisk

/-! ## What makes a sweep raise -/

section
variable [Lib] [Home] {r : MeetingRecord} {c c' : Config} {A : Env host}

/-- Published by its status without a manifest, and the clock may show that the deadline has passed. -/
def Stalled (A : Env host) (c : Config) : Prop :=
  ∃ r t, HalfPublished c.world.view r ∧ MayShow A t ∧ r.overdue t = true

theorem pending_of_overdue {t : Time} (h : r.overdue t = true) : r.localCleanupStatus = .pending := by
  simp only [MeetingRecord.overdue, Bool.and_eq_true, decide_eq_true_eq] at h
  exact h.1

/-- A published record without a manifest has not been approved. -/
theorem Life.halfPublished (h : Life False c.world.view) (hr : c.world.view.run readRecord = .ok r)
    (hs : r.meeting.status.published = true) (hm : c.world.view.files .manifest = none)
    (hp : r.localCleanupStatus = .pending) : HalfPublished c.world.view r := by
  have hne : r.meeting.status ≠ .approved := fun ha =>
    (((h.printed.now (inPlay_of_readable hr) h.undamaged r (files_of_readable hr)).approved ha).1 hm).elim
  refine ⟨hr, ?_, (look_of_reach (p := (.folder, .manifest)) (readable_reach hr)).trans hm, hp⟩
  cases hst : r.meeting.status with
  | reviewRequired => rfl
  | approved => exact absurd hst hne
  | queued | processing | failed => rw [hst] at hs; cases hs

/-- What cannot be read is not there. -/
theorem Inv.missing {v : View} {e : Exn} (h : Inv v) (he : v.run readRecord = .error e) : e = .meetingNotFound := by
  cases hl : v.look marker with
  | none =>
    simp only [readRecord, Prog.bind_eq, run_bind, run_missingAs, hl, error_bind] at he
    cases he
    rfl
  | some d =>
    obtain ⟨r, -, hr⟩ := h.readable hl
    rw [hr] at he
    cases he

/-- **A sweep raises nothing unexpected, but at a stalled meeting.** -/
theorem sweep_escapes {e : Exn} {w : World} (h : Reach (Step False) c)
    (hran : Ran A sweepEntry (c.begin .sweep).world (.error e) w) (ht : sweepTolerates e = false) :
    e = .notReady ∧ Stalled A c := by
  have hi : Inv (c.begin .sweep).world.view := h.inv.step (.bounds (.started .sweep) trivial : Happens False _ _)
  have hraised : SweepRaised A (c.begin .sweep).world.view (.error e) :=
    ((does_sweepEntry hi.grounded (show running (c.begin .sweep).world.log ≠ none from nofun)).ran h.fit hran).2
  rcases hraised e rfl with hos | hread | ⟨r, hr, hs, hres, t, hshow, hover⟩
  · cases e <;> simp_all [sweepTolerates, Exn.isOSError]
  · cases hi.missing hread
    cases ht
  · have hr' : c.world.view.run readRecord = .ok r := (run_note readOnly_readRecord).symm.trans hr
    have hres' : c.world.view.run readResults = .error e := (run_note readOnly_readResults).symm.trans hres
    rcases h.inv.results h.undamaged hr' with ⟨hm, hn⟩ | ⟨b, -, -, -, hok⟩
    · cases hn.symm.trans hres'
      have hlife : Life False c.world.view := (reach_good (fun _ _ h => h) h : Good False c).life
      exact ⟨rfl, r, t, hlife.halfPublished hr' hs hm (pending_of_overdue hover), hshow, hover⟩
    · cases hok.symm.trans hres'

end

/-! ## Ticks -/

section
variable [Lib] {s s' : Site} {d d' d₁ : DataRoot} {A B : Home → Env host} {O : Obstacles}
  {G : DataRoot → DataRoot → Prop} {hs : List Home}

def Site.Stalled (A : Home → Env host) (s : Site) : Prop :=
  let _ := s.home
  Tirke.Stalled (A s.home) s.config

theorem Site.Swept.escapes {e : Exn} (h : s.Swept A (.error e) s') (hr : s.Reached) (ht : sweepTolerates e = false) :
    e = .notReady ∧ s.Stalled A := by
  let _ := s.home
  obtain ⟨w, hran, -⟩ := h.ran
  exact sweep_escapes hr hran ht

/-- **Whatever ends the loop of `sweep`** is a stalled meeting. -/
theorem Sweeps.escapes {o : Option Exn} {e : Exn} (hG : ∀ d d', G d d' → Guests d d') (h : Sweeps A O G hs d o d')
    (hp : Proper d) (he : o = some e) : e = .notReady ∧ ∃ d₁ s, Changes d d₁ ∧ Changes d₁ d' ∧ s ∈ d₁ ∧ s.Stalled A := by
  induction h with
  | done d => cases he
  | meanwhile hg _ ih =>
    obtain ⟨rfl, d₂, s, hd, hs⟩ := ih ((hG _ _ hg).change.proper hp) he
    exact ⟨rfl, d₂, s, .head (hG _ _ hg).change hd, hs⟩
  | unlisted _ _ _ ih => exact ih hp he
  | busy _ _ _ _ ih => exact ih hp he
  | tolerated pre post s s' out hu _ _ ih =>
    have hc : Changes (pre ++ _ :: post) (pre ++ _ :: post) := changes_of_run hu.home hu.run
    obtain ⟨rfl, d₂, s₂, hd, hs⟩ := ih (hc.proper hp) he
    exact ⟨rfl, d₂, s₂, hc.trans hd, hs⟩
  | escaped pre post s s' x hu ht =>
    cases he
    have hmem : s ∈ pre ++ s :: post := by simp
    obtain ⟨hn, hst⟩ := Site.Swept.escapes hu (hp.reached s hmem) ht
    exact ⟨hn, _, s, .refl, changes_of_run hu.home (Site.Swept.run hu), hmem, hst⟩

/-- What becomes of a meeting between `d` and `d'`: it has its turn, or a call that lists it fails, or there is no folder
at some moment. -/
def Met (O : Obstacles) (d : DataRoot) (os : Calls) (d' : DataRoot) (k : Home) : Prop :=
  (∃ p ∈ os, p.1.home = k) ∨ O.unlisted k ∨ ∃ d₁ s, Changes d d₁ ∧ Changes d₁ d' ∧ s ∈ d₁ ∧ s.home = k ∧ ¬ s.live

theorem Met.earlier {os : Calls} {k : Home} (h : Met O d₁ os d' k) (hd : Changes d d₁) : Met O d os d' k := by
  rcases h with hp | hu | ⟨d₂, s, hc, hs⟩
  · exact .inl hp
  · exact .inr (.inl hu)
  · exact .inr (.inr ⟨d₂, s, hd.trans hc, hs⟩)

theorem Met.cons {os : Calls} {k : Home} {p : Site × Option (Except Exn Meeting)} (h : Met O d os d' k) :
    Met O d (p :: os) d' k := by
  rcases h with ⟨q, hq, hk⟩ | h
  · exact .inl ⟨q, List.mem_cons_of_mem _ hq, hk⟩
  · exact .inr h

theorem Visits.listed {os : Calls} (hG : ∀ d d', G d d' → Guests d d') (h : Visits A O G hs d os d') :
    ∀ k ∈ hs, Met O d os d' k := by
  induction h with
  | done d => exact fun _ hm => absurd hm List.not_mem_nil
  | meanwhile hg _ ih => exact fun k hk => (ih k hk).earlier (.single (hG _ _ hg).change)
  | @unlisted hs d d' os s hm hn h ih =>
    refine List.forall_mem_cons.2 ⟨?_, ih⟩
    rcases hn with hn | hn
    · exact .inr (.inr ⟨d, s, .refl, h.changes hG, hm, rfl, hn⟩)
    · exact .inr (.inl hn)
  | busy _ _ _ ih => exact List.forall_mem_cons.2 ⟨.inl ⟨_, List.mem_cons_self, rfl⟩, fun k hk => (ih k hk).cons⟩
  | visited pre post s s' o hu _ ih =>
    exact List.forall_mem_cons.2 ⟨.inl ⟨_, List.mem_cons_self, rfl⟩,
      fun k hk => ((ih k hk).earlier (changes_of_run hu.home (Site.Visited.run hu))).cons⟩

/-- What is visited is a meeting in some state of its life; if nobody was using it, it was visited. -/
theorem Visits.each {os : Calls} (hG : ∀ d d', G d d' → Guests d d') (h : Visits A O G hs d os d') (hp : Proper d) :
    ∀ p ∈ os, p.1.Reached ∧ (p.1.config.idle → ∃ s', p.1.Visited A p.2 s') := by
  induction h with
  | done d => exact fun _ hm => absurd hm List.not_mem_nil
  | meanwhile hg _ ih => exact ih ((hG _ _ hg).change.proper hp)
  | unlisted _ _ _ ih => exact ih hp
  | busy hm hb _ ih => exact List.forall_mem_cons.2 ⟨⟨hp.reached _ hm, fun hi => absurd hi hb⟩, ih hp⟩
  | visited pre post s s' o hu _ ih =>
    refine List.forall_mem_cons.2 ⟨⟨hp.reached s (by simp), fun _ => ⟨s', hu⟩⟩, ih ?_⟩
    exact (changes_of_run hu.home (Site.Visited.run hu)).proper hp

/-- No system call fails during the visits of the site, and its lock is free. -/
def Calm (A : Env host) : Prop := ¬ MayFail A ∧ ¬ MayBlock A

end

section
variable [Lib] [Home] {r : MeetingRecord} {c c' : Config} {A : Env host}

/-- The states of a meeting in which `tick` calls `process_once` for it. -/
def MeetingRecord.eligible (r : MeetingRecord) : Bool :=
  r.meeting.status = .queued || r.meeting.status = .processing ||
    (r.meeting.status.published && r.meeting.cleanupStatus = .pending) || (r.meeting.status = .failed && r.unconfirmed)

theorem Inv.due {v : View} (h : Inv v) (hu : undamaged v.log) (hr : v.run readRecord = .ok r) (he : r.eligible = true) :
    Due v := by
  have hshown := h.shown hu hr
  simp only [View.shown, run_bind, hr, ok_bind] at hshown
  refine ⟨r, _, hr, hshown, ?_⟩
  unfold Meeting.presented
  split
  · simp [Meeting.due]
  · exact he

/-- **A visit that nothing disturbs** calls `process_once` for an eligible meeting. -/
theorem visit_calls {o : Option (Except Exn Meeting)} {w : World} (h : Reach (Step False) c) (hidle : c.idle) (hc : Calm A)
    (hran : Ran A visit (c.begin .step).world (.ok o) w) (hr : c.world.view.run readRecord = .ok r) (he : r.eligible = true) :
    o.isSome = true := by
  have hreach : Reach (Step False) (c.begin .step) := h.trans (.single (step_begin hidle trivial))
  have hr' : (c.begin .step).world.view.run readRecord = .ok r := (run_note readOnly_readRecord).trans hr
  have hready : ∀ r, (c.begin .step).world.view.run readRecord = .ok r → Ready (c.begin .step).world.view r :=
    fun _ hr => hreach.inv.ready hr (.inr rfl) rfl
  obtain ⟨o', ho, hv⟩ := ((does_visit (A := A) hready).ran h.fit hran).2
  cases ho
  exact (hv (hreach.inv.due hreach.undamaged hr' he)).resolve_right fun hd => hd.elim hc.1 hc.2

end

section
variable [Lib] {d d' : DataRoot} {A B : Home → Env host} {O : Obstacles} {coordinator : Bool}

def Site.Eligible (s : Site) : Prop :=
  let _ := s.home
  ∃ r, s.config.world.view.run readRecord = .ok r ∧ r.eligible = true

/-- **A tick is isolated from the faults of single meetings.** If it raised, that was `NotReady`, out of the sweep of a
half-published meeting whose deadline had passed, or the `OSError` of a call of `_meeting_ids`. If not, and there is a
coordinator, every meeting of the data root had its turn, but for those whose folder is not there or could not be listed,
and `process_once` was called for each that nobody was using, that was eligible, and whose visit met no failing call and
no taken lock. -/
theorem tick_is_isolated {out : Except Exn Calls} (hp : Proper d) (ht : Ticks A B O Guests coordinator d out d') :
    (∀ e, out = .error e → (e = .notReady ∧ ∃ d₁ s, Changes d d₁ ∧ Changes d₁ d' ∧ s ∈ d₁ ∧ s.Stalled A) ∨
      e = .osError ∧ O.unread) ∧
    ∀ os, out = .ok os → if coordinator then (∀ s ∈ d, Met O d os d' s.home) ∧
      ∀ p ∈ os, p.1.config.idle → p.1.Eligible → Calm (B p.1.home) → p.2.isSome = true else os = [] := by
  cases ht with
  | escaped hl h =>
    refine ⟨fun e he => ?_, by simp⟩
    cases he
    exact .inl (h.escapes (fun _ _ h => h) hp rfl)
  | idle hl h hc =>
    subst hc
    exact ⟨by simp, fun os he => by cases he; rfl⟩
  | unread hl h hc hu =>
    refine ⟨fun e he => ?_, by simp⟩
    cases he
    exact .inr ⟨rfl, hu⟩
  | visited hl h hc hl' h' =>
    subst hc
    refine ⟨by simp, fun os he => ?_⟩
    cases he
    have hch := h.changes fun _ _ h => h
    refine ⟨fun s hs => ?_, fun p hm hidle helig hcalm => ?_⟩
    · obtain ⟨s', hs', hh, -⟩ := hch.site hs
      rw [← hh]
      exact (h'.listed (fun _ _ h => h) _ (hl' s' hs')).earlier hch
    · obtain ⟨hreach, hvis⟩ := h'.each (fun _ _ h => h) (hch.proper hp) p hm
      obtain ⟨s', hu⟩ := hvis hidle
      obtain ⟨w, hran, -⟩ := hu.ran
      obtain ⟨r, hr, he⟩ := helig
      let _ := p.1.home
      exact visit_calls hreach hidle hcalm hran hr he

end

/-! ## A stalled meeting stops the scheduler -/

section
variable [Lib] [Home] {r : MeetingRecord} {c c' : Config} {A : Env host} {out : Except Exn Unit} {w : World}

/-- A sweep leaves it half published, however it ends. -/
theorem Frozen.swept (h : Frozen r c) (hidle : c.idle) (hran : Ran A sweepEntry (c.begin .sweep).world out w) :
    Frozen r ⟨w.note (.finished (exnOf out)), none⟩ := by
  have hhalf : HalfPublished (c.begin .sweep).world.view r := h.half.congr fun _ _ => rfl
  have hlater : HalfPublished (c.begin .sweep).world.view.afterPower r := h.later.congr fun _ _ => rfl
  have hsat := hhalf.does_program (A := A) (a := .sweep) ⟨nofun, nofun⟩ _ rfl h.reach.fit
  have hkeep := hsat.invariant (J := fun w : World => Fit w.disk ∧ HalfPublished w.view r ∧ HalfPublished w.view.afterPower r)
    ⟨h.reach.fit, hhalf, hlater⟩ fun w o ch hj hg _ => by
      obtain ⟨hfit, hact⟩ := guarded_act hj.1 hg ch
      refine ⟨hfit, ?_⟩
      rcases hact with he | ⟨e, htidy, he⟩
      · exact he ▸ hj.2
      · exact he ▸ ⟨hj.2.1.step htidy, hj.2.1.later hj.2.2 htidy⟩
  obtain ⟨-, -, hhalf', hlater'⟩ := hran.ends hkeep
  have hc : c = ⟨c.world, none⟩ := congrArg (Config.mk c.world) hidle
  have hrun : Run False ⟨c.world, none⟩ ⟨w.note (.finished (exnOf out)), none⟩ :=
    run_use (a := .sweep) trivial (discard_unit sweepEntry).symm hran
  exact ⟨h.reach.trans (hc ▸ hrun), hhalf'.congr fun _ _ => rfl, hlater'.congr fun _ _ => rfl, nofun⟩

/-- An undisturbed one raises. -/
theorem Frozen.raises {t : Time} (h : Frozen r c) (ht : r.meeting.temporaryExpiresAt = some t)
    (hA : ∀ w o ch, A w o ch → undisturbed t w o ch) (hran : Ran A sweepEntry (c.begin .sweep).world out w) :
    out = .error .notReady :=
  hran.ends ((h.sweep ht).weaken hA fun _ _ h => h)

end

section
variable [Lib] {s s' : Site} {d d' d₁ : DataRoot} {A B : Home → Env host} {O : Obstacles} {coordinator : Bool}
  {hs : List Home} {k : Home} {r : MeetingRecord} {t : Time}

def Site.Frozen (r : MeetingRecord) (s : Site) : Prop :=
  let _ := s.home
  Tirke.Frozen r s.config

/-- The site of this home is frozen. -/
def FrozenAt (r : MeetingRecord) (k : Home) (d : DataRoot) : Prop := ∃ s ∈ d, s.home = k ∧ s.Frozen r

/-- The sweep comes to the meeting after the deadline: its folder is listed, nobody is using it, and no call fails there. -/
structure Finds (A : Home → Env host) (O : Obstacles) (k : Home) (t : Time) : Prop where
  listed : ¬ O.unswept k
  free : ¬ O.busy k
  late : ∀ w o ch, A k w o ch → undisturbed t w o ch

theorem Site.Frozen.present (h : s.Frozen r) : ¬ s.absent := by
  let _ := s.home
  have hlive : s.config.world.view.img.slot .folder = .live :=
    reach_iff.1 (readable_reach (Tirke.Frozen.half h).readable) _ (by simp [Dir.chain])
  rw [Site.absent, hlive]
  simp

theorem Guests.frozen (h : Guests d d') (hf : FrozenAt r k d) : FrozenAt r k d' := by
  obtain ⟨s, hs, rfl, hfz⟩ := hf
  cases h with
  | created d s₁ => exact ⟨s, List.mem_cons_of_mem _ hs, rfl, hfz⟩
  | step pre post s₁ s₁' hh hstep hc =>
    rcases List.mem_append.1 hs with hs | hs
    · exact ⟨s, List.mem_append_left _ hs, rfl, hfz⟩
    · rcases List.mem_cons.1 hs with rfl | hs
      · refine ⟨s₁', by simp, hh, ?_⟩
        unfold Site.Frozen at hfz ⊢
        rw [hh]
        let _ := s.home
        exact (Frozen.step hfz ⟨hstep, hc⟩).1
      · exact ⟨s, by simp [hs], rfl, hfz⟩

theorem Site.Swept.frozen {out : Except Exn Unit} (h : s.Swept A out s') (hf : s.Frozen r) : s'.Frozen r := by
  obtain ⟨w, hran, hw⟩ := h.ran
  have hs' : s'.config = ⟨w.note (.finished (exnOf out)), none⟩ := by
    rw [← hw]
    exact congrArg (Config.mk s'.config.world) h.idleAfter
  unfold Site.Frozen at hf ⊢
  rw [h.home, hs']
  let _ := s.home
  exact Frozen.swept hf h.idle hran

theorem Site.Swept.raises {out : Except Exn Unit} (h : s.Swept A out s') (hf : s.Frozen r)
    (ht : r.meeting.temporaryExpiresAt = some t) (hA : ∀ w o ch, A s.home w o ch → undisturbed t w o ch) :
    out = .error .notReady := by
  obtain ⟨w, hran, -⟩ := h.ran
  let _ := s.home
  exact Frozen.raises hf ht hA hran

/-- Nothing changes at a site while another one is used. -/
theorem mem_other {pre post : DataRoot} {s₁ : Site} (h₁ : s₁.home ≠ s.home) (hs : s₁ ∈ pre ++ s :: post) :
    s₁ ∈ pre ++ s' :: post := by
  have hne : s₁ ≠ s := by rintro rfl; exact h₁ rfl
  rcases List.mem_append.1 hs with hs | hs
  · exact List.mem_append_left _ hs
  · exact List.mem_append_right _ (List.mem_cons_of_mem _ ((List.mem_cons.1 hs).resolve_left hne))

/-- **No sweep gets past it.** -/
theorem Sweeps.stopped {o : Option Exn} (h : Sweeps A O Guests hs d o d') (hp : Proper d) (hf : FrozenAt r k d)
    (ht : r.meeting.temporaryExpiresAt = some t) (hA : Finds A O k t) (hk : k ∈ hs) :
    FrozenAt r k d' ∧ o = some .notReady := by
  induction h with
  | done d => cases hk
  | meanwhile hg _ ih => exact ih (hg.change.proper hp) (hg.frozen hf) hk
  | @unlisted hs d d' o s hm hn _ ih =>
    refine ih hp hf ((List.mem_cons.1 hk).resolve_left ?_)
    rintro rfl
    obtain ⟨s₀, hs₀, hh₀, hf₀⟩ := hf
    cases hp.eq hs₀ hm (by rw [hh₀])
    exact hn.elim hf₀.present hA.listed
  | @busy hs d d' o s _ _ hn _ ih =>
    refine ih hp hf ((List.mem_cons.1 hk).resolve_left ?_)
    rintro rfl
    exact hA.free hn
  | tolerated pre post s s' out hu htol _ ih =>
    have hmem : s ∈ pre ++ s :: post := by simp
    obtain ⟨s₀, hs₀, hh₀, hf₀⟩ := hf
    by_cases hk' : s.home = k
    · -- it is the stalled meeting's turn, and the loop does not expect what is raised
      cases hp.eq hs₀ hmem (by rw [hh₀, hk'])
      have hout := Site.Swept.raises hu hf₀ ht (by rw [hk']; exact hA.late)
      cases htol _ hout
    · have hother : s₀.home ≠ s.home := hh₀.trans_ne fun he => hk' he.symm
      exact ih ((changes_of_run hu.home (Site.Swept.run hu)).proper hp) ⟨s₀, mem_other hother hs₀, hh₀, hf₀⟩
        ((List.mem_cons.1 hk).resolve_left fun he => hk' he.symm)
  | escaped pre post s s' e hu htol =>
    have hmem : s ∈ pre ++ s :: post := by simp
    obtain ⟨s₀, hs₀, hh₀, hf₀⟩ := hf
    refine ⟨?_, congrArg some (Site.Swept.escapes hu (hp.reached s hmem) htol).1⟩
    by_cases hk' : s.home = k
    · cases hp.eq hs₀ hmem (by rw [hh₀, hk'])
      exact ⟨s', by simp, hu.home.trans hk', Site.Swept.frozen hu hf₀⟩
    · exact ⟨s₀, mem_other (hh₀.trans_ne fun he => hk' he.symm) hs₀, hh₀, hf₀⟩

/-- **No tick gets past it**: none calls `process_once` for any meeting. -/
theorem Ticks.stopped {out : Except Exn Calls} (h : Ticks A B O Guests coordinator d out d') (hp : Proper d)
    (hf : FrozenAt r k d) (ht : r.meeting.temporaryExpiresAt = some t) (hA : Finds A O k t) :
    (FrozenAt r k d' ∧ Changes d d') ∧ out = .error .notReady := by
  obtain ⟨s, hs, hh, hfs⟩ := hf
  have hstop {hs : List Home} {o : Option Exn} {d₁ : DataRoot} (hl : Lists hs d) (hsw : Sweeps A O Guests hs d o d₁) :
      FrozenAt r k d₁ ∧ o = some .notReady := hsw.stopped hp ⟨s, ‹_›, hh, hfs⟩ ht hA (hh ▸ hl s ‹_›)
  cases h with
  | escaped hl hsw =>
    obtain ⟨hf', ho⟩ := hstop hl hsw
    cases ho
    exact ⟨⟨hf', hsw.changes fun _ _ h => h⟩, rfl⟩
  | idle hl hsw | unread hl hsw | visited hl hsw => cases (hstop hl hsw).2

/-- Others use the meetings of the data root, and every now and then there is a tick whose sweep finds the meeting. -/
inductive Round (k : Home) (t : Time) : DataRoot → DataRoot → Prop where
  | guest {d d' : DataRoot} (h : Guests d d') : Round k t d d'
  | tick {A B : Home → Env host} {O : Obstacles} {coordinator : Bool} {d d' : DataRoot} {out : Except Exn Calls}
      (hA : Finds A O k t) (h : Ticks A B O Guests coordinator d out d') : Round k t d d'

/-- **A stalled meeting stops the scheduler for good.** From a half-published meeting on, whatever requests come in
between and during the ticks, for this or other meetings: if every tick comes after its deadline, finds its folder, finds
nobody using it, and no call fails there, then none of them calls `process_once`, for no meeting at all. -/
theorem stalled_meeting_stops_scheduler {out : Except Exn Calls} (hp : Proper d) (hs : s ∈ d) (hidle : s.config.idle)
    (hh : let _ := s.home; HalfPublished s.config.world.view r ∧ HalfPublished s.config.world.view.afterPower r)
    (ht : r.meeting.temporaryExpiresAt = some t) (hrun : Relation.ReflTransGen (Round s.home t) d d₁)
    (hA : Finds A O s.home t) (htick : Ticks A B O Guests coordinator d₁ out d') : out = .error .notReady := by
  have hall : Proper d₁ ∧ FrozenAt r s.home d₁ := by
    clear htick
    induction hrun with
    | refl =>
      refine ⟨hp, s, hs, rfl, ?_⟩
      let _ := s.home
      exact Frozen.start (hp.reached s hs) hidle hh.1 hh.2
    | tail _ hround ih =>
      cases hround with
      | guest hg => exact ⟨hg.change.proper ih.1, hg.frozen ih.2⟩
      | tick hA htick =>
        obtain ⟨⟨hf, hc⟩, -⟩ := htick.stopped ih.1 ih.2 ht hA
        exact ⟨hc.proper ih.1, hf⟩
  exact (htick.stopped hall.1 hall.2 ht hA).2

end

section
attribute [local instance] Sample.lib Sample.home

namespace Sample

def siteOf (c : Config) : Site := ⟨home, c⟩

/-- It is late, nothing fails, and every lock is free. -/
def lateCalm (_ : World) (_ : Op) : Choice := { Choice.calm with elapsed := 86400001000 }

def lateAlways (w w' : World) : Bool := !w.busy && decide (86400001000 ≤ w'.clock)

theorem lateCalm_undisturbed (w : World) (o : Op) (h : lateAlways w (w.act o (lateCalm w o)).2 = true) :
    undisturbed 86400001000 w o (lateCalm w o) := by
  simp only [lateAlways, Bool.and_eq_true, Bool.not_eq_true', decide_eq_true_eq] at h
  refine ⟨rfl, h.1, ?_⟩
  cases o with
  | now => exact h.2
  | _ => trivial

/-- No listing fails, and every lock is free. -/
def clear : Obstacles := ⟨fun _ => False, fun _ => False, fun _ => False, False⟩

/-- Nothing fails at the first meeting, anything may at the others. -/
def partly (t : Time) (k : Home) : Env host := if k.meetingId = 2 then undisturbed t else anything

/-- The disk fails. -/
def diskFailing : World → Op → Choice := fun _ _ => { Choice.calm with fault := some ⟨default, fun _ => false⟩ }

/-- The two meetings when they were swept, which failed at the second one. -/
def swept : Site := (siteAs home).played .sweep (fun h => let _ := h; sweepEntry) (fun _ _ => .calm) (.ok ())
def unswept : Site :=
  (siteAs (sibling 3)).played .sweep (fun h => let _ := h; sweepEntry) diskFailing (.error .osError)

theorem lists_pair {hs : List Home} {s s' : Site} (h : s.home ∈ hs) (h' : s'.home ∈ hs) : Lists hs [s, s'] := by
  intro t ht
  simp only [List.mem_cons, List.not_mem_nil, or_false] at ht
  rcases ht with rfl | rfl
  · exact h
  · exact h'

theorem swept_swept : (siteAs home).Swept (fun _ => anything) (.ok ()) swept :=
  uses_play (ψ := fun _ _ => true) rfl (fun _ _ _ => trivial) (by decide +kernel) (by decide +kernel)

theorem swept_unswept : (siteAs (sibling 3)).Swept (fun _ => anything) (.error .osError) unswept :=
  uses_play (ψ := fun _ _ => true) rfl (fun _ _ _ => trivial) (by decide +kernel) (by decide +kernel)

/-- What the visit of the coordinator returns. -/
def visited : Option (Except Exn (Option (Except Exn Meeting))) :=
  returned (host.play (fun _ _ => false) (answering (gpu first)) visit (swept.config.world.note (.started .step))).1

theorem exists_visited : ∃ o, visited = some (.ok o) := by
  have hv : (visited.bind Except.toOption).isSome = true := by decide +kernel
  cases ho : visited with
  | none => rw [ho] at hv; cases hv
  | some x =>
    cases x with
    | ok o => exact ⟨o, rfl⟩
    | error e => rw [ho] at hv; cases hv

theorem answering_undisturbed (w : World) (o : Op) (h : (!w.busy) = true) :
    undisturbed 0 w o (answering (gpu first) w o) := by
  refine ⟨by cases o <;> rfl, by simpa using h, ?_⟩
  cases o with
  | now => exact Nat.zero_le _
  | _ => trivial

end Sample

open Sample in
theorem tick_is_isolated_sample : ∃ os d', Ticks (fun _ => anything) (partly 0) clear Guests true
    pair (.ok os) d' ∧ (∃ s, (s, none) ∈ os ∧ s.home = sibling 3) ∧
    ∃ s o, (s, some o) ∈ os ∧ s.home = home := by
  have hlists : ∀ s s' : Site, s.home = sibling 3 → s'.home = home → Lists [sibling 3, home] [s, s'] :=
    fun s s' h h' => lists_pair (by simp [h]) (by simp [h'])
  have hmissed : unswept.Visited (partly 0) none _ :=
    uses_play (ψ := fun _ _ => true) (f := diskFailing) rfl (fun _ _ _ => trivial) (by decide +kernel) (by decide +kernel)
  obtain ⟨o, ho⟩ := exists_visited
  have hvisit : swept.Visited (partly 0) o _ :=
    uses_play (ψ := fun w _ => !w.busy) rfl answering_undisturbed (by decide +kernel) ho
  have htick : Ticks (fun _ => anything) (partly 0) clear Guests true pair
      (.ok [(unswept, none), (swept, o)]) _ :=
    .visited (hlists _ _ rfl rfl)
      (.tolerated [] [_] _ _ _ swept_unswept (by rintro _ ⟨⟩; rfl)
        (.tolerated [_] [] _ _ _ swept_swept (by simp) (.done _))) rfl
      (hlists _ _ rfl rfl) (.visited [] [_] _ _ none hmissed (.visited [_] [] _ _ o hvisit (.done _)))
  have hcalm : Calm (partly 0 home) := ⟨undisturbed_undisturbed.calm, undisturbed_undisturbed.free⟩
  have helig : swept.Eligible := ⟨recordOf swept.config, by decide +kernel, by decide +kernel⟩
  have hcalled : o.isSome = true :=
    ((tick_is_isolated proper_pair htick).2 _ rfl).2 (swept, o) (by simp) rfl helig hcalm
  obtain ⟨x, rfl⟩ := Option.isSome_iff_exists.1 hcalled
  exact ⟨_, _, htick, ⟨unswept, by simp, rfl⟩, swept, x, by simp, rfl⟩

namespace Sample

/-- The second meeting is half published. -/
def stalled (c : Config) : DataRoot := [siteAs (sibling 3), siteOf c]

/-- A tick has come to it. -/
def passed : Site := (siteOf severed).played .sweep (fun h => let _ := h; sweepEntry) lateCalm (.error .notReady)

/-- Someone wants to delete it, and is stopped. -/
def resumed : Config := ⟨(passed.config.begin (.delete 5)).world.note .killed, none⟩

theorem changes_stalled : Changes pair (stalled severed) :=
  @changes_of_run _ (siteAs home) (siteOf severed) [_] [] rfl (run_cues (c := created) (.inr rfl))

theorem lists_stalled (c : Config) : Lists [home, sibling 3] (stalled c) :=
  lists_pair (List.mem_cons_of_mem _ List.mem_cons_self) List.mem_cons_self

theorem guest_stalled {c c' : Config} (h : Step False c c') (hc : c'.prog ≠ none → ¬ coordinating c'.world.log) :
    Guests (stalled c) (stalled c') := .step [_] [] (siteOf c) (siteOf c') rfl h hc

theorem finds_late : Finds (partly 86400001000) clear home 86400001000 := ⟨id, id, fun _ _ _ h => h⟩

end Sample

open Sample in
theorem stalled_meeting_stops_scheduler_sample : ∃ out d', Relation.ReflTransGen (Round home 86400001000) (stalled severed)
    (stalled resumed) ∧ Ticks (partly 86400001000) (fun _ => anything) clear Guests true (stalled resumed) out d' ∧
    out = .error .notReady := by
  have hswept : ∀ c : Config, (siteOf c).Swept (partly 86400001000) (.error .notReady)
      ((siteOf c).played .sweep (fun h => let _ := h; sweepEntry) lateCalm (.error .notReady)) →
      Ticks (partly 86400001000) (fun _ => anything) clear Guests true (stalled c) (.error .notReady)
        (stalled ((siteOf c).played .sweep (fun h => let _ := h; sweepEntry) lateCalm (.error .notReady)).config) :=
    fun c hu => .escaped (lists_stalled c) (.escaped [_] [] _ _ .notReady hu rfl)
  have hfirst : Ticks (partly 86400001000) (fun _ => anything) clear Guests true (stalled severed) (.error .notReady)
      (stalled passed.config) :=
    hswept severed (uses_play rfl lateCalm_undisturbed (by decide +kernel) (by decide +kernel))
  have hlast : Ticks (partly 86400001000) (fun _ => anything) clear Guests true (stalled resumed) (.error .notReady) _ :=
    hswept resumed (uses_play rfl lateCalm_undisturbed (by decide +kernel) (by decide +kernel))
  have hguests : Relation.ReflTransGen (Round home 86400001000) (stalled passed.config) (stalled resumed) := by
    have hc : ¬ coordinating (passed.config.begin (.delete 5)).world.log := by rintro (hc | hc) <;> cases hc
    have hstart := guest_stalled (step_begin (c := passed.config) (a := .delete 5) rfl trivial) fun _ => hc
    have hkill : Guests (stalled (passed.config.begin (.delete 5))) (stalled resumed) :=
      guest_stalled (.killed _ _) fun hp => (hp rfl).elim
    exact .tail (.single (.guest hstart)) (.guest hkill)
  have hrun := (Relation.ReflTransGen.single (Round.tick finds_late hfirst)).trans hguests
  refine ⟨_, _, hrun, hlast, ?_⟩
  exact stalled_meeting_stops_scheduler (changes_stalled.proper proper_pair) (s := siteOf severed) (by simp [stalled]) rfl
    half_severed (by decide +kernel) hrun finds_late hlast

end

end Tirke
