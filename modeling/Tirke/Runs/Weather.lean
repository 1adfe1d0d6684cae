import Tirke.Runs.Written
/-!
# Runs in a weather

`StepIn rot A` are the steps whose operations turn out as the environment `A` allows. A run of them from the beginning
is lawful under that weather (`reach_in`). A run that only begins later is, from the first use of the meeting that begins
in it: `Kept` is what such a run keeps of the files.
-/

set_option linter.unusedSectionVars false

namespace Tirke

open CrashProg CrashDisk

section
variable [Lib] [Home] {v v' : View} {r r' : MeetingRecord} {c c' : Config} {e : Event} {rot : Prop} {A : Env host}

/-! ## From the beginning -/

/-- A step whose operation, if it performs one, turns out as `A` allows. -/
inductive StepIn (rot : Prop) (A : Env host) : Config → Config → Prop where
  | op (w : World) (o : Op) (k : o.Reply → Serv Unit) (ch : Choice) (h : A w o ch) :
      StepIn rot A ⟨w, some (.op o k)⟩ ⟨(w.act o ch).2, some (k (w.act o ch).1)⟩
  | other (c c' : Config) (h : Step rot c c') (hp : c.prog = none ∨ c'.prog = none) : StepIn rot A c c'

theorem StepIn.step (h : StepIn rot A c c') : Step rot c c' := by
  cases h with
  | op w o k ch h => exact .op w o k ch
  | other c c' h hp => exact h

theorem StepIn.keeps [Weather] (h : StepIn rot Weather.admits c c') (hg : Good rot c) : Good rot c' := by
  cases h with
  | op w o k ch h =>
    have ho := hg.obeys _ rfl
    have hlife : Life rot (w.act o ch).2.view := by
      have hstep : Step rot ⟨w, some (.op o k)⟩ ⟨(w.act o ch).2, some (k (w.act o ch).1)⟩ := .op w o k ch
      rcases hstep.happens hg with he | hh
      · rw [show (w.act o ch).2.view = w.view from he]; exact hg.life
      · exact .step hg.life hh
    refine ⟨(guarded_act hg.fit ho.1 ch).1, hlife, fun p hp => ?_⟩
    cases hp
    exact ho.2 ch h
  | other c c' h hp =>
    refine h.keeps (fun w o k ch hc hc' => ?_) hg
    subst hc hc'
    rcases hp with hp | hp <;> cases hp

theorem reach_in [Weather] (h : Reach (StepIn rot Weather.admits) c) : Good rot c := by
  obtain ⟨c₀, h₀, hs⟩ := h
  induction hs with
  | refl => exact h₀.good
  | tail _ hstep ih => exact hstep.keeps ih

/-- A step happens in the weather if its operation does. -/
theorem Step.within (h : Step rot c c') (hA : ∀ (w : World) (o : Op) (ch : Choice), c'.world = (w.act o ch).2 → A w o ch) :
    StepIn rot A c c' := by
  cases h with
  | op w o k ch => exact .op w o k ch (hA w o ch rfl)
  | start w a h => exact .other _ _ (.start w a h) (.inl rfl)
  | returned w => exact .other _ _ (.returned w) (.inr rfl)
  | raised w e => exact .other _ _ (.raised w e) (.inr rfl)
  | killed w p => exact .other _ _ (.killed w p) (.inr rfl)
  | power w p => exact .other _ _ (.power w p) (.inr rfl)
  | waited w t busy => exact .other _ _ (.waited w t busy) (.inl rfl)
  | damaged w n d h hn hl => exact .other _ _ (.damaged w n d h hn hl) (.inl rfl)

/-- Every step happens in some weather. -/
theorem Step.anyhow (h : Step rot c c') : StepIn rot anything c c' := h.within fun _ _ _ _ => trivial

/-- What is left of a program performs an operation. -/
def Config.operating (c : Config) : Bool :=
  match c.prog with
  | some (.op _ _) => true
  | _ => false

theorem step_perform {ch : Choice} (h : c.operating = true) :
    Step rot c (c.cue (.perform [ch])) := by
  obtain ⟨w, p⟩ := c
  match p with
  | some (.op o k) => exact .op w o k ch
  | some (.ret _) => cases h
  | some (.raise _) => cases h
  | none => cases h

theorem run_playIn {ψ : World → World → Bool} {stop : World → Op → Bool} {f : World → Op → Choice} (hA : ∀ w o, ψ w (w.act o (f w o)).2 = true → A w o (f w o))
    {p : Serv Unit} {w : World} (h : host.always ψ stop f p w = true) :
    Relation.ReflTransGen (StepIn rot A) ⟨w, some p⟩ ⟨(host.play stop f p w).2, some (host.play stop f p w).1⟩ := by
  induction p generalizing w with
  | ret u => exact .refl
  | raise e => exact .refl
  | op o k ih =>
    unfold Machine.play
    unfold Machine.always at h
    split at h
    · next hs => rw [if_pos hs]
    · next hs =>
      rw [if_neg hs]
      have h' := Bool.and_eq_true_iff.1 h
      exact .head (.op w o k (f w o) (hA w o h'.1)) (ih _ h'.2)

theorem step_finish (h : c.outcome = some none) : StepIn rot A c (c.cue .finish) := by
  have hp := prog_of_returned h
  obtain ⟨w, p⟩ := c
  cases hp
  exact .other _ _ (.returned w) (.inr rfl)

/-! ## The files of a record -/

theorem put_ne_none {f : Name → Option Doc} {m k : Name} {x : Doc} (h : f k ≠ none) : Function.update f m (some x) k ≠ none := by
  rw [Function.update_apply]
  split
  · nofun
  · exact h

theorem readable_unique {r₀ : MeetingRecord} (hr₀ : v.run readRecord = .ok r₀) (hr : v.files .meeting = some (.record r)) :
    r₀ = r := by
  rw [files_of_readable hr₀] at hr
  cases hr
  rfl

/-! ## From a configuration on -/

theorem Reach.fit (h : Reach (Step False) c) : Fit c.world.disk :=
  (reach_good (fun _ _ h => h) h : Good False c).fit

theorem Reach.rewritten (h : Reach (Step False) c) (hs : Step False c c') (hw : Tirke.written c.world.log ≠ []) :
    Tirke.written c'.world.log ≠ [] := by
  rcases hs.happens (reach_good (fun _ _ h => h) h) with he | hh
  · rw [show c'.world.log = c.world.log from congrArg View.log he]
    exact hw
  · exact hh.written hw

/-- What says nothing of the view stays as it is when a use begins or ends. -/
theorem Holds.bound {P : (Name → Option Doc) → Prop} (h : Holds (fun _ _ f => P f) v) (he : e.bounds) :
    Holds (fun _ _ f => P f) (v.note e) := by
  refine ⟨fun hp => h.now (inPlay_before hp rfl rfl ?_), h.later⟩
  rintro t rfl
  exact he.elim

/-- What a run in the weather keeps: `P` of the files, and `K` of the log while a use is under way. -/
structure Kept [Weather] (K : List Event → Prop) (P : (Name → Option Doc) → Prop) (c : Config) : Prop where
  reach : Reach (Step False) c
  holds : Holds (fun _ _ f => P f) c.world.view
  obeys : ∀ p, c.prog = some p → Obeys p c.world ∧ K c.world.log
  written : Tirke.written c.world.log ≠ []

section
variable [Weather] {K : List Event → Prop} {P : (Name → Option Doc) → Prop} {I : View → Prop}

/-- What a run relies on to keep them. -/
structure Keeping (K : List Event → Prop) (P : (Name → Option Doc) → Prop) (I : View → Prop) : Prop where
  stable : Stable I fun _ _ f => P f
  known : ∀ c : Config, Reach (Step False) c → K c.world.log → Tirke.written c.world.log ≠ [] → I c.world.view
  started : ∀ a log, K (.started a :: log)
  act : ∀ (w : World) o ch, Weather.admits w o ch → K w.log → K (w.act o ch).2.log

theorem Kept.start (h : Reach (Step False) c) (hidle : c.idle) (hr : c.world.view.run readRecord = .ok r)
    (hp : Holds (fun _ _ f => P f) c.world.view) : Kept K P c := by
  refine ⟨h, hp, fun p hprog => ?_, List.ne_nil_of_mem (h.inv.written hr)⟩
  rw [hidle] at hprog
  cases hprog

theorem Kept.step (h : Kept K P c) (hk : Keeping K P I) (hs : StepIn False Weather.admits c c') : Kept K P c' := by
  have hfit : Fit c.world.disk := h.reach.fit
  have hreach : Reach (Step False) c' := h.reach.trans (.single hs.step)
  have hw : Tirke.written c'.world.log ≠ [] := h.reach.rewritten hs.step h.written
  cases hs with
  | op w o k ch hch =>
    obtain ⟨hob, hlog⟩ := h.obeys _ rfl
    refine ⟨hreach, ?_, fun p hp => ?_, hw⟩
    · rcases (guarded_act hfit hob.1 ch).2 with he | ⟨e, hl, he⟩
      · exact he ▸ h.holds
      · have hstep : Holds (fun _ _ f => P f) (w.view.after e) := h.holds.step hk.stable
          (hk.known _ h.reach hlog h.written) (.lawful e hl : Happens False w.view (w.view.after e))
        exact he ▸ hstep
    · cases hp
      exact ⟨hob.2 ch hch, hk.act w o ch hch hlog⟩
  | other c c' hstep hp =>
    cases hstep with
    | start w a ha =>
      refine ⟨hreach, Holds.bound (e := .started a) h.holds ha, fun p hp => ?_, hw⟩
      cases hp
      exact ⟨obeys_action hfit hreach.inv rfl rfl, hk.started a _⟩
    | op => rcases hp with hp | hp <;> cases hp
    | returned w => exact ⟨hreach, Holds.bound (e := .finished none) h.holds trivial, nofun, hw⟩
    | raised w x => exact ⟨hreach, Holds.bound (e := .finished (some x)) h.holds trivial, nofun, hw⟩
    | killed w p => exact ⟨hreach, Holds.bound (e := .killed) h.holds trivial, nofun, hw⟩
    | power w p => exact ⟨hreach, ⟨fun _ => h.holds.later, h.holds.later⟩, nofun, hw⟩
    | waited w t busy => exact ⟨hreach, h.holds, nofun, hw⟩
    | damaged w m x hrot => exact hrot.elim

/-- **A run keeps what its weather lets it keep.** -/
theorem Kept.run (h : Kept K P c) (hk : Keeping K P I) (hs : Relation.ReflTransGen (StepIn False Weather.admits) c c') :
    Kept K P c' := by
  induction hs with
  | refl => exact h
  | tail _ hstep ih => exact ih.step hk hstep

end

end

end Tirke
