import Tirke.Runs.DataRoot
/-!
# A tick over the data root

`CoordinatorRuntime.tick` (`coordinator_runtime.py:66`) holding the coordinator lock: one sweep of every meeting, then,
if there is a coordinator, one visit to every meeting, each under the meeting's own lock. Between two of them others
change the data root as `G` says: at most whatever may happen but for the visits of another coordinator (`Guests`). A
meeting that someone else is using is passed over.

The calls that list the directories may fail, too (`Obstacles`). `sweep` leaves out what it cannot read
(`local_janitor.py:70-88`). `_meeting_ids` has no `except` for them and is called outside of the loop's `try`: what it
raises ends the tick (`Ticks.unread`). A folder that is not there is not listed (`Site.absent`, `Site.live`).

| here | there |
| --- | --- |
| `Sweeps` | the loops of `LocalJanitor.sweep`; an exception they do not tolerate ends them |
| `Visits` | the loop of `tick`; its `except` clauses are `visit`'s |
| `Ticks.escaped`, `Ticks.unread` | `sweep` or `_meeting_ids` has raised: `run_forever` logs it and waits for the next tick |
| `Ticks.idle` | `if self.coordinator is None: return` |
-/

set_option linter.unusedSectionVars false

namespace Tirke

open CrashProg CrashDisk

section
variable [Lib]

/-- How a use that ends so is logged. -/
def exnOf {α : Type} : Except Exn α → Option Exn
  | .ok _ => none
  | .error e => some e

/-- One use of the site, from its beginning to its end. -/
structure Site.Uses {α : Type} (A : Env host) (a : Action) (p : Home → Serv α) (s : Site) (out : Except Exn α) (s' : Site) :
    Prop where
  home : s'.home = s.home
  idle : s.config.idle
  idleAfter : s'.config.idle
  ran : ∃ w, Ran A (p s.home) (s.config.world.note (.started a)) out w ∧
    s'.config.world = w.note (.finished (exnOf out))

/-- `_sweep_entry` of the site's folder. -/
def Site.Swept (A : Home → Env host) (s : Site) (out : Except Exn Unit) (s' : Site) : Prop :=
  s.Uses (A s.home) .sweep (fun h => let _ := h; sweepEntry) out s'

/-- The body of `tick`'s loop. -/
def Site.Visited (A : Home → Env host) (s : Site) (o : Option (Except Exn Meeting)) (s' : Site) : Prop :=
  s.Uses (A s.home) .step (fun h => let _ := h; visit) (.ok o) s'

/-- What others do while the coordinator lock is taken. -/
inductive Guests : DataRoot → DataRoot → Prop where
  | step (pre post : DataRoot) (s s' : Site) (hh : s'.home = s.home)
      (hs : let _ := s.home; Step False s.config s'.config)
      (hc : s'.config.prog ≠ none → ¬ coordinating s'.config.world.log) : Guests (pre ++ s :: post) (pre ++ s' :: post)
  | created (d : DataRoot) (s : Site) (hi : let _ := s.home; Initial s.config)
      (hf : ∀ s' ∈ d, s'.home.meetingId ≠ s.home.meetingId) : Guests d (s :: d)

/-- What may keep a tick from a meeting. -/
structure Obstacles where
  /-- A call of `sweep` that lists the folder, its owner's folder or `users` fails. -/
  unswept : Home → Prop
  /-- Someone is using the meeting when its turn to be swept comes. -/
  busy : Home → Prop
  /-- A call of `_meeting_ids` fails so that the folder is left out: `is_dir` is false where it ignores the error. -/
  unlisted : Home → Prop
  /-- A call of `_meeting_ids` raises. -/
  unread : Prop

/-- There is no folder, under no name. -/
def Site.absent (s : Site) : Prop := s.config.world.view.img.slot .folder = .absent

/-- There is a folder under the meeting's own name. -/
def Site.live (s : Site) : Prop := s.config.world.view.img.slot .folder = .live

inductive Sweeps (A : Home → Env host) (O : Obstacles) (G : DataRoot → DataRoot → Prop) :
    List Home → DataRoot → Option Exn → DataRoot → Prop where
  | done (d : DataRoot) : Sweeps A O G [] d none d
  | meanwhile {hs : List Home} {d d₁ d' : DataRoot} {o : Option Exn} (hg : G d d₁) (h : Sweeps A O G hs d₁ o d') :
      Sweeps A O G hs d o d'
  | unlisted {hs : List Home} {d d' : DataRoot} {o : Option Exn} {s : Site} (hm : s ∈ d)
      (hn : s.absent ∨ O.unswept s.home) (h : Sweeps A O G hs d o d') : Sweeps A O G (s.home :: hs) d o d'
  | busy {hs : List Home} {d d' : DataRoot} {o : Option Exn} {s : Site} (hm : s ∈ d) (hb : s.config.prog ≠ none)
      (hn : O.busy s.home) (h : Sweeps A O G hs d o d') : Sweeps A O G (s.home :: hs) d o d'
  | tolerated {hs : List Home} {d' : DataRoot} {o : Option Exn} (pre post : DataRoot) (s s' : Site)
      (out : Except Exn Unit) (hu : s.Swept A out s') (ht : ∀ e, out = .error e → sweepTolerates e = true)
      (h : Sweeps A O G hs (pre ++ s' :: post) o d') : Sweeps A O G (s.home :: hs) (pre ++ s :: post) o d'
  | escaped {hs : List Home} (pre post : DataRoot) (s s' : Site) (e : Exn) (hu : s.Swept A (.error e) s')
      (ht : sweepTolerates e = false) : Sweeps A O G (s.home :: hs) (pre ++ s :: post) (some e) (pre ++ s' :: post)

/-- The sites as they were visited, and what came of it. -/
abbrev Calls := List (Site × Option (Except Exn Meeting))

inductive Visits (A : Home → Env host) (O : Obstacles) (G : DataRoot → DataRoot → Prop) :
    List Home → DataRoot → Calls → DataRoot → Prop where
  | done (d : DataRoot) : Visits A O G [] d [] d
  | meanwhile {hs : List Home} {d d₁ d' : DataRoot} {os : Calls} (hg : G d d₁) (h : Visits A O G hs d₁ os d') :
      Visits A O G hs d os d'
  | unlisted {hs : List Home} {d d' : DataRoot} {os : Calls} {s : Site} (hm : s ∈ d) (hn : ¬ s.live ∨ O.unlisted s.home)
      (h : Visits A O G hs d os d') : Visits A O G (s.home :: hs) d os d'
  | busy {hs : List Home} {d d' : DataRoot} {os : Calls} {s : Site} (hm : s ∈ d) (hb : s.config.prog ≠ none)
      (h : Visits A O G hs d os d') : Visits A O G (s.home :: hs) d ((s, none) :: os) d'
  | visited {hs : List Home} {d' : DataRoot} {os : Calls} (pre post : DataRoot) (s s' : Site)
      (o : Option (Except Exn Meeting)) (hu : s.Visited A o s') (h : Visits A O G hs (pre ++ s' :: post) os d') :
      Visits A O G (s.home :: hs) (pre ++ s :: post) ((s, o) :: os) d'

/-- Every site that is there has its turn. -/
def Lists (hs : List Home) (d : DataRoot) : Prop := ∀ s ∈ d, s.home ∈ hs

/-- A tick with or without a coordinator: `A` is what may happen to the sweep of a meeting, `B` to the visit. -/
inductive Ticks (A B : Home → Env host) (O : Obstacles) (G : DataRoot → DataRoot → Prop) (coordinator : Bool) :
    DataRoot → Except Exn Calls → DataRoot → Prop where
  | escaped {hs : List Home} {d d' : DataRoot} {e : Exn} (hl : Lists hs d) (h : Sweeps A O G hs d (some e) d') :
      Ticks A B O G coordinator d (.error e) d'
  | idle {hs : List Home} {d d' : DataRoot} (hl : Lists hs d) (h : Sweeps A O G hs d none d') (hc : coordinator = false) :
      Ticks A B O G coordinator d (.ok []) d'
  | unread {hs : List Home} {d d' : DataRoot} (hl : Lists hs d) (h : Sweeps A O G hs d none d') (hc : coordinator = true)
      (hu : O.unread) : Ticks A B O G coordinator d (.error .osError) d'
  | visited {hs hs' : List Home} {d d₁ d' : DataRoot} {os : Calls} (hl : Lists hs d) (h : Sweeps A O G hs d none d₁)
      (hc : coordinator = true) (hl' : Lists hs' d₁) (h' : Visits B O G hs' d₁ os d') :
      Ticks A B O G coordinator d (.ok os) d'

/-! ## A tick is a run of the data root -/

theorem Guests.change {d d' : DataRoot} (h : Guests d d') : Change d d' := by
  cases h with
  | step pre post s s' hh hs hc => exact .step pre post s s' hh hs
  | created d s hi hf => exact .created d s hi hf

end

section
variable [Lib] [Home] {w w' : World} {rot : Prop}

theorem discard_unit (p : Serv Unit) : discard p = p := by
  unfold discard
  induction p with
  | ret a => rfl
  | raise e => rfl
  | op o k ih => exact congrArg (Prog.op o) (funext fun a => ih a)

theorem run_use {α : Type} {A : Env host} {a : Action} {p : Serv α} {out : Except Exn α} (ha : a.valid)
    (hp : a.program = Tirke.discard p) (h : Ran A p (w.note (.started a)) out w') :
    Run rot ⟨w, none⟩ ⟨w'.note (.finished (exnOf out)), none⟩ := by
  refine .head (.start w a ha) ?_
  have hrun : Run rot ⟨w.note (.started a), some a.program⟩ ⟨w', some (.ofExcept (out.map fun _ => ()))⟩ := by
    obtain ⟨cs, -, hcs⟩ := (h.map (f := fun _ => ())).exec
    have hexec : Run rot ⟨w.note (.started a), some (discard p)⟩ _ := run_exec cs
    rw [show host.exec cs (discard p) (w.note (.started a)) = _ from hcs] at hexec
    rw [hp]
    exact hexec
  refine hrun.tail ?_
  cases out with
  | ok a => exact .returned w'
  | error e => exact .raised w' e

end

section
variable [Lib] {s s' : Site} {d d' : DataRoot} {A : Home → Env host} {G : DataRoot → DataRoot → Prop}

/-- **A use of a site is a run of it.** -/
theorem Site.Uses.run {α : Type} {A : Env host} {a : Action} {p : Home → Serv α} {out : Except Exn α}
    (h : s.Uses A a p out s') (ha : a.valid) (hp : let _ := s.home; a.program = discard (p s.home)) :
    let _ := s.home; Run False s.config s'.config := by
  let _ := s.home
  obtain ⟨w', hran, hw⟩ := h.ran
  have hrun : Run False ⟨s.config.world, none⟩ ⟨w'.note (.finished (exnOf out)), none⟩ := run_use ha hp hran
  have hs : s.config = ⟨s.config.world, none⟩ := congrArg (Config.mk s.config.world) h.idle
  have hs' : s'.config = ⟨s'.config.world, none⟩ := congrArg (Config.mk s'.config.world) h.idleAfter
  rw [hs, hs', hw]
  exact hrun

theorem Site.Swept.run {out : Except Exn Unit} (h : s.Swept A out s') :
    let _ := s.home; Run False s.config s'.config := by
  refine Site.Uses.run h trivial ?_
  let _ := s.home
  exact (discard_unit sweepEntry).symm

theorem Site.Visited.run {o : Option (Except Exn Meeting)} (h : s.Visited A o s') :
    let _ := s.home; Run False s.config s'.config := Site.Uses.run h trivial rfl

theorem changes_of_run {pre post : DataRoot} (hh : s'.home = s.home) (h : let _ := s.home; Run False s.config s'.config) :
    Changes (pre ++ s :: post) (pre ++ s' :: post) := by
  obtain ⟨home, c⟩ := s
  obtain ⟨home', c'⟩ := s'
  cases hh
  have hrun : let _ := home; Run False c c' := h
  clear h
  induction hrun with
  | refl => exact .refl
  | tail _ hstep ih => exact ih.tail (.step pre post _ _ rfl hstep)

/-- **A sweep is a run of the data root.** -/
theorem Sweeps.changes {O : Obstacles} {hs : List Home} {o : Option Exn} (hG : ∀ d d', G d d' → Guests d d')
    (h : Sweeps A O G hs d o d') : Changes d d' := by
  induction h with
  | done d => exact .refl
  | meanwhile hg _ ih => exact .head (hG _ _ hg).change ih
  | unlisted _ _ _ ih => exact ih
  | busy _ _ _ _ ih => exact ih
  | tolerated pre post s s' out hu _ _ ih => exact (changes_of_run hu.home hu.run).trans ih
  | escaped pre post s s' e hu _ => exact changes_of_run hu.home hu.run

/-- **So are the visits.** -/
theorem Visits.changes {O : Obstacles} {hs : List Home} {os : Calls} (hG : ∀ d d', G d d' → Guests d d')
    (h : Visits A O G hs d os d') : Changes d d' := by
  induction h with
  | done d => exact .refl
  | meanwhile hg _ ih => exact .head (hG _ _ hg).change ih
  | unlisted _ _ _ ih => exact ih
  | busy _ _ _ ih => exact ih
  | visited pre post s s' o hu _ ih => exact (changes_of_run hu.home hu.run).trans ih

end

/-! ## Uses that can be computed -/

/-- What a program that is over has returned. -/
def returned {α : Type} : Serv α → Option (Except Exn α)
  | .ret a => some (.ok a)
  | .raise e => some (.error e)
  | .op _ _ => none

theorem ran_play {α : Type} {A : Env host} {ψ : World → World → Bool} {f : World → Op → Choice} {p : Serv α} {w : World}
    {out : Except Exn α} (hA : ∀ w o, ψ w (w.act o (f w o)).2 = true → A w o (f w o))
    (h : host.always ψ (fun _ _ => false) f p w = true)
    (hout : returned (host.play (fun _ _ => false) f p w).1 = some out) :
    Ran A p w out (host.play (fun _ _ => false) f p w).2 := by
  induction p generalizing w with
  | ret a => cases hout; exact Ran.ret (M := host) a w
  | raise e => cases hout; exact Ran.raise (M := host) e w
  | op o k ih =>
    have h' := Bool.and_eq_true_iff.1 h
    have hran : Ran A (k (w.act o (f w o)).1) (w.act o (f w o)).2 out _ := ih _ h'.2 hout
    exact Ran.op (M := host) o k w (f w o) (hA w o h'.1) hran

/-- The site after such a use. -/
def Site.played [Lib] {α : Type} (s : Site) (a : Action) (p : Home → Serv α) (f : World → Op → Choice)
    (out : Except Exn α) : Site :=
  ⟨s.home, ⟨(host.play (fun _ _ => false) f (p s.home) (s.config.world.note (.started a))).2.note (.finished (exnOf out)),
    none⟩⟩

theorem uses_play [Lib] {α : Type} {A : Env host} {s : Site} {a : Action} {p : Home → Serv α} {ψ : World → World → Bool}
    {f : World → Op → Choice} {out : Except Exn α} (hidle : s.config.idle)
    (hA : ∀ w o, ψ w (w.act o (f w o)).2 = true → A w o (f w o))
    (h : host.always ψ (fun _ _ => false) f (p s.home) (s.config.world.note (.started a)) = true)
    (hout : returned (host.play (fun _ _ => false) f (p s.home) (s.config.world.note (.started a))).1 = some out) :
    s.Uses A a p out (s.played a p f out) := ⟨rfl, hidle, rfl, _, ran_play hA h hout, rfl⟩

end Tirke
