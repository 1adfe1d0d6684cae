import Tirke.Machine
/-!
# What a service sees and does to its folder

A `View` is a world without inodes, clock and lock: the images of the folder and the log. `Does A L p v Q`
says of a program `p` started in a world with view `v`: every change it makes is one the law `L` allows,
every operation is used with the discipline under which the images tell the whole story, and it ends as
`Q` says. The rules below are those of `Sat`, one level up; what a single system call does to a view is
`Spec/Calls.lean`.

`Fit` is what every run keeps of the inode level: as long as there is a marker, every name shows content
that is already durable.
-/

namespace Tirke

open CrashProg CrashDisk

structure View where
  img : FileImages
  log : List Event

namespace View

def note (v : View) (e : Event) : View := { v with log := e :: v.log }

def change (v : View) (e : FileEffect) : View := ⟨v.img.apply e, .file e :: v.log⟩

def changed (v : View) : Option FileEffect → View
  | some e => v.change e
  | none => v

@[simp] theorem changed_none (v : View) : v.changed none = v := rfl
@[simp] theorem changed_some (v : View) (e : FileEffect) : v.changed (some e) = v.change e := rfl
@[simp] theorem note_img (v : View) (e : Event) : (v.note e).img = v.img := rfl
@[simp] theorem note_log (v : View) (e : Event) : (v.note e).log = e :: v.log := rfl
@[simp] theorem change_img (v : View) (e : FileEffect) : (v.change e).img = v.img.apply e := rfl
@[simp] theorem change_log (v : View) (e : FileEffect) : (v.change e).log = .file e :: v.log := rfl

/-- No creation has been committed: there is no marker, not even on disk. -/
def Void (v : View) : Prop :=
  v.img.vol (.folder, .meeting) = none ∧ v.img.dur (.folder, .meeting) = none

end View

def World.view (w : World) : View := ⟨w.disk.images, w.log⟩

/-- What changes a program may make, and what it may send. -/
abbrev Law := View → Event → Prop

/-! ## Fitness -/

def voidDisk (s : Files) : Prop :=
  s.ent (.folder, .named .meeting) = none ∧ s.entDur (.folder, .named .meeting) = none

def Fit (s : Files) : Prop := s.Allocated ∧ (s.Clean ∨ voidDisk s)

theorem voidDisk_iff {s : Files} : voidDisk s ↔ s.images.vol (.folder, .meeting) = none ∧
    s.images.dur (.folder, .meeting) = none := by
  simp [voidDisk, Disk.images]

theorem Fit.clean {w : World} (h : Fit w.disk) (hv : ¬ w.view.Void) : w.disk.Clean := by
  rcases h.2 with hc | hc
  · exact hc
  · exact absurd (voidDisk_iff.1 hc) hv

theorem Fit.tidy {w : World} (h : Fit w.disk) (hv : ¬ w.view.Void) : w.disk.Tidy := ⟨h.1, h.clean hv⟩

theorem Disk.Tidy.fit {s : Files} (h : s.Tidy) : Fit s := ⟨h.allocated, .inl h.clean⟩

/-- The operation gives the marker a new content. -/
def marks : FileCall → Bool
  | .create p => p = (.folder, .named .meeting)
  | .link _ dst => dst = (.folder, .named .meeting)
  | .replace _ dst => dst = (.folder, .named .meeting)
  | _ => false

theorem update_none_of_ne {p q : Dir × Entry Name} {f : Dir × Entry Name → Option Nat} {v : Option Nat}
    (hf : f p = none) (h : q ≠ p) : Function.update f q v p = none := by
  rw [Function.update_of_ne h.symm]; exact hf

theorem voidDisk_newFile {s : Files} (h : voidDisk s) {q : Dir × Entry Name}
    (hq : q ≠ (.folder, .named .meeting)) : voidDisk (s.newFile q) :=
  ⟨update_none_of_ne h.1 hq, h.2⟩

theorem voidDisk_act {s : Files} (h : voidDisk s) (o : FileCall) (f : Option Bytes.Fault)
    (hm : marks o = false) : voidDisk (s.act o f).2 := by
  have hnew := fun q => voidDisk_newFile h (q := q)
  cases f with
  | some f =>
    cases o with
    | write p x => simp only [Disk.act, Disk.fail]; split <;> exact h
    | rmtree d =>
      refine ⟨?_, h.2⟩
      simp only [Disk.act, Disk.fail, Disk.wipe]
      split
      · split <;> first | exact h.1 | rfl
      · exact h.1
    | _ => exact h
  | none =>
    cases o with
    | mkstemp d => simp only [Disk.act, Disk.step]; split; exacts [hnew _ (by simp), h]
    | create p =>
      have hp : p ≠ (.folder, .named .meeting) := by simpa [marks] using hm
      simp only [Disk.act, Disk.step]
      split
      · split; exacts [h, hnew _ hp]
      · exact h
    | openLock d =>
      simp only [Disk.act, Disk.step]
      split
      · split; exacts [h, hnew _ (by simp)]
      · exact h
    | link src dst =>
      have hp : dst ≠ (.folder, .named .meeting) := by simpa [marks] using hm
      simp only [Disk.act, Disk.step]
      split
      · split
        · exact h
        · exact ⟨update_none_of_ne h.1 hp, h.2⟩
      · exact h
    | replace src dst =>
      have hp : dst ≠ (.folder, .named .meeting) := by simpa [marks] using hm
      simp only [Disk.act, Disk.step]
      split
      · refine ⟨?_, h.2⟩
        by_cases hs : src = (.folder, .named .meeting)
        · simp [hs]
        · exact update_none_of_ne (update_none_of_ne h.1 hp) hs
      · exact h
    | unlink p m =>
      simp only [Disk.act, Disk.step]
      split
      · refine ⟨?_, h.2⟩
        by_cases hs : p = (.folder, .named .meeting)
        · simp [hs]
        · exact update_none_of_ne h.1 hs
      · exact h
    | mkdir d => simp only [Disk.act, Disk.step]; split; exacts [by split <;> exact h, h]
    | syncDir d =>
      simp only [Disk.act, Disk.step]
      split
      · refine ⟨h.1, ?_⟩
        simp only [Disk.syncDir]
        split; exacts [h.1, h.2]
      · exact h
    | rmtree d =>
      refine ⟨?_, h.2⟩
      simp only [Disk.act, Disk.step, Disk.wipe]
      split
      · rfl
      · exact h.1
    | rename d t => simp only [Disk.act, Disk.step]; split <;> exact h
    | read p | fsync p | write p x => simp only [Disk.act, Disk.step]; split <;> exact h
    | test p | probe d | restore d => exact h

/-- **Fitness** is kept by every disciplined operation; a new marker needs a clean disk. -/
theorem fit_act {s : Files} (h : Fit s) (o : FileCall) (f : Option Bytes.Fault) (hd : s.Disciplined o)
    (hi : Disk.inPlace o = false) (hm : s.Clean ∨ marks o = false) : Fit (s.act o f).2 := by
  have ha := Disk.allocated_act h.1 o f
  rcases h.2 with hc | hv
  · exact ⟨ha, .inl (Disk.clean_act h.1 hc o f hd hi)⟩
  · rcases hm with hc | hm
    · exact ⟨ha, .inl (Disk.clean_act h.1 hc o f hd hi)⟩
    · exact ⟨ha, .inr (voidDisk_act hv o f hm)⟩

/-! ## The guard and the triple -/

/-- An operation may be performed: it is disciplined, and every change it can make is lawful. -/
def Guarded (L : Law) : Guard host := fun w o =>
  match o with
  | .file o => w.disk.Disciplined o ∧ (∀ f, Fit (w.disk.act o f).2) ∧
      ∀ f e, w.disk.effect o f = some e → L w.view (.file e)
  | .ask q => ∀ a, L w.view (.asked q a)
  | .respond pdf => L w.view (.responded pdf)
  | _ => True

section
variable {A : Env host} {L : Law} {ε ε' α β : Type} {v : View}

/-- The environment may let a system call fail. -/
def MayFail (A : Env host) : Prop := ∃ w o c, A w o c ∧ c.fault.isSome

/-- The environment may let this one fail. -/
def MayFailAt (A : Env host) (o : FileCall) : Prop := ∃ w c, A w (.file o) c ∧ c.fault.isSome

theorem MayFailAt.mayFail {o : FileCall} (h : MayFailAt A o) : MayFail A := by
  obtain ⟨w, c, hc, hf⟩ := h
  exact ⟨w, _, c, hc, hf⟩

/-- The environment may answer `q` with `a`. -/
def MayAnswer (A : Env host) (q : Request) (a : Response) : Prop := ∃ w c, A w (.ask q) c ∧ c.answer = a

/-- The environment may show the time `t`. -/
def MayShow (A : Env host) (t : Time) : Prop := ∃ w c, A w .now c ∧ w.clock + c.elapsed = t

/-- The environment may keep the lifecycle lock from a caller that does not wait. -/
def MayBlock (A : Env host) : Prop := ∃ w c, A w (.flock false) c ∧ w.busy = true

theorem mayFailAt_of {w : World} {o : FileCall} {c : Choice} {f : Bytes.Fault} (h : A w (.file o) c)
    (hf : c.fault = some f) : MayFailAt A o := ⟨w, c, h, by simp [hf]⟩

/-! ## The weather -/

/-- Every choice is possible. -/
def anything : Env host := fun _ _ _ => True

/-- What the machine may do to the uses that are considered; where nothing is said, anything. -/
class Weather where
  admits : Env host

instance (priority := low) Weather.any : Weather := ⟨anything⟩

namespace Weather

/-- The clock may show `t`. -/
def shows [Weather] (t : Time) : Prop := MayShow admits t

/-- This call may fail. -/
def fails [Weather] (o : FileCall) : Prop := MayFailAt admits o

end Weather

/-- The environment is no worse than the weather. -/
class Forecast [Weather] (A : Env host) : Prop where
  admits : ∀ w o c, A w o c → Weather.admits w o c

instance {A : Env host} : @Forecast Weather.any A := @Forecast.mk Weather.any A fun _ _ _ _ => trivial

instance [Weather] : Forecast Weather.admits := ⟨fun _ _ _ h => h⟩

section
variable [Weather] [Forecast A]

theorem MayShow.shows {t : Time} (h : MayShow A t) : Weather.shows t := by
  obtain ⟨w, c, hc, ht⟩ := h
  exact ⟨w, c, Forecast.admits w _ c hc, ht⟩

theorem MayFailAt.fails {o : FileCall} (h : MayFailAt A o) : Weather.fails o := by
  obtain ⟨w, c, hc, hf⟩ := h
  exact ⟨w, c, Forecast.admits w _ c hc, hf⟩

end

def Does (A : Env host) (L : Law) (p : Prog Ops ε α) (v : View) (Q : Except ε α → View → Prop) : Prop :=
  ∀ w : World, w.view = v → Fit w.disk →
    Sat A (Guarded L) (fun out (w' : World) => Fit w'.disk ∧ Q out w'.view) p w

namespace Does
variable {Q : Except ε α → View → Prop}

theorem ret {a : α} (h : Q (.ok a) v) : Does A L (.ret a) v Q := fun _ hw hf => ⟨hf, hw ▸ h⟩

theorem raise {e : ε} (h : Q (.error e) v) : Does A L (.raise e) v Q := fun _ hw hf => ⟨hf, hw ▸ h⟩

theorem ofExcept {out : Except ε α} (h : Q out v) : Does A L (.ofExcept out) v Q := by
  cases out with
  | ok a => exact ret h
  | error e => exact raise h

theorem mono {p : Prog Ops ε α} {Q' : Except ε α → View → Prop} (h : Does A L p v Q)
    (hq : ∀ out v', Q out v' → Q' out v') : Does A L p v Q' := fun w hw hf =>
  (h w hw hf).mono fun _ _ ⟨hf', hq'⟩ => ⟨hf', hq _ _ hq'⟩

/-- A law that allows more. -/
theorem lawful {L' : Law} {p : Prog Ops ε α} (h : Does A L p v Q) (hl : ∀ v e, L v e → L' v e) : Does A L' p v Q := by
  intro w hw hf
  refine (h w hw hf).weaken (fun _ _ _ hc => hc) ?_
  intro w o hg
  cases o with
  | file o => exact ⟨hg.1, hg.2.1, fun f e he => hl _ _ (hg.2.2 f e he)⟩
  | ask q => exact fun a => hl _ _ (hg a)
  | respond pdf => exact hl _ _ hg
  | now | flock _ | stale => trivial

/-- **Sequencing.** -/
theorem bind {R : Except ε α → View → Prop} {Q : Except ε β → View → Prop} {p : Prog Ops ε α}
    {f : α → Prog Ops ε β} (h : Does A L p v R) (ok : ∀ a v', R (.ok a) v' → Does A L (f a) v' Q)
    (error : ∀ e v', R (.error e) v' → Q (.error e) v') : Does A L (p.bind f) v Q := by
  intro w hw hf
  refine (h w hw hf).bind ?_
  rintro (e | a) w' ⟨hf', hr⟩
  · exact ⟨hf', error e _ hr⟩
  · exact ok a _ hr w' rfl hf'

/-- **`except`.** -/
theorem handle {R : Except ε α → View → Prop} {Q : Except ε' α → View → Prop} {p : Prog Ops ε α}
    {f : ε → Prog Ops ε' α} (h : Does A L p v R) (ok : ∀ a v', R (.ok a) v' → Q (.ok a) v')
    (error : ∀ e v', R (.error e) v' → Does A L (f e) v' Q) : Does A L (p.handle f) v Q := by
  intro w hw hf
  refine (h w hw hf).handle ?_
  rintro (e | a) w' ⟨hf', hr⟩
  · exact error e _ hr w' rfl hf'
  · exact ⟨hf', ok a _ hr⟩

/-- **`finally`.** -/
theorem ensuring {R : Except ε α → View → Prop} {Q : Except ε α → View → Prop} {p : Prog Ops ε α}
    {fin : Prog Ops ε Unit} (h : Does A L p v R)
    (hr : ∀ out v', R out v' → Does A L fin v' fun o v'' => match o with
      | .ok () => Q out v''
      | .error e => Q (.error e) v'') : Does A L (p.ensuring fin) v Q := by
  intro w hw hf
  refine (h w hw hf).ensuring fun out w' ⟨hf', hr'⟩ => (hr out _ hr' w' rfl hf').mono ?_
  rintro (e | ⟨⟩) w'' ⟨hf'', hq⟩ <;> exact ⟨hf'', hq⟩

/-- The outcome as a value. -/
theorem attempt {p : Prog Ops ε α} {Q : Except ε' (Except ε α) → View → Prop}
    (h : Does A L p v fun out v' => Q (.ok out) v') : Does A L p.attempt v Q :=
  fun w hw hf => sat_attempt.2 (h w hw hf)

/-- Two promises about one program hold together. -/
theorem and {p : Prog Ops ε α} {R : Except ε α → View → Prop} (h : Does A L p v Q) (h' : Does A L p v R) :
    Does A L p v fun out v' => Q out v' ∧ R out v' := fun w hw hf =>
  ((h w hw hf).and (h' w hw hf)).mono fun _ _ ⟨⟨hf', hq⟩, _, hr⟩ => ⟨hf', hq, hr⟩

theorem ran {p : Prog Ops ε α} {w w' : World} {out : Except ε α} (h : Does A L p w.view Q) (hf : Fit w.disk)
    (hr : Ran A p w out w') : Fit w'.disk ∧ Q out w'.view := hr.ends (h w rfl hf)

end Does

end

end Tirke
