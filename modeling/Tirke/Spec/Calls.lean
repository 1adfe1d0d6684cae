import Tirke.Spec.View
import Tirke.Services.ArtifactStore
/-!
# System calls, one by one, and programs that only read

Each rule says which outcomes a call can have in a view and what it does to it: success (or the failure
the file system's state forces), and, where the environment may fail a call, an `OSError` that changed
nothing. `View.run` is the result of a program that only looks at files (`ReadOnly`), computed from the
view; the last section says that is all such a program can return.
-/

namespace Tirke

open CrashProg CrashDisk

namespace View

/-- The content at a path, if every directory on it is in place. -/
def look (v : View) (p : Path) : Option Doc := v.img.look p

def reach (v : View) (d : Dir) : Bool := CrashDisk.reach v.img.slot d

end View

theorem look_view (w : World) (p : Path) : w.view.look p = (w.disk.lookup p.entry).map w.disk.data := by
  unfold View.look Images.look Disk.lookup World.view Disk.images Path.entry
  dsimp only
  split <;> rfl

theorem isSome_lookup {w : World} {p : Path} : (w.disk.lookup p.entry).isSome = (w.view.look p).isSome := by
  rw [look_view, Option.isSome_map]

section
variable {A : Env host} {L : Law} {v : View}

/-- The law allows the change, if there is one. -/
def Lawful (L : Law) (v : View) (e : Option FileEffect) : Prop := ∀ x, e = some x → L v (.file x)

@[simp] theorem lawful_none : Lawful L v none := by intro x hx; cases hx

@[simp] theorem lawful_some {e : FileEffect} : Lawful L v (some e) ↔ L v (.file e) := by simp [Lawful]

theorem view_act {w : World} {o : FileCall} {c : Choice} (hf : Fit w.disk) (hd : w.disk.Disciplined o) :
    (World.act (.file o) c w).2.view = w.view.changed (w.disk.effect o c.fault) := by
  have hi := Disk.images_act hf.1 o c.fault hd
  cases he : w.disk.effect o c.fault with
  | none =>
    rw [he] at hi
    simp only [World.act, World.view, World.tick, he, View.changed_none, hi]
  | some e =>
    rw [he] at hi
    simp only [World.act, World.view, World.tick, he, View.changed_some, View.change, hi]

/-- The outcome the services see of a call. -/
def outcome {α : Type} : Except Errno α → Except Exn α
  | .ok a => .ok a
  | .error e => .error (.ofErrno e)

/-- What holds of an outcome: of the value, or of the exception. -/
abbrev Outcome {ε α : Type} (P : α → Prop) (E : ε → Prop) : Except ε α → Prop
  | .ok a => P a
  | .error e => E e

theorem sat_call {o : FileCall} {w : World} {Q : Post host Exn o.Value} :
    Sat A (Guarded L) Q (call o) w ↔ Guarded L w (.file o) ∧ ∀ c, A w (.file o) c →
      Q (outcome (w.disk.act o c.fault).1) (World.act (.file o) c w).2 := by
  unfold call
  simp only [Sat]
  refine and_congr_right fun _ => forall_congr' fun c => imp_congr_right fun _ => ?_
  have hreply : (World.act (.file o) c w).1 = (w.disk.act o c.fault).1 := rfl
  rw [hreply]
  cases (w.disk.act o c.fault).1 <;> rfl

/-- A call in general, at the level of worlds: what it does, and what it may leave when it fails. -/
theorem sat_callOf {o : FileCall} {w : World} {Q : Post host Exn o.Value} (hf : Fit w.disk)
    (hd : w.disk.Disciplined o) (hi : Disk.inPlace o = false) (hm : w.disk.Clean ∨ marks o = false)
    (law : Lawful L w.view (w.disk.stepEffect o)) (lawFault : ∀ f, Lawful L w.view (w.disk.failEffect f o))
    (step : ∀ w' : World, w'.disk = (w.disk.step o).2 → w'.view = w.view.changed (w.disk.stepEffect o) →
      Fit w'.disk → Q (outcome (w.disk.step o).1) w')
    (fault : ∀ (w' : World) f, MayFailAt A o → w'.disk = w.disk.fail f o →
      w'.view = w.view.changed (w.disk.failEffect f o) → Fit w'.disk → Q (.error .osError) w') :
    Sat A (Guarded L) Q (call o) w := by
  have hfit : ∀ f, Fit (w.disk.act o f).2 := fun f => fit_act hf o f hd hi hm
  refine sat_call.2 ⟨⟨hd, hfit, fun f e he => ?_⟩, fun c hc => ?_⟩
  · cases f with
    | none => exact law e he
    | some f => exact lawFault f e he
  · have hview := view_act (c := c) hf hd
    have hdisk : (World.act (.file o) c w).2.disk = (w.disk.act o c.fault).2 := rfl
    have hfit' := hfit c.fault
    generalize (World.act (.file o) c w).2 = w' at hview hdisk ⊢
    rw [← hdisk] at hfit'
    cases hcf : c.fault with
    | none => rw [hcf] at hview hdisk; exact step w' hdisk hview hfit'
    | some f => rw [hcf] at hview hdisk; exact fault w' f (mayFailAt_of hc hcf) hdisk hview hfit'

/-- A call on a disk without pending content leaves none, unless it writes in place. -/
theorem sat_callClean {o : FileCall} {w : World} {Q : Post host Exn o.Value} (hf : Fit w.disk) (hc : w.disk.Clean)
    (hd : w.disk.Disciplined o) (hi : Disk.inPlace o = false)
    (law : Lawful L w.view (w.disk.stepEffect o)) (lawFault : ∀ f, Lawful L w.view (w.disk.failEffect f o))
    (step : ∀ w' : World, w'.disk = (w.disk.step o).2 → w'.view = w.view.changed (w.disk.stepEffect o) →
      Fit w'.disk → w'.disk.Clean → Q (outcome (w.disk.step o).1) w')
    (fault : ∀ (w' : World) f, MayFail A → w'.disk = w.disk.fail f o →
      w'.view = w.view.changed (w.disk.failEffect f o) → Fit w'.disk → w'.disk.Clean → Q (.error .osError) w') :
    Sat A (Guarded L) Q (call o) w :=
  sat_callOf hf hd hi (.inl hc) law lawFault
    (fun w' h hv hf' => step w' h hv hf' (h ▸ Disk.clean_act hf.1 hc o none hd hi))
    fun w' f hm h hv hf' => fault w' f hm.mayFail h hv hf' (h ▸ Disk.clean_act hf.1 hc o (some f) hd hi)

theorem does_call {o : FileCall} {Q : Except Exn o.Value → View → Prop} (hi : Disk.inPlace o = false)
    (hm : ¬ v.Void ∨ marks o = false)
    (hd : ∀ w : World, w.view = v → Fit w.disk → w.disk.Disciplined o)
    (step : ∀ w : World, w.view = v → Fit w.disk → Lawful L v (w.disk.stepEffect o) ∧
      Q (outcome (w.disk.step o).1) (v.changed (w.disk.stepEffect o)))
    (fault : ∀ (w : World) f, w.view = v → Lawful L v (w.disk.failEffect f o) ∧
      (MayFailAt A o → Q (.error .osError) (v.changed (w.disk.failEffect f o)))) :
    Does A L (call o) v Q := by
  intro w hw hf
  have hm' : w.disk.Clean ∨ marks o = false := hm.imp_left fun hm => hf.clean (hw ▸ hm)
  refine sat_callOf hf (hd w hw hf) hi hm' (hw ▸ (step w hw hf).1) (fun f => hw ▸ (fault w f hw).1)
    (fun w' _ hv' hf' => ⟨hf', ?_⟩) fun w' f hmf _ hv' hf' => ⟨hf', ?_⟩
  · rw [hv', hw]; exact (step w hw hf).2
  · rw [hv', hw]; exact (fault w f hw).2 hmf

/-- A call that changes nothing when it fails. -/
theorem does_call' {o : FileCall} {Q : Except Exn o.Value → View → Prop} (hi : Disk.inPlace o = false)
    (hm : ¬ v.Void ∨ marks o = false)
    (hd : ∀ w : World, w.view = v → Fit w.disk → w.disk.Disciplined o)
    (hn : ∀ (s : Files) f, s.failEffect f o = none)
    (step : ∀ w : World, w.view = v → Fit w.disk → Lawful L v (w.disk.stepEffect o) ∧
      Q (outcome (w.disk.step o).1) (v.changed (w.disk.stepEffect o)))
    (fault : MayFailAt A o → Q (.error .osError) v) :
    Does A L (call o) v Q :=
  does_call hi hm hd step fun w f _ => by rw [hn]; exact ⟨lawful_none, fault⟩

theorem reach_view {w : World} {d : Dir} : reach w.disk.slot d = w.view.reach d := rfl

/-! ## Calls -/

variable {Q : Except Exn Unit → View → Prop}

theorem Does.exists {p : Path} {Q : Except Exn Bool → View → Prop} (ok : Q (.ok (v.look p).isSome) v)
    (fault : MayFail A → Q (.error .osError) v) : Does A L (exists? p) v Q := by
  refine does_call' rfl (.inr rfl) (fun _ _ _ => trivial) (fun _ _ => rfl) (fun w hw _ => ⟨lawful_none, ?_⟩) fun hf => fault hf.mayFail
  rw [← hw, ← isSome_lookup] at ok
  rw [← hw]
  exact ok

theorem Does.read {p : Path} {Q : Except Exn Doc → View → Prop}
    (ok : Q (match v.look p with | some x => .ok x | none => .error .fileNotFound) v)
    (fault : MayFailAt A (.read p.entry) → Q (.error .osError) v) : Does A L (read p) v Q := by
  refine does_call' rfl (.inr rfl) (fun _ _ _ => trivial) (fun _ _ => rfl) (fun w hw _ => ⟨lawful_none, ?_⟩) fault
  rw [← hw, look_view] at ok
  rw [← hw]
  simp only [Disk.step]
  cases hl : w.disk.lookup p.entry with
  | none => rw [hl] at ok; exact ok
  | some i => rw [hl] at ok; exact ok

theorem Does.probe {d : Dir} {Q : Except Exn (Slot UUID) → View → Prop} (ok : Q (.ok (v.img.slot d)) v)
    (fault : MayFail A → Q (.error .osError) v) : Does A L (call (.probe d)) v Q := by
  refine does_call' rfl (.inr rfl) (fun _ _ _ => trivial) (fun _ _ => rfl) (fun w hw _ => ⟨lawful_none, ?_⟩) fun hf => fault hf.mayFail
  rw [← hw] at ok ⊢
  exact ok

/-- The directory's names show content that is already durable. -/
def Settled (v : View) (d : Dir) : Prop := ¬ v.Void ∨ ∀ n, v.img.vol (d, n) = none

theorem Settled.disciplined {w : World} {d : Dir} (h : Settled w.view d) (hf : Fit w.disk) :
    w.disk.Disciplined (.syncDir d) := by
  intro n i hi
  rcases h with h | h
  · exact hf.clean h _ _ _ hi
  · have := h n
    simp [World.view, Disk.images, hi] at this

theorem Does.syncDirectory {d : Dir} (hs : Settled v d) (law : v.reach d = true → L v (.file (.synced d)))
    (ok : v.reach d = true → Q (.ok ()) (v.change (.synced d)))
    (unreachable : v.reach d = false → Q (.error .fileNotFound) v)
    (fault : MayFailAt A (.syncDir d) → Q (.error .osError) v) : Does A L (syncDirectory d) v Q := by
  refine does_call' rfl (.inr rfl) (fun w hw hf => (hw ▸ hs).disciplined hf) (fun _ _ => rfl) (fun w hw _ => ?_) fault
  simp only [Disk.step, Disk.stepEffect, reach_view, hw]
  cases hr : v.reach d with
  | true => exact ⟨lawful_some.2 (law hr), ok hr⟩
  | false => exact ⟨lawful_none, unreachable hr⟩

theorem Does.syncFile {p : Path} (hv : ¬ v.Void)
    (ok : Q (match v.look p with | some _ => .ok () | none => .error .fileNotFound) v)
    (fault : MayFail A → Q (.error .osError) v) : Does A L (syncFile p) v Q := by
  refine does_call' rfl (.inr rfl) (fun w hw hf i hi => .inl ?_) (fun _ _ => rfl)
    (fun w hw _ => ⟨lawful_none, ?_⟩) fun hf => fault hf.mayFail
  · exact hf.clean (hw ▸ hv) _ _ _ hi
  · rw [← hw, look_view] at ok
    rw [← hw]
    simp only [Disk.step]
    cases hl : w.disk.lookup p.entry with
    | none => rw [hl] at ok; exact ok
    | some i => rw [hl] at ok; exact ok

theorem stepEffect_unlink {w : World} {p : Path} {m : Bool} :
    w.disk.stepEffect (.unlink p.entry m) = if (w.view.look p).isSome then some (.removed p) else none := by
  obtain ⟨d, n⟩ := p
  rw [← isSome_lookup]
  have key : ∀ l : Option Nat, l.map (fun _ => (Effect.removed (d, n) : FileEffect)) =
      if l.isSome then some (.removed (d, n)) else none := fun l => by cases l <;> rfl
  exact key _

theorem Does.unlink {p : Path} {m : Bool} (law : (v.look p).isSome → L v (.file (.removed p)))
    (ok : (v.look p).isSome → Q (.ok ()) (v.change (.removed p)))
    (missing : v.look p = none → Q (if m then .ok () else .error .fileNotFound) v)
    (fault : MayFailAt A (.unlink p.entry m) → Q (.error .osError) v) : Does A L (call (.unlink p.entry m)) v Q := by
  refine does_call' rfl (.inr rfl) (fun _ _ _ => trivial) (fun _ _ => rfl) (fun w hw _ => ?_) fault
  rw [stepEffect_unlink, hw]
  have hl : (w.disk.lookup p.entry).isSome = (v.look p).isSome := by rw [isSome_lookup, hw]
  cases hp : v.look p with
  | some x =>
    rw [hp] at hl law ok
    obtain ⟨i, hi⟩ := Option.isSome_iff_exists.1 hl
    simp only [Disk.step, hi]
    exact ⟨lawful_some.2 (law rfl), ok rfl⟩
  | none =>
    rw [hp] at hl
    have hi : w.disk.lookup p.entry = none := by simpa using hl
    simp only [Disk.step, hi]
    refine ⟨lawful_none, ?_⟩
    have := missing hp
    cases m <;> exact this

theorem Does.mkdir {d : Dir}
    (law : (d.chain.tail.all fun c => v.img.slot c = .live) = true → v.img.slot d = .absent → L v (.file (.made d)))
    (made : (d.chain.tail.all fun c => v.img.slot c = .live) = true → v.img.slot d = .absent →
      Q (.ok ()) (v.change (.made d)))
    (there : (d.chain.tail.all fun c => v.img.slot c = .live) = true → v.img.slot d ≠ .absent → Q (.ok ()) v)
    (missing : (d.chain.tail.all fun c => v.img.slot c = .live) = false → Q (.error .fileNotFound) v)
    (fault : MayFail A → Q (.error .osError) v) : Does A L (call (.mkdir d)) v Q := by
  refine does_call' rfl (.inr rfl) (fun _ _ _ => trivial) (fun _ _ => rfl) (fun w hw _ => ?_) fun hf => fault hf.mayFail
  have hsl : ∀ c, w.disk.slot c = v.img.slot c := fun c => by rw [← hw]; rfl
  simp only [Disk.step, Disk.stepEffect, hsl, DirTree.chain] at *
  cases hc : d.chain.tail.all fun c => decide (v.img.slot c = .live) with
  | true =>
    by_cases ha : v.img.slot d = .absent
    · simp only [ha, if_true, decide_true, Bool.and_self]
      exact ⟨lawful_some.2 (law hc ha), made hc ha⟩
    · simp only [ha, if_true, decide_false, Bool.and_false, Bool.false_eq_true, if_false]
      exact ⟨lawful_none, there hc ha⟩
  | false => exact ⟨lawful_none, missing hc⟩

theorem Does.openLock {d : Dir} (ok : v.reach d = true → Q (.ok ()) v)
    (unreachable : v.reach d = false → Q (.error .fileNotFound) v)
    (fault : MayFail A → Q (.error .osError) v) : Does A L (call (.openLock d)) v Q := by
  refine does_call' rfl (.inr rfl) (fun _ _ _ => trivial) (fun _ _ => rfl) (fun w hw _ => ⟨lawful_none, ?_⟩) fun hf => fault hf.mayFail
  simp only [Disk.step, reach_view, hw]
  cases hr : v.reach d with
  | true => exact ok hr
  | false => exact unreachable hr

theorem Does.rename {d : Dir} {t : UUID} (law : v.reach d = true → L v (.file (.renamed d t)))
    (ok : v.reach d = true → Q (.ok ()) (v.change (.renamed d t)))
    (unreachable : v.reach d = false → Q (.error .fileNotFound) v)
    (fault : MayFail A → Q (.error .osError) v) : Does A L (call (.rename d t)) v Q := by
  refine does_call' rfl (.inr rfl) (fun _ _ _ => trivial) (fun _ _ => rfl) (fun w hw _ => ?_) fun hf => fault hf.mayFail
  simp only [Disk.step, Disk.stepEffect, reach_view, hw]
  cases hr : v.reach d with
  | true => exact ⟨lawful_some.2 (law hr), ok hr⟩
  | false => exact ⟨lawful_none, unreachable hr⟩

theorem Does.restore {d : Dir} (law : L v (.file (.restored d))) (ok : Q (.ok ()) (v.change (.restored d)))
    (fault : MayFail A → Q (.error .osError) v) : Does A L (call (.restore d)) v Q :=
  does_call' rfl (.inr rfl) (fun _ _ _ => trivial) (fun _ _ => rfl)
    (fun _ _ _ => ⟨lawful_some.2 law, ok⟩) fun hf => fault hf.mayFail

theorem Does.rmtree {d : Dir} (law : ∀ left, L v (.file (.wiped d left)))
    (ok : Q (.ok ()) (v.change (.wiped d none)))
    (fault : MayFail A → ∀ left, Q (.error .osError) (v.change (.wiped d (some left)))) :
    Does A L (call (.rmtree d)) v Q :=
  does_call rfl (.inr rfl) (fun _ _ _ => trivial) (fun _ _ _ => ⟨lawful_some.2 (law _), ok⟩)
    fun _ f _ => ⟨lawful_some.2 (law _), fun hf => fault hf.mayFail f.left⟩

theorem Does.now {Q : Except Exn Time → View → Prop} (ok : ∀ t, MayShow A t → Q (.ok t) v) :
    Does A L now v Q := fun w hw hf => ⟨trivial, fun c hc => ⟨hf, hw ▸ ok _ ⟨w, c, hc, rfl⟩⟩⟩

theorem Does.ask {q : Request} {Q : Except Exn Response → View → Prop} (law : ∀ a, L v (.asked q a))
    (ok : ∀ a, MayAnswer A q a → Q (.ok a) (v.note (.asked q a))) : Does A L (ask q) v Q :=
  fun w hw hf => ⟨fun a => hw ▸ law a, fun c hc => ⟨hf, by
    have := ok c.answer ⟨w, c, hc, rfl⟩
    rw [← hw] at this
    exact this⟩⟩

theorem Does.flock {blocking : Bool} {Q : Except Exn Bool → View → Prop} (ok : Q (.ok true) v)
    (busy : blocking = false → MayBlock A → Q (.ok false) v) : Does A L (flock blocking) v Q := by
  refine fun w hw hf => ⟨trivial, fun c hc => ⟨hf, ?_⟩⟩
  show Q (.ok (blocking || !w.busy)) w.view
  rw [hw]
  cases blocking with
  | true => exact ok
  | false =>
    cases hb : w.busy with
    | false => exact ok
    | true => exact busy rfl ⟨w, c, hc, hb⟩

theorem Does.staleTree {Q : Except Exn Bool → View → Prop} (ok : ∀ b, Q (.ok b) v) : Does A L staleTree v Q :=
  fun _ hw hf => ⟨trivial, fun c _ => ⟨hf, hw ▸ ok c.stale⟩⟩

theorem Does.respond {pdf : Bytes} (law : L v (.responded pdf)) (ok : Q (.ok ()) (v.note (.responded pdf))) :
    Does A L (respond pdf) v Q :=
  fun w hw hf => ⟨(hw ▸ law : L w.view _), fun c _ => ⟨hf, by rw [← hw] at ok; exact ok⟩⟩

theorem Does.demand {b : Bool} {e : Exn} (ok : b = true → Q (.ok ()) v) (error : b = false → Q (.error e) v) :
    Does A L (demand b e) v Q := by
  unfold Tirke.demand
  split
  · next h => exact .ret (ok h)
  · next h => exact .raise (error (by simpa using h))

theorem does_demand {b : Bool} {e : Exn} : Does A L (demand b e) v fun out v' => v' = v ∧ match out with
    | .ok () => b = true
    | .error x => x = e ∧ b = false :=
  Does.demand (fun h => ⟨rfl, h⟩) fun h => ⟨rfl, rfl, h⟩

end

end Tirke
