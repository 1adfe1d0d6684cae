import Tirke.Spec.Calls
/-!
# Programs that only read

`ReadOnly S p`: `p` only looks at files in `S`, and an `OSError` of a look passes through it. Such a
program changes nothing and, unless a look fails, returns `v.run p` (`Does.reads`); what it returns
depends on the files of `S` alone (`run_congr`). The durable image is read by `v.power.run p`.
-/

namespace Tirke

open CrashProg CrashDisk

variable {α β : Type} {S : Path → Prop}

def ReadOnly (S : Path → Prop) : Serv α → Prop
  | .ret _ => True
  | .raise _ => True
  | .op (.file o) k => (∃ p, S p ∧ (o = .read p.entry ∨ o = .test p.entry)) ∧
      k (.error .io) = .raise .osError ∧ ∀ r, ReadOnly S (k r)
  | .op _ _ => False

/-- What a reader that meets no fault gets to see. -/
def View.run (v : View) : Serv α → Except Exn α
  | .ret a => .ok a
  | .raise e => .error e
  | .op (.file (.read (d, .named n))) k =>
    v.run (k (match v.look (d, n) with | some x => .ok x | none => .error .notFound))
  | .op (.file (.test (d, .named n))) k => v.run (k (.ok (v.look (d, n)).isSome))
  | .op _ _ => .error .runtimeError

/-- What a reader sees after a power failure. -/
def View.afterPower (v : View) : View := ⟨v.img.power, v.log⟩

variable {v v' : View}

@[simp] theorem ok_bind {ε : Type} (a : α) (f : α → Except ε β) : (Except.ok a).bind f = f a := rfl
@[simp] theorem error_bind {ε : Type} (e : ε) (f : α → Except ε β) : (Except.error e).bind f = .error e := rfl

theorem bind_eq_ok {ε : Type} {x : Except ε α} {f : α → Except ε β} {b : β} :
    x.bind f = .ok b ↔ ∃ a, x = .ok a ∧ f a = .ok b := by
  cases x with
  | ok a => simp
  | error e => simp

theorem bind_eq_error {ε : Type} {x : Except ε α} {f : α → Except ε β} {e : ε} :
    x.bind f = .error e ↔ x = .error e ∨ ∃ a, x = .ok a ∧ f a = .error e := by
  cases x with
  | ok a => simp
  | error e' => simp

@[simp] theorem demand_bind {ε : Type} {c : Prop} [Decidable c] (e : ε) (f : Unit → Except ε β) :
    (if c then Except.ok () else .error e).bind f = if c then f () else .error e := by
  split <;> rfl

@[simp] theorem run_ret (a : α) : v.run (.ret a) = .ok a := rfl
@[simp] theorem run_raise (e : Exn) : v.run (.raise e : Serv α) = .error e := rfl

@[simp] theorem run_read (p : Path) :
    v.run (read p) = match v.look p with | some x => .ok x | none => .error .fileNotFound := by
  obtain ⟨d, n⟩ := p
  simp only [read, call, Path.entry, View.run]
  cases v.look (d, n) <;> rfl

@[simp] theorem run_exists (p : Path) : v.run (exists? p) = .ok (v.look p).isSome := rfl

@[simp] theorem run_demand (b : Bool) (e : Exn) : v.run (demand b e) = if b then .ok () else .error e := by
  unfold demand; split <;> rfl

@[simp] theorem run_parse (as : Doc → Option α) (d : Doc) (e : Exn) :
    v.run (parse as d e) = match as d with | some a => .ok a | none => .error e := by
  unfold parse; cases as d <;> rfl

theorem run_demand_ok {b : Bool} {e : Exn} {u : Unit} : v.run (demand b e) = .ok u ↔ b = true := by
  rw [run_demand]; split <;> simp_all

theorem run_parse_ok {as : Doc → Option α} {d : Doc} {e : Exn} {a : α} :
    v.run (parse as d e) = .ok a ↔ as d = some a := by
  rw [run_parse]; cases as d <;> simp

@[simp] theorem run_ofExcept (out : Except Exn α) : v.run (.ofExcept out) = out := by cases out <;> rfl

theorem run_op {o : Op} {k : o.Reply → Serv α} (h : ReadOnly S (.op o k)) :
    ∃ r, ReadOnly S (k r) ∧ ∀ (β : Type) (f : Serv α → Serv β), v.run (.op o fun x => f (k x)) = v.run (f (k r)) := by
  cases o with
  | file o =>
    obtain ⟨⟨⟨d, n⟩, -, rfl | rfl⟩, -, hk⟩ := h
    · exact ⟨_, hk _, fun _ _ => rfl⟩
    · exact ⟨_, hk _, fun _ _ => rfl⟩
  | _ => exact h.elim

theorem run_bind (p : Serv α) (f : α → Serv β) : v.run (p.bind f) = (v.run p).bind fun a => v.run (f a) := by
  induction p with
  | ret a => rfl
  | raise e => rfl
  | op o k ih =>
    show v.run (.op o fun r => (k r).bind f) = _
    cases o with
    | file o =>
      cases o with
      | read p => obtain ⟨d, n | n | n⟩ := p <;> first | exact ih _ | rfl
      | test p => obtain ⟨d, n | n | n⟩ := p <;> first | exact ih _ | rfl
      | _ => rfl
    | _ => rfl

theorem run_discard {α : Type} {p : Serv α} : v.run (discard p) = (v.run p).bind fun _ => .ok () := run_bind p _

theorem run_handle {p : Serv α} {f : Exn → Serv α} (h : ReadOnly S p) :
    v.run (p.handle f) = match v.run p with | .ok a => .ok a | .error e => v.run (f e) := by
  induction p with
  | ret a => rfl
  | raise e => rfl
  | op o k ih =>
    obtain ⟨r, hr, hrun⟩ := run_op (v := v) h
    have h1 := hrun α (fun p => p.handle f)
    have h2 := hrun α (fun p => p)
    exact h1.trans ((ih r hr).trans (by rw [← h2]))

/-! ## Which programs only read -/

theorem ReadOnly.mono {S' : Path → Prop} {p : Serv α} (h : ReadOnly S p) (hs : ∀ q, S q → S' q) :
    ReadOnly S' p := by
  induction p with
  | ret a => trivial
  | raise e => trivial
  | op o k ih =>
    cases o with
    | file o =>
      obtain ⟨⟨q, hq, ho⟩, hio, hk⟩ := h
      exact ⟨⟨q, hs q hq, ho⟩, hio, fun r => ih r (hk r)⟩
    | _ => exact h.elim

theorem ReadOnly.bind {p : Serv α} {f : α → Serv β} (h : ReadOnly S p) (hf : ∀ a, ReadOnly S (f a)) :
    ReadOnly S (p.bind f) := by
  induction p with
  | ret a => exact hf a
  | raise e => trivial
  | op o k ih =>
    cases o with
    | file o =>
      obtain ⟨hq, hio, hk⟩ := h
      exact ⟨hq, congrArg (·.bind f) hio, fun r => ih r (hk r)⟩
    | _ => exact h.elim

theorem ReadOnly.handle {p : Serv α} {f : Exn → Serv α} (h : ReadOnly S p) (hf : ∀ e, ReadOnly S (f e))
    (hio : f .osError = .raise .osError) : ReadOnly S (p.handle f) := by
  induction p with
  | ret a => trivial
  | raise e => exact hf e
  | op o k ih =>
    cases o with
    | file o =>
      obtain ⟨hq, hk0, hk⟩ := h
      exact ⟨hq, (congrArg (·.handle f) hk0).trans hio, fun r => ih r (hk r)⟩
    | _ => exact h.elim

theorem readOnly_read {p : Path} (h : S p) : ReadOnly S (read p) :=
  ⟨⟨p, h, .inl rfl⟩, rfl, fun r => by cases r <;> trivial⟩

theorem readOnly_exists {p : Path} (h : S p) : ReadOnly S (exists? p) :=
  ⟨⟨p, h, .inr rfl⟩, rfl, fun r => by cases r <;> trivial⟩

theorem readOnly_demand (b : Bool) (e : Exn) : ReadOnly S (demand b e) := by
  unfold demand; split <;> trivial

theorem readOnly_parse (as : Doc → Option α) (d : Doc) (e : Exn) : ReadOnly S (parse as d e) := by
  unfold parse; split <;> trivial

theorem readOnly_ofExcept (out : Except Exn α) : ReadOnly S (.ofExcept out : Serv α) := by
  cases out <;> trivial

theorem ReadOnly.discard {p : Serv α} (h : ReadOnly S p) : ReadOnly S (discard p) := h.bind fun _ => trivial

theorem ReadOnly.missingAs {p : Serv α} (h : ReadOnly S p) (e : Exn) : ReadOnly S (missingAs p e) :=
  h.handle (fun _ => trivial) rfl

/-! ## What they do -/

section
variable {A : Env host} {L : Law}

/-- A look is undisturbed by anything but a fault, and tells what the view shows. -/
theorem look_step {o : FileCall} {p : Path} (h : o = .read p.entry ∨ o = .test p.entry) :
    Disk.inPlace o = false ∧ marks o = false ∧ (∀ s : Files, s.Disciplined o ∧ ∀ f, s.effect o f = none) ∧
      ∃ r : Except Errno o.Value, (∀ w : World, w.view = v → (w.disk.step o).1 = r) ∧
        ∀ {α : Type} (k : (Op.file o).Reply → Serv α), v.run (.op (.file o) k) = v.run (k r) := by
  obtain ⟨d, n⟩ := p
  rcases h with rfl | rfl
  · refine ⟨rfl, rfl, fun s => ⟨trivial, fun f => by cases f <;> rfl⟩, _, fun w hw => ?_, fun _ => rfl⟩
    rw [← hw, look_view]
    simp only [Disk.step, Path.entry]
    cases w.disk.lookup (d, .named n) <;> rfl
  · refine ⟨rfl, rfl, fun s => ⟨trivial, fun f => by cases f <;> rfl⟩, _, fun w hw => ?_, fun _ => rfl⟩
    rw [← hw, ← isSome_lookup]
    rfl

/-- The environment may disturb a look at one of the files. -/
def MayDisturb (A : Env host) (S : Path → Prop) : Prop :=
  ∃ p, S p ∧ (MayFailAt A (.read p.entry) ∨ MayFailAt A (.test p.entry))

theorem MayDisturb.mayFail (h : MayDisturb A S) : MayFail A := by
  obtain ⟨p, -, h | h⟩ := h
  · exact h.mayFail
  · exact h.mayFail

/-- **A program that only reads** changes nothing, and returns `v.run p` unless a look fails. -/
theorem Does.looks {p : Serv α} {Q : Except Exn α → View → Prop} (h : ReadOnly S p) (ok : Q (v.run p) v)
    (fault : MayDisturb A S → Q (.error .osError) v) : Does A L p v Q := by
  induction p with
  | ret a => exact .ret ok
  | raise e => exact .raise ok
  | op o k ih =>
    cases o with
    | file o =>
      obtain ⟨⟨p, hp, ho⟩, hio, hk⟩ := h
      obtain ⟨hi, hm, hd, r, hr, hrun⟩ := look_step (v := v) ho
      have hat : MayFailAt A o → MayDisturb A S := by
        rcases ho with rfl | rfl
        · exact fun hf => ⟨p, hp, .inl hf⟩
        · exact fun hf => ⟨p, hp, .inr hf⟩
      intro w hw hf
      have hview : ∀ c : Choice, (World.act (.file o) c w).2.view = v := fun c => by
        rw [view_act hf (hd _).1, (hd _).2]; exact hw
      have hfit : ∀ f, Fit (w.disk.act o f).2 := fun f => fit_act hf o f (hd _).1 hi (.inr hm)
      refine ⟨⟨(hd _).1, hfit, fun f e he => ?_⟩, fun c hc => ?_⟩
      · rw [(hd _).2] at he; cases he
      · show Sat A _ _ (k (w.disk.act o c.fault).1) (World.act (.file o) c w).2
        have hfit' : Fit (World.act (.file o) c w).2.disk := hfit c.fault
        have hv' := hview c
        generalize (World.act (.file o) c w).2 = w' at hfit' hv' ⊢
        cases hcf : c.fault with
        | some f =>
          have : k (w.disk.act o (some f)).1 = .raise .osError := hio
          rw [this]
          exact ⟨hfit', hv' ▸ fault (hat (mayFailAt_of hc hcf))⟩
        | none =>
          have : k (w.disk.act o none).1 = k r := congrArg k (hr w hw)
          rw [this]
          rw [hrun] at ok
          exact ih r (hk r) ok w' hv' hfit'
    | _ => exact h.elim

theorem Does.reads {p : Serv α} {Q : Except Exn α → View → Prop} (h : ReadOnly S p) (ok : Q (v.run p) v)
    (fault : MayFail A → Q (.error .osError) v) : Does A L p v Q := Does.looks h ok fun hf => fault hf.mayFail

/-- Look, then go on with what was seen. -/
theorem Does.lookThen {p : Serv α} {f : α → Serv β} {Q : Except Exn β → View → Prop} (h : ReadOnly S p)
    (ok : ∀ a, v.run p = .ok a → Does A L (f a) v Q) (error : ∀ e, v.run p = .error e → Q (.error e) v)
    (fault : MayDisturb A S → Q (.error .osError) v) : Does A L (p.bind f) v Q := by
  refine Does.bind (R := fun out v' => v' = v ∧ (out = v.run p ∨ MayDisturb A S ∧ out = .error .osError))
    (Does.looks h ⟨rfl, .inl rfl⟩ fun hf => ⟨rfl, .inr ⟨hf, rfl⟩⟩) ?_ ?_
  · rintro a _ ⟨rfl, ha | ⟨-, ha⟩⟩
    · exact ok a ha.symm
    · cases ha
  · rintro e _ ⟨rfl, he | ⟨hf, he⟩⟩
    · exact error e he.symm
    · cases he; exact fault hf

/-- Read, then go on with what was read. -/
theorem Does.readThen {p : Serv α} {f : α → Serv β} {Q : Except Exn β → View → Prop} (h : ReadOnly S p)
    (ok : ∀ a, v.run p = .ok a → Does A L (f a) v Q) (error : ∀ e, v.run p = .error e → Q (.error e) v)
    (fault : MayFail A → Q (.error .osError) v) : Does A L (p.bind f) v Q :=
  Does.lookThen h ok error fun hf => fault hf.mayFail

end

theorem run_congr {p : Serv α} (h : ReadOnly S p) (hl : ∀ q, S q → v.look q = v'.look q) :
    v.run p = v'.run p := by
  induction p with
  | ret a => rfl
  | raise e => rfl
  | op o k ih =>
    cases o with
    | file o =>
      obtain ⟨⟨⟨d, n⟩, hq, rfl | rfl⟩, -, hk⟩ := h
      · show v.run (k _) = v'.run (k _)
        rw [hl _ hq]
        exact ih _ (hk _)
      · show v.run (k _) = v'.run (k _)
        rw [hl _ hq]
        exact ih _ (hk _)
    | _ => exact h.elim

end Tirke
