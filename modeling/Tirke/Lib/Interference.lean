import Tirke.Lib.Program
/-!
# A program that is not alone

A `Setting` says what an operation of the program may do to a state, and what the surroundings may do to it
meanwhile; the latter may depend on the operation that comes next. An operation is performed without interruption.

`Outline T G Q p s` is a proof outline: before each operation stands an assertion that the surroundings keep, under
which the operation may be performed (`G`), and whatever it does the outline goes on. The rules follow the program;
`Outline.run` is soundness.
-/

namespace CrashProg

variable {I : Interface} {S ε ε' α β : Type}

structure Setting (I : Interface) (S : Type) where
  acts : (o : I.Op) → S → I.Reply o → S → Prop
  /-- `none`: the program is over. -/
  meanwhile : Option I.Op → S → S → Prop

/-- The operation that comes next. -/
def Prog.next : Prog I ε α → Option I.Op
  | .op o _ => some o
  | _ => none

namespace Setting

inductive Step (T : Setting I S) : Prog I ε α × S → Prog I ε α × S → Prop where
  | acts (o : I.Op) (k : I.Reply o → Prog I ε α) (s : S) (a : I.Reply o) (s' : S) (h : T.acts o s a s') :
      Step T (.op o k, s) (k a, s')
  | meanwhile (p : Prog I ε α) (s s' : S) (h : T.meanwhile p.next s s') : Step T (p, s) (p, s')

abbrev Run (T : Setting I S) : Prog I ε α × S → Prog I ε α × S → Prop := Relation.ReflTransGen T.Step

/-- What the surroundings do not disturb, while this comes next. -/
def Stable (T : Setting I S) (o : Option I.Op) (J : S → Prop) : Prop := ∀ s s', J s → T.meanwhile o s s' → J s'

def Outline (T : Setting I S) (G : I.Op → S → Prop) (Q : Except ε α → S → Prop) : Prog I ε α → S → Prop
  | .ret a, s => Q (.ok a) s
  | .raise e, s => Q (.error e) s
  | .op o k, s => ∃ J : S → Prop, J s ∧ T.Stable (some o) J ∧
      ∀ s, J s → G o s ∧ ∀ a s', T.acts o s a s' → Outline T G Q (k a) s'

variable {T : Setting I S} {G : I.Op → S → Prop} {s s' : S}

theorem Outline.mono {Q Q' : Except ε α → S → Prop} {p : Prog I ε α} (h : T.Outline G Q p s)
    (hq : ∀ out s, Q out s → Q' out s) : T.Outline G Q' p s := by
  induction p generalizing s with
  | ret a => exact hq _ _ h
  | raise e => exact hq _ _ h
  | op o k ih =>
    obtain ⟨J, hj, hstable, hgo⟩ := h
    exact ⟨J, hj, hstable, fun s hs => ⟨(hgo s hs).1, fun a s' ha => ih a ((hgo s hs).2 a s' ha)⟩⟩

/-- **Sequencing.** -/
theorem Outline.bind {R : Except ε α → S → Prop} {Q : Except ε β → S → Prop} {p : Prog I ε α} {f : α → Prog I ε β}
    (h : T.Outline G R p s) (ok : ∀ a s, R (.ok a) s → T.Outline G Q (f a) s)
    (error : ∀ e s, R (.error e) s → Q (.error e) s) : T.Outline G Q (p.bind f) s := by
  induction p generalizing s with
  | ret a => exact ok a s h
  | raise e => exact error e s h
  | op o k ih =>
    obtain ⟨J, hj, hstable, hgo⟩ := h
    exact ⟨J, hj, hstable, fun s hs => ⟨(hgo s hs).1, fun a s' ha => ih a ((hgo s hs).2 a s' ha)⟩⟩

/-- **`except`.** -/
theorem Outline.handle {R : Except ε α → S → Prop} {Q : Except ε' α → S → Prop} {p : Prog I ε α}
    {f : ε → Prog I ε' α} (h : T.Outline G R p s) (ok : ∀ a s, R (.ok a) s → Q (.ok a) s)
    (error : ∀ e s, R (.error e) s → T.Outline G Q (f e) s) : T.Outline G Q (p.handle f) s := by
  induction p generalizing s with
  | ret a => exact ok a s h
  | raise e => exact error e s h
  | op o k ih =>
    obtain ⟨J, hj, hstable, hgo⟩ := h
    exact ⟨J, hj, hstable, fun s hs => ⟨(hgo s hs).1, fun a s' ha => ih a ((hgo s hs).2 a s' ha)⟩⟩

/-- The surroundings do not break an outline, if they keep what it ends with. -/
theorem Outline.stable {Q : Except ε α → S → Prop} {p : Prog I ε α} (h : T.Outline G Q p s)
    (hq : ∀ out, T.Stable none (Q out)) (hm : T.meanwhile p.next s s') : T.Outline G Q p s' := by
  cases p with
  | ret a => exact hq _ _ _ h hm
  | raise e => exact hq _ _ _ h hm
  | op o k =>
    obtain ⟨J, hj, hstable, hgo⟩ := h
    exact ⟨J, hstable _ _ hj hm, hstable, hgo⟩

/-- **Every run keeps to the outline.** -/
theorem Outline.run {Q : Except ε α → S → Prop} {c c' : Prog I ε α × S} (h : T.Outline G Q c.1 c.2)
    (hq : ∀ out, T.Stable none (Q out)) (hs : T.Run c c') : T.Outline G Q c'.1 c'.2 := by
  induction hs with
  | refl => exact h
  | tail _ hstep ih =>
    cases hstep with
    | acts o k s a s' ha =>
      obtain ⟨J, hj, -, hgo⟩ := ih
      exact (hgo _ hj).2 a s' ha
    | meanwhile p s s' hm => exact ih.stable hq hm

/-- What comes next may be performed. -/
theorem Outline.guard {Q : Except ε α → S → Prop} {o : I.Op} {k : I.Reply o → Prog I ε α}
    (h : T.Outline G Q (.op o k) s) : G o s := by
  obtain ⟨J, hj, -, hgo⟩ := h
  exact (hgo s hj).1

end Setting

end CrashProg
