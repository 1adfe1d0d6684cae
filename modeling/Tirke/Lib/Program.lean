import Mathlib.Logic.Relation
/-!
# Effectful programs, their runs, and a logic for them

A program is a well-founded tree of operations (`Prog`): each node asks the outside world to
perform one operation and continues on the reply. A `Machine` says what an operation does to the
world; everything the program does not decide (faults, the clock, a remote peer) is its `Choice`.

* `Machine.exec` runs a program along a list of choices; a prefix of the list is a run that was
  stopped there, so the states an interruption can leave behind are the states of prefixes.
* `Sat A G Q p w`: along every run of `p` from `w` whose choices `A` admits, every operation
  performed satisfies the guard `G` in the world it is performed in, and a finished run satisfies
  `Q`. The rules (`Sat.bind`, `Sat.handle`, `Sat.mono`, …) follow the program's structure.
* `Sat.exec` is soundness: what `Sat` promises holds at every prefix of every run.
-/

namespace CrashProg

/-- The operations a program may perform and the type each one replies with. -/
structure Interface where
  Op : Type
  Reply : Op → Type

inductive Prog (I : Interface) (ε α : Type) where
  | ret (a : α)
  | raise (e : ε)
  | op (o : I.Op) (k : I.Reply o → Prog I ε α)

namespace Prog
variable {I : Interface} {ε ε' α β : Type}

def bind : Prog I ε α → (α → Prog I ε β) → Prog I ε β
  | .ret a, f => f a
  | .raise e, _ => .raise e
  | .op o k, f => .op o fun r => (k r).bind f

/-- Run `h` on the exception of the program, which may be of another type afterwards. -/
def handle : Prog I ε α → (ε → Prog I ε' α) → Prog I ε' α
  | .ret a, _ => .ret a
  | .raise e, h => h e
  | .op o k, h => .op o fun r => (k r).handle h

/-- The program has returned or raised. -/
def finished : Prog I ε α → Bool
  | .op _ _ => false
  | _ => true

/-- Reify the outcome: the resulting program never raises. -/
def attempt : Prog I ε α → Prog I ε' (Except ε α)
  | .ret a => .ret (.ok a)
  | .raise e => .ret (.error e)
  | .op o k => .op o fun r => (k r).attempt

def ofExcept : Except ε α → Prog I ε α
  | .ok a => .ret a
  | .error e => .raise e

instance : Monad (Prog I ε) where
  pure := .ret
  bind := bind

instance : MonadExcept ε (Prog I ε) where
  throw := .raise
  tryCatch := handle

/-- `try: p finally: fin`; an exception of `fin` replaces the outcome of `p`. -/
def ensuring (p : Prog I ε α) (fin : Prog I ε Unit) : Prog I ε α :=
  (attempt p).bind fun out => fin.bind fun _ => ofExcept out

@[simp] theorem pure_eq (a : α) : (pure a : Prog I ε α) = .ret a := rfl
@[simp] theorem bind_eq (p : Prog I ε α) (f : α → Prog I ε β) : p >>= f = p.bind f := rfl
@[simp] theorem throw_eq (e : ε) : (throw e : Prog I ε α) = .raise e := rfl
@[simp] theorem tryCatch_eq (p : Prog I ε α) (h : ε → Prog I ε α) : tryCatch p h = p.handle h := rfl

@[simp] theorem ret_bind (a : α) (f : α → Prog I ε β) : (ret a : Prog I ε α).bind f = f a := rfl
@[simp] theorem raise_bind (e : ε) (f : α → Prog I ε β) : (raise e : Prog I ε α).bind f = .raise e := rfl

theorem bind_assoc {γ : Type} (p : Prog I ε α) (f : α → Prog I ε β) (g : β → Prog I ε γ) :
    (p.bind f).bind g = p.bind fun a => (f a).bind g := by
  induction p with
  | ret a => rfl
  | raise e => rfl
  | op o k ih => simp only [bind, ih]

end Prog

/-- What an operation does: the choice is everything the program does not decide. -/
structure Machine (I : Interface) where
  World : Type
  Choice : Type
  act : (o : I.Op) → Choice → World → I.Reply o × World

namespace Machine
variable {I : Interface} (M : Machine I) {ε α : Type}

/-- Perform as many operations as there are choices; the rest of the program is what a run
stopped there still had to do. -/
def exec : List M.Choice → Prog I ε α → M.World → Prog I ε α × M.World
  | c :: cs, .op o k, w => exec cs (k (M.act o c w).1) (M.act o c w).2
  | _, p, w => (p, w)

/-- However the operations turn out, the program comes to its end. -/
theorem exec_finished (p : Prog I ε α) (f : Nat → M.Choice) (w : M.World) :
    ∃ n, (M.exec ((List.range n).map f) p w).1.finished = true := by
  induction p generalizing f w with
  | ret a => exact ⟨0, rfl⟩
  | raise e => exact ⟨0, rfl⟩
  | op o k ih =>
    obtain ⟨n, hn⟩ := ih _ (fun i => f (i + 1)) (M.act o (f 0) w).2
    refine ⟨n + 1, ?_⟩
    rw [List.range_succ_eq_map, List.map_cons, List.map_map]
    exact hn

/-- Run to the end, every operation with the choice `c`. -/
def eval (c : M.Choice) : Prog I ε α → M.World → Except ε α × M.World
  | .ret a, w => (.ok a, w)
  | .raise e, w => (.error e, w)
  | .op o k, w => eval c (k (M.act o c w).1) (M.act o c w).2

end Machine

section
variable {I : Interface} {M : Machine I} {ε ε' α β : Type}

/-- Which choices an environment may make for an operation in a world. -/
abbrev Env (M : Machine I) := M.World → I.Op → M.Choice → Prop

/-- What must hold when an operation is performed. -/
abbrev Guard (M : Machine I) := M.World → I.Op → Prop

/-- What must hold of the outcome and the final world. -/
abbrev Post (M : Machine I) (ε α : Type) := Except ε α → M.World → Prop

def Sat (A : Env M) (G : Guard M) (Q : Post M ε α) : Prog I ε α → M.World → Prop
  | .ret a, w => Q (.ok a) w
  | .raise e, w => Q (.error e) w
  | .op o k, w => G w o ∧ ∀ c, A w o c → Sat A G Q (k (M.act o c w).1) (M.act o c w).2

/-- The postcondition of `p` that lets `p.bind f` go on. -/
def Post.andThen (A : Env M) (G : Guard M) (Q : Post M ε β) (f : α → Prog I ε β) : Post M ε α
  | .ok a, w => Sat A G Q (f a) w
  | .error e, w => Q (.error e) w

/-- The postcondition of `p` that lets `p.handle h` go on. -/
def Post.orElse (A : Env M) (G : Guard M) (Q : Post M ε' α) (h : ε → Prog I ε' α) : Post M ε α
  | .ok a, w => Q (.ok a) w
  | .error e, w => Sat A G Q (h e) w

variable {A : Env M} {G : Guard M}

@[simp] theorem sat_ret {Q : Post M ε α} {a : α} {w : M.World} :
    Sat A G Q (.ret a) w ↔ Q (.ok a) w := Iff.rfl

@[simp] theorem sat_raise {Q : Post M ε α} {e : ε} {w : M.World} :
    Sat A G Q (.raise e) w ↔ Q (.error e) w := Iff.rfl

@[simp] theorem andThen_ok {Q : Post M ε β} {f : α → Prog I ε β} {a : α} {w : M.World} :
    Post.andThen A G Q f (.ok a) w ↔ Sat A G Q (f a) w := Iff.rfl

@[simp] theorem andThen_error {Q : Post M ε β} {f : α → Prog I ε β} {e : ε} {w : M.World} :
    Post.andThen A G Q f (.error e) w ↔ Q (.error e) w := Iff.rfl

@[simp] theorem orElse_ok {Q : Post M ε' α} {h : ε → Prog I ε' α} {a : α} {w : M.World} :
    Post.orElse A G Q h (.ok a) w ↔ Q (.ok a) w := Iff.rfl

@[simp] theorem orElse_error {Q : Post M ε' α} {h : ε → Prog I ε' α} {e : ε} {w : M.World} :
    Post.orElse A G Q h (.error e) w ↔ Sat A G Q (h e) w := Iff.rfl

theorem sat_bind {Q : Post M ε β} {p : Prog I ε α} {f : α → Prog I ε β} {w : M.World} :
    Sat A G Q (p.bind f) w ↔ Sat A G (Post.andThen A G Q f) p w := by
  induction p generalizing w with
  | ret a => rfl
  | raise e => rfl
  | op o k ih => simp only [Prog.bind, Sat, ih]

theorem sat_handle {Q : Post M ε' α} {p : Prog I ε α} {h : ε → Prog I ε' α} {w : M.World} :
    Sat A G Q (p.handle h) w ↔ Sat A G (Post.orElse A G Q h) p w := by
  induction p generalizing w with
  | ret a => rfl
  | raise e => rfl
  | op o k ih => simp only [Prog.handle, Sat, ih]

theorem sat_attempt {Q : Post M ε' (Except ε α)} {p : Prog I ε α} {w : M.World} :
    Sat A G Q p.attempt w ↔ Sat A G (fun out w' => Q (.ok out) w') p w := by
  induction p generalizing w with
  | ret a => rfl
  | raise e => rfl
  | op o k ih => simp only [Prog.attempt, Sat, ih]

theorem sat_ofExcept {Q : Post M ε α} {out : Except ε α} {w : M.World} :
    Sat A G Q (Prog.ofExcept out) w ↔ Q out w := by
  cases out <;> rfl

/-- **Consequence**: a weaker postcondition under the same guard. -/
theorem Sat.mono {Q Q' : Post M ε α} {p : Prog I ε α} {w : M.World} (h : Sat A G Q p w)
    (hq : ∀ out w', Q out w' → Q' out w') : Sat A G Q' p w := by
  induction p generalizing w with
  | ret a => exact hq _ _ h
  | raise e => exact hq _ _ h
  | op o k ih => exact ⟨h.1, fun c hc => ih _ (h.2 c hc)⟩

/-- **Sequencing**: `p` meets its own postcondition, and every outcome of it lets the rest go on. -/
theorem Sat.bind {R : Post M ε α} {Q : Post M ε β} {p : Prog I ε α} {f : α → Prog I ε β} {w : M.World}
    (h : Sat A G R p w) (hr : ∀ out w', R out w' → Post.andThen A G Q f out w') :
    Sat A G Q (p.bind f) w :=
  sat_bind.2 (h.mono hr)

theorem Sat.handle {R : Post M ε α} {Q : Post M ε' α} {p : Prog I ε α} {f : ε → Prog I ε' α}
    {w : M.World} (h : Sat A G R p w) (hr : ∀ out w', R out w' → Post.orElse A G Q f out w') :
    Sat A G Q (p.handle f) w :=
  sat_handle.2 (h.mono hr)

/-- **`finally`**: whatever the body's outcome, the finaliser runs and hands it on. -/
theorem Sat.ensuring {R : Post M ε α} {Q : Post M ε α} {p : Prog I ε α} {fin : Prog I ε Unit}
    {w : M.World} (h : Sat A G R p w)
    (hr : ∀ out w', R out w' → Sat A G (fun o w'' => match o with
      | .ok () => Q out w''
      | .error e => Q (.error e) w'') fin w') :
    Sat A G Q (p.ensuring fin) w := by
  refine sat_bind.2 (sat_attempt.2 (h.mono fun out w' hout => sat_bind.2 ((hr out w' hout).mono ?_)))
  rintro (e | ⟨⟩) w'' hq
  · exact hq
  · exact sat_ofExcept.2 hq

/-- Two independent promises hold together. -/
theorem Sat.and {Q R : Post M ε α} {p : Prog I ε α} {w : M.World} (h : Sat A G Q p w)
    (h' : Sat A G R p w) : Sat A G (fun out w' => Q out w' ∧ R out w') p w := by
  induction p generalizing w with
  | ret a => exact ⟨h, h'⟩
  | raise e => exact ⟨h, h'⟩
  | op o k ih => exact ⟨h.1, fun c hc => ih _ (h.2 c hc) (h'.2 c hc)⟩

/-- Fewer choices and a weaker guard keep every promise. -/
theorem Sat.weaken {A' : Env M} {G' : Guard M} {Q : Post M ε α} {p : Prog I ε α} {w : M.World}
    (h : Sat A G Q p w) (ha : ∀ w o c, A' w o c → A w o c) (hg : ∀ w o, G w o → G' w o) :
    Sat A' G' Q p w := by
  induction p generalizing w with
  | ret a => exact h
  | raise e => exact h
  | op o k ih => exact ⟨hg _ _ h.1, fun c hc => ih _ (h.2 c (ha _ _ _ hc))⟩

/-- **Invariants.** If every guarded, admitted operation preserves `J`, it holds at the end. -/
theorem Sat.invariant {J : M.World → Prop} {Q : Post M ε α} {p : Prog I ε α} {w : M.World}
    (h : Sat A G Q p w) (hi : J w)
    (hs : ∀ w o c, J w → G w o → A w o c → J (M.act o c w).2) :
    Sat A G (fun out w' => Q out w' ∧ J w') p w := by
  induction p generalizing w with
  | ret a => exact ⟨h, hi⟩
  | raise e => exact ⟨h, hi⟩
  | op o k ih => exact ⟨h.1, fun c hc => ih _ (h.2 c hc) (hs w o c hi h.1 hc)⟩

/-- An environment that only makes choices the first one admits, as long as it keeps to `J`. -/
theorem Sat.restrict {A' : Env M} {J : M.World → Prop} {Q : Post M ε α} {p : Prog I ε α} {w : M.World}
    (h : Sat A G Q p w) (hj : J w) (hs : ∀ w o c, J w → A' w o c → A w o c ∧ J (M.act o c w).2) : Sat A' G Q p w := by
  induction p generalizing w with
  | ret a => exact h
  | raise e => exact h
  | op o k ih => exact ⟨h.1, fun c hc => ih _ (h.2 c (hs w o c hj hc).1) (hs w o c hj hc).2⟩

/-- The choices of a run are all admitted in the worlds they are made in. -/
def Admits (A : Env M) : List M.Choice → Prog I ε α → M.World → Prop
  | c :: cs, .op o k, w => A w o c ∧ Admits A cs (k (M.act o c w).1) (M.act o c w).2
  | _, _, _ => True

theorem admits_of {p : Prog I ε α} {w : M.World} (h : ∀ w o c, A w o c) (cs : List M.Choice) : Admits A cs p w := by
  induction cs generalizing p w with
  | nil => cases p <;> trivial
  | cons c cs ih =>
    cases p with
    | op o k => exact ⟨h w o c, ih⟩
    | _ => trivial

/-- **Soundness**: a `Sat` program stopped anywhere still satisfies what is left to do. -/
theorem Sat.exec {Q : Post M ε α} {p : Prog I ε α} {w : M.World} (h : Sat A G Q p w) :
    ∀ cs : List M.Choice, Admits A cs p w → Sat A G Q (M.exec cs p w).1 (M.exec cs p w).2 := by
  intro cs hcs
  induction cs generalizing p w with
  | nil => cases p <;> exact h
  | cons c cs ih =>
    cases p with
    | ret a => exact h
    | raise e => exact h
    | op o k => exact ih (h.2 c hcs.1) hcs.2

/-- What every guarded, admitted operation preserves holds wherever the program is stopped. -/
theorem Sat.keeps {J : M.World → Prop} {Q : Post M ε α} {p : Prog I ε α} {w : M.World} (h : Sat A G Q p w) (hi : J w)
    (hs : ∀ w o c, J w → G w o → A w o c → J (M.act o c w).2) :
    ∀ cs : List M.Choice, Admits A cs p w → J (M.exec cs p w).2 := by
  intro cs hcs
  induction cs generalizing p w with
  | nil => cases p <;> exact hi
  | cons c cs ih =>
    cases p with
    | ret a => exact hi
    | raise e => exact hi
    | op o k => exact ih (h.2 c hcs.1) (hs w o c hi h.1 hcs.1) hcs.2

/-- A run that uses one admitted choice throughout ends as `Sat` says. -/
theorem Sat.eval {Q : Post M ε α} {p : Prog I ε α} {w : M.World} (h : Sat A G Q p w) (c : M.Choice)
    (hc : ∀ w o, A w o c) : Q (M.eval c p w).1 (M.eval c p w).2 := by
  induction p generalizing w with
  | ret a => exact h
  | raise e => exact h
  | op o k ih => exact ih _ (h.2 c (hc w o))

/-- The program comes to its end, with choices that are all admitted. -/
inductive Ran (A : Env M) : Prog I ε α → M.World → Except ε α → M.World → Prop where
  | ret (a : α) (w : M.World) : Ran A (.ret a) w (.ok a) w
  | raise (e : ε) (w : M.World) : Ran A (.raise e) w (.error e) w
  | op (o : I.Op) (k : I.Reply o → Prog I ε α) (w : M.World) (c : M.Choice) (hc : A w o c) {out : Except ε α} {w' : M.World}
      (h : Ran A (k (M.act o c w).1) (M.act o c w).2 out w') : Ran A (.op o k) w out w'

/-- **A run to the end** ends as `Sat` says. -/
theorem Ran.ends {Q : Post M ε α} {p : Prog I ε α} {w w' : M.World} {out : Except ε α} (h : Ran A p w out w')
    (hs : Sat A G Q p w) : Q out w' := by
  induction h with
  | ret a w => exact hs
  | raise e w => exact hs
  | op o k w c hc h ih => exact ih (hs.2 c hc)

theorem Ran.bind {p : Prog I ε α} {f : α → Prog I ε β} {w w' w'' : M.World} {a : α} {out : Except ε β}
    (h : Ran A p w (.ok a) w') (hf : Ran A (f a) w' out w'') : Ran A (p.bind f) w out w'' := by
  generalize he : (Except.ok a : Except ε α) = x at h
  induction h with
  | ret a' w => cases he; exact hf
  | raise e w => cases he
  | op o k w c hc h ih => exact .op o _ w c hc (ih hf he)

/-- What becomes of the value does not matter to the run. -/
theorem Ran.map {p : Prog I ε α} {f : α → β} {w w' : M.World} {out : Except ε α} (h : Ran A p w out w') :
    Ran A (p.bind fun a => .ret (f a)) w (out.map f) w' := by
  induction h with
  | ret a w => exact .ret (f a) w
  | raise e w => exact .raise e w
  | op o k w c hc h ih => exact .op o _ w c hc ih

/-- Choosing the same throughout is a run to the end. -/
theorem ran_eval (c : M.Choice) (hc : ∀ w o, A w o c) (p : Prog I ε α) (w : M.World) :
    Ran A p w (M.eval c p w).1 (M.eval c p w).2 := by
  induction p generalizing w with
  | ret a => exact .ret a w
  | raise e => exact .raise e w
  | op o k ih => exact .op o k w c (hc w o) (ih _ _)

theorem Ran.exec {p : Prog I ε α} {w w' : M.World} {out : Except ε α} (h : Ran A p w out w') :
    ∃ cs : List M.Choice, Admits A cs p w ∧ M.exec cs p w = (Prog.ofExcept out, w') := by
  induction h with
  | ret a w => exact ⟨[], trivial, rfl⟩
  | raise e w => exact ⟨[], trivial, rfl⟩
  | op o k w c hc h ih =>
    obtain ⟨cs, hcs, he⟩ := ih
    exact ⟨c :: cs, ⟨hc, hcs⟩, he⟩

/-! ## Outcomes, whatever the world is -/

/-- However the operations are replied to, as long as it is as `R` says, `p` returns a `Q` or raises an `E`. -/
def Ends (R : (o : I.Op) → I.Reply o → Prop) (Q : α → Prop) (E : ε → Prop) : Prog I ε α → Prop
  | .ret a => Q a
  | .raise e => E e
  | .op o k => ∀ a, R o a → Ends R Q E (k a)

namespace Ends
variable {R : (o : I.Op) → I.Reply o → Prop} {P P' : α → Prop} {Q : β → Prop} {E : ε → Prop} {E' : ε' → Prop}
  {p : Prog I ε α}

theorem mono (h : Ends R P E p) (hp : ∀ a, P a → P' a) : Ends R P' E p := by
  induction p with
  | ret a => exact hp a h
  | raise e => exact h
  | op o k ih => exact fun a ha => ih a (h a ha)

/-- **Sequencing.** -/
theorem bind {f : α → Prog I ε β} (h : Ends R P E p) (hf : ∀ a, P a → Ends R Q E (f a)) : Ends R Q E (p.bind f) := by
  induction p with
  | ret a => exact hf a h
  | raise e => exact h
  | op o k ih => exact fun a ha => ih a (h a ha)

theorem handle {f : ε → Prog I ε' α} (h : Ends R P E p) (hf : ∀ e, E e → Ends R P E' (f e)) : Ends R P E' (p.handle f) := by
  induction p with
  | ret a => exact h
  | raise e => exact hf e h
  | op o k ih => exact fun a ha => ih a (h a ha)

/-- What is reified is as it was. -/
theorem attempt (h : Ends R P E p) : Ends R (fun out => match out with | .ok a => P a | .error e => E e) E' p.attempt := by
  induction p with
  | ret a => exact h
  | raise e => exact h
  | op o k ih => exact fun a ha => ih a (h a ha)

theorem ensuring {fin : Prog I ε Unit} (h : Ends R P E p) (hfin : Ends R (fun _ => True) E fin) :
    Ends R P E (p.ensuring fin) := by
  refine h.attempt.bind fun out hout => hfin.bind fun _ _ => ?_
  cases out with
  | ok a => exact hout
  | error e => exact hout

end Ends

/-! ## Environments that see the program -/

/-- What is left of a program once it has performed some operations. -/
inductive Rest (p : Prog I ε α) : Prog I ε α → Prop where
  | refl : Rest p p
  | op {o : I.Op} {k : I.Reply o → Prog I ε α} (h : Rest p (.op o k)) (a : I.Reply o) : Rest p (k a)

theorem Rest.cons {o : I.Op} {k : I.Reply o → Prog I ε α} {a : I.Reply o} {q : Prog I ε α} (h : Rest (k a) q) :
    Rest (.op o k) q := by
  induction h with
  | refl => exact .op .refl a
  | op _ b ih => exact .op ih b

/-- Which choices may be made when this is left to do. -/
abbrev Watch (M : Machine I) (ε α : Type) := Prog I ε α → M.World → M.Choice → Prop

/-- Along every run whose choices the watch admits, a finished run satisfies `Q`. -/
def Watched (E : Watch M ε α) (Q : Post M ε α) : Prog I ε α → M.World → Prop
  | .ret a, w => Q (.ok a) w
  | .raise e, w => Q (.error e) w
  | .op o k, w => ∀ c, E (.op o k) w c → Watched E Q (k (M.act o c w).1) (M.act o c w).2

/-- **Sequencing**: while `p` is under way, the watch admits no more than `A`. -/
theorem Watched.bind {E : Watch M ε β} {Q : Post M ε β} {R : Post M ε α} {p : Prog I ε α} {f : α → Prog I ε β}
    {w : M.World} (h : Sat A G R p w) (he : ∀ o k, Rest p (.op o k) → ∀ w c, E ((Prog.op o k).bind f) w c → A w o c)
    (ok : ∀ a w', R (.ok a) w' → Watched E Q (f a) w') (error : ∀ e w', R (.error e) w' → Q (.error e) w') :
    Watched E Q (p.bind f) w := by
  induction p generalizing w with
  | ret a => exact ok a w h
  | raise e => exact error e w h
  | op o k ih => exact fun c hc => ih _ (h.2 c (he o k .refl w c hc)) fun o' k' hr => he o' k' hr.cons

end

end CrashProg
