import Tirke.Lib.Program
import Mathlib.Logic.Function.Basic
/-!
# Programs side by side

A `Pool` is one world and a program for each actor. Any actor may perform its next operation, or crash and never act
again, so a run is any interleaving of the programs' operations. The `trace` remembers them.

`Pool.Run.keeps` is the rule for invariants of all interleavings: `L` annotates what is left of each program. An
operation has to lead from its annotation to the next one, and must not disturb the annotations of the others.
-/

namespace CrashProg

variable {I : Interface} {M : Machine I} {ι ε α : Type}

/-- One operation that was performed, with its reply. -/
structure Turn (I : Interface) (ι : Type) where
  actor : ι
  op : I.Op
  reply : I.Reply op

/-- `none` is an actor that has crashed. The trace is newest first. -/
structure Pool (M : Machine I) (ι ε α : Type) where
  world : M.World
  progs : ι → Option (Prog I ε α)
  trace : List (Turn I ι)

namespace Pool
variable [DecidableEq ι] {s s' : Pool M ι ε α}

/-- The actor's next operation, if it has one. -/
def turn (s : Pool M ι ε α) (i : ι) (c : M.Choice) : Pool M ι ε α :=
  match s.progs i with
  | some (.op o k) =>
    ⟨(M.act o c s.world).2, Function.update s.progs i (some (k (M.act o c s.world).1)),
      ⟨i, o, (M.act o c s.world).1⟩ :: s.trace⟩
  | _ => s

def crash (s : Pool M ι ε α) (i : ι) : Pool M ι ε α :=
  match s.progs i with
  | some (.op _ _) => { s with progs := Function.update s.progs i none }
  | _ => s

inductive Step (s : Pool M ι ε α) : Pool M ι ε α → Prop where
  | turn (i : ι) (c : M.Choice) : Step s (s.turn i c)
  | crash (i : ι) : Step s (s.crash i)

abbrev Run : Pool M ι ε α → Pool M ι ε α → Prop := Relation.ReflTransGen Step

/-- What is shared, and what is known of each actor that has not crashed. -/
structure Annotated (J : M.World → List (Turn I ι) → Prop)
    (L : ι → Prog I ε α → M.World → List (Turn I ι) → Prop) (s : Pool M ι ε α) : Prop where
  shared : J s.world s.trace
  each : ∀ i p, s.progs i = some p → L i p s.world s.trace

variable {J : M.World → List (Turn I ι) → Prop} {L : ι → Prog I ε α → M.World → List (Turn I ι) → Prop}

/-- An operation of one actor leads to what comes next in its own program. -/
def Correct (J : M.World → List (Turn I ι) → Prop) (L : ι → Prog I ε α → M.World → List (Turn I ι) → Prop) : Prop :=
  ∀ i o k c w t, J w t → L i (.op o k) w t →
    J (M.act o c w).2 (⟨i, o, (M.act o c w).1⟩ :: t) ∧
      L i (k (M.act o c w).1) (M.act o c w).2 (⟨i, o, (M.act o c w).1⟩ :: t)

/-- It does not disturb what is known of another. -/
def Undisturbed (J : M.World → List (Turn I ι) → Prop) (L : ι → Prog I ε α → M.World → List (Turn I ι) → Prop) : Prop :=
  ∀ i j o k c w t p, i ≠ j → J w t → L i (.op o k) w t → L j p w t →
    L j p (M.act o c w).2 (⟨i, o, (M.act o c w).1⟩ :: t)

theorem Annotated.turn (hown : Correct J L) (hother : Undisturbed J L) (h : Annotated J L s) (i : ι) (c : M.Choice) :
    Annotated J L (s.turn i c) := by
  unfold Pool.turn
  split
  · next o k hp =>
    obtain ⟨hJ, hL⟩ := hown i o k c _ _ h.shared (h.each i _ hp)
    refine ⟨hJ, fun j p hj => ?_⟩
    dsimp only at hj
    by_cases hij : j = i
    · subst hij
      rw [Function.update_self] at hj
      cases hj
      exact hL
    · rw [Function.update_of_ne hij] at hj
      exact hother i j o k c _ _ p (Ne.symm hij) h.shared (h.each i _ hp) (h.each j p hj)
  · exact h

theorem Annotated.crash (h : Annotated J L s) (i : ι) : Annotated J L (s.crash i) := by
  unfold Pool.crash
  split
  · refine ⟨h.shared, fun j p hj => h.each j p ?_⟩
    dsimp only at hj
    by_cases hij : j = i
    · subst hij
      rw [Function.update_self] at hj
      cases hj
    · rwa [Function.update_of_ne hij] at hj
  · exact h

/-- **Annotations that do not disturb each other hold in every interleaving.** -/
theorem Run.keeps (hown : Correct J L) (hother : Undisturbed J L) (h : Annotated J L s) (hs : Run s s') :
    Annotated J L s' := by
  induction hs with
  | refl => exact h
  | tail _ hstep ih =>
    cases hstep with
    | turn i c => exact ih.turn hown hother i c
    | crash i => exact ih.crash i

end Pool

end CrashProg
