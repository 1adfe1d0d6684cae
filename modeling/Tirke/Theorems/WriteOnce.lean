import Tirke.Runs.Playing
import Tirke.Runs.Writers
/-!
# Originals are write-once

Any number of calls of `_atomic_write(…, immutable=True)` on one path, with any contents, interleaved in any way; each
of their operations may fail, and each call may be killed before any of them.
-/

namespace Tirke

open CrashProg CrashDisk Sample

namespace Writer

variable {ι : Type} [DecidableEq ι] {p : Path} {data : ι → Doc} {s₀ : Files} {a b s s' : Pool host ι Exn Unit} {i : ι}

/-- What holds at `s`, and at `s'` which comes after it, of calls that began at `s₀`. -/
structure WriteOnce (p : Path) (data : ι → Doc) (s₀ s s' : Pool host ι Exn Unit) : Prop where
  /-- The path shows nothing but what it did at first or all of one call's data, and a power failure leaves no more. -/
  whole : ∀ x, Shown s.world.disk p x → Shown s₀.world.disk p x ∨ ∃ i, x = data i
  survives : ∀ x, Survives s.world.disk p x → Survives s₀.world.disk p x ∨ Shown s.world.disk p x
  /-- What it shows is never changed. -/
  fixed : ∀ x, Shown s.world.disk p x → Shown s'.world.disk p x
  returned : ∀ i, s.progs i = some (.ret ()) → Durable s.world.disk p (data i)
  /-- Once it shows another call's data, a call does not return. -/
  refused : ∀ i x, Shown s.world.disk p x → x ≠ data i → s'.progs i ≠ some (.ret ())
  /-- It raises this error, and no call does that wrote the same, unless one of its operations failed. -/
  raised : ∀ i e, s.progs i = some (.raise e) →
    Failed s.trace i ∨ (∃ m, e = .integrity m) ∧ ∃ y, y ≠ data i ∧ Shown s.world.disk p y
  /-- A call that is not killed is over after nine operations. -/
  ends : ∀ i q, s.progs i = some q → performed s.trace i ≤ 9 ∧ (performed s.trace i = 9 → q.finished = true)
  /-- A temporary file is an older one, or that of a call that is under way, was killed or could not remove it. -/
  pendings : ∀ k, s.world.disk.ent (p.1, .pending k) ≠ none → s₀.world.disk.ent (p.1, .pending k) ≠ none ∨
    ∃ i, Reserved p.1 s.trace i k ∧
      (s.progs i = none ∨ (∃ q, s.progs i = some q ∧ q.finished = false) ∨ UnlinkFailed p.1 s.trace i)

theorem durable_shown {d : Files} {x : Doc} (h : Durable d p x) : Shown d p x := by
  obtain ⟨j, hj, hx, -⟩ := h
  exact ⟨j, hj, hx⟩

theorem shown_unique {d : Files} {x y : Doc} (hx : Shown d p x) (hy : Shown d p y) : x = y := by
  obtain ⟨j, hj, rfl⟩ := hx
  obtain ⟨j', hj', rfl⟩ := hy
  rw [hj] at hj'
  cases hj'
  rfl

/-- A call that is over is in its last phase. -/
theorem Phase.at_end {x : Doc} {π : Phase} {q : Serv Unit} (h : q = π.prog p x) (hq : q.finished = true) :
    ∃ out, π = .ended out ∧ q = .ofExcept out := by
  have ht := π.takes p x
  rw [← h] at ht
  cases q with
  | op o k => cases hq
  | ret u =>
    obtain ⟨out, rfl⟩ := ht
    exact ⟨out, rfl, h⟩
  | raise e =>
    obtain ⟨out, rfl⟩ := ht
    exact ⟨out, rfl, h⟩

theorem Known.finished (h : Known p data s₀ a) {q : Serv Unit} (hi : a.progs i = some q) (hq : q.finished = true) :
    ∃ out, q = .ofExcept out ∧ At a.world.disk p a.trace i (data i) (.ended out) := by
  obtain ⟨π, hp, ha, -⟩ := h.each i q hi
  obtain ⟨out, rfl, hout⟩ := Phase.at_end hp hq
  exact ⟨out, hout, ha⟩

theorem Known.returned (h : Known p data s₀ a) (hi : a.progs i = some (.ret ())) : Durable a.world.disk p (data i) := by
  obtain ⟨out, hout, -, hs⟩ := h.finished hi rfl
  cases out with
  | ok _ => exact hs
  | error e => cases hout

theorem Known.raised (h : Known p data s₀ a) {e : Exn} (hi : a.progs i = some (.raise e)) :
    Failed a.trace i ∨ (∃ m, e = .integrity m) ∧ ∃ y, y ≠ data i ∧ Shown a.world.disk p y := by
  obtain ⟨out, hout, -, hs⟩ := h.finished hi rfl
  cases out with
  | ok _ => cases hout
  | error e' =>
    cases hout
    exact hs

theorem Known.pendings (h : Known p data s₀ a) {k : Nat} (hk : a.world.disk.ent (p.1, .pending k) ≠ none) :
    s₀.ent (p.1, .pending k) ≠ none ∨ ∃ i, Reserved p.1 a.trace i k ∧
      (a.progs i = none ∨ (∃ q, a.progs i = some q ∧ q.finished = false) ∨ UnlinkFailed p.1 a.trace i) := by
  rcases h.shared.pendings k hk with hold | ⟨i, hr⟩
  · exact .inl hold
  · refine .inr ⟨i, hr, ?_⟩
    cases hi : a.progs i with
    | none => exact .inl rfl
    | some q =>
      by_cases hq : q.finished = true
      · obtain ⟨out, -, hclean, -⟩ := h.finished hi hq
        exact .inr (.inr ((hclean k hr).resolve_left hk))
      · exact .inr (.inl ⟨q, rfl, by simpa using hq⟩)

theorem Phase.finished_of_rank {x : Doc} {π : Phase} (h : π.rank = 0) : (π.prog p x).finished = true := by
  cases π with
  | ended out => cases out <;> rfl
  | _ => cases h

theorem Known.ends (h : Known p data s₀ a) {q : Serv Unit} (hi : a.progs i = some q) :
    performed a.trace i ≤ 9 ∧ (performed a.trace i = 9 → q.finished = true) := by
  obtain ⟨π, rfl, -, hcount⟩ := h.each i q hi
  refine ⟨by omega, fun h9 => Phase.finished_of_rank ?_⟩
  omega

/-! ## Sample runs -/

section

omit [DecidableEq ι]

def calls (data : ι → Doc) (d : Files) : Pool host ι Exn Unit :=
  ⟨⟨d, 1000, false, []⟩, fun i => some (writeOriginal (.root, .text) (data i)), []⟩

/-- The path shows `x`, durably. -/
def original (x : Doc) : Files :=
  { disk with
    data := fun _ => x
    disk := fun _ => x
    next := 1
    ent := Function.update (fun _ => none) (.root, .named .text) (some 0)
    entDur := Function.update (fun _ => none) (.root, .named .text) (some 0) }

theorem calls_begin (data : ι → Doc) : Begins (.root, .text) data (calls data disk) where
  calls _ := rfl
  trace := rfl
  directory := show reach disk.slot .root = true by decide
  allocated := by
    constructor
    · intro q j hj
      cases hj
    · intro q j hj
      cases hj

theorem calls_begin_original (data : ι → Doc) (x : Doc) : Begins (.root, .text) data (calls data (original x)) where
  calls _ := rfl
  trace := rfl
  directory := show reach disk.slot .root = true by decide
  allocated := by
    have h : ∀ q j, (original x).ent q = some j → j < 1 := by
      intro q j hj
      simp only [original, Function.update_apply] at hj
      split at hj
      · cases hj
        omega
      · cases hj
    exact ⟨fun q j hj => h q j hj, fun q j hj => h q j hj⟩

end

/-- One call after another takes a turn. -/
def turns (s : Pool host ι Exn Unit) (cs : List (ι × Choice)) : Pool host ι Exn Unit :=
  cs.foldl (fun s c => s.turn c.1 c.2) s

theorem run_turns (cs : List (ι × Choice)) (s : Pool host ι Exn Unit) : Pool.Run s (turns s cs) := by
  induction cs generalizing s with
  | nil => exact .refl
  | cons c cs ih => exact .head (.turn c.1 c.2) (ih _)

def fault : Choice := { Choice.calm with fault := some ⟨default, fun _ => false⟩ }

def contents (b : Bool) : Doc := .text [cond b 'x' 'y']

/-- One call shows its data while the other is writing its own, and wins. -/
def race : Pool host Bool Exn Unit :=
  turns (calls contents disk)
    (List.replicate 3 (true, .calm) ++ List.replicate 5 (false, .calm) ++ List.replicate 4 (true, .calm))

/-! ## The result -/

/-- **Immutable writes are write-once, whatever the interleaving and the faults.** -/
theorem immutable_writes_once (p : Path) (data : ι → Doc) (s₀ s s' : Pool host ι Exn Unit) (h₀ : Begins p data s₀)
    (hs : Pool.Run s₀ s) (hs' : Pool.Run s s') : WriteOnce p data s₀ s s' := by
  obtain ⟨hknown, -⟩ := h₀.known.run hs
  obtain ⟨hlater, hfixed⟩ := hknown.run hs'
  refine ⟨hknown.shared.known, ?_, hfixed, fun i hi => hknown.returned hi, ?_, fun i e hi => hknown.raised hi,
    fun i q hi => hknown.ends hi, fun k hk => hknown.pendings hk⟩
  · intro x hx
    obtain ⟨j, hj, rfl⟩ := hx
    exact (hknown.shared.survives j hj).imp_right fun h => ⟨j, h.1, h.2.symm⟩
  · intro i x hx hne hi
    exact hne (shown_unique (hfixed x hx) (durable_shown (hlater.returned hi)))

theorem immutable_writes_once_race : WriteOnce (.root, .text) contents (calls contents disk) race race :=
  immutable_writes_once _ _ _ _ _ (calls_begin _) (run_turns _ _) .refl

/-- A call whose removal fails leaves its temporary file, and one that cannot read what is there does not raise an
integrity error. -/
theorem immutable_write_fails :
    (∃ s₀ s : Pool host Unit Exn Unit, Begins (.root, .text) (fun _ => .text []) s₀ ∧ Pool.Run s₀ s ∧
      s.progs () = some (.raise .osError) ∧ s.world.disk.ent (.root, .pending 0) = some 0) ∧
    ∃ s₀ s : Pool host Unit Exn Unit, Begins (.root, .text) (fun _ => .text []) s₀ ∧ Pool.Run s₀ s ∧
      s.progs () = some (.raise .osError) ∧ Shown s.world.disk (.root, .text) (.text ['x']) :=
  ⟨⟨_, _, calls_begin _, run_turns (List.replicate 6 ((), .calm) ++ [((), fault)]) _, rfl, rfl⟩,
    ⟨_, _, calls_begin_original _ (.text ['x']), run_turns [((), .calm), ((), fault)] _, rfl, 0, rfl, rfl⟩⟩

end Writer

end Tirke
