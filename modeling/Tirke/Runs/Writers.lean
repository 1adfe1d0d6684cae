import Tirke.Spec.Writers
/-!
# Calls of `_atomic_write(…, immutable=True)` on one path, side by side

`At` says of each phase of a call what it may rely on, and `Frame` what an operation of one call leaves to the others:
what the path shows stays, and so do their temporary files, since `mkstemp` gave each its own (`Shared.distinct`).
-/

namespace Tirke

open CrashProg CrashDisk

namespace Writer

variable {ι : Type} {p : Path} {data : ι → Doc} {s₀ s s' : Files} {t : List (Turn Ops ι)}
  {u : Turn Ops ι} {i i' : ι} {k : Nat} {x : Doc} {π π' : Phase} {out : Except Exn Unit}

/-! ## The trace -/

/-- The call made this temporary file. -/
def Reserved (d : Dir) (t : List (Turn Ops ι)) (i : ι) (k : Nat) : Prop := ⟨i, .file (.mkstemp d), .ok k⟩ ∈ t

/-- A step of the call failed. -/
def Failed (t : List (Turn Ops ι)) (i : ι) : Prop := ∃ o : FileCall, ⟨i, .file o, .error .io⟩ ∈ t

/-- It was the removal of its temporary file. -/
def UnlinkFailed (d : Dir) (t : List (Turn Ops ι)) (i : ι) : Prop :=
  ∃ k, ⟨i, .file (.unlink (d, .pending k) true), .error .io⟩ ∈ t

theorem Failed.cons (h : Failed t i) : Failed (u :: t) i := h.imp fun _ ho => List.mem_cons_of_mem _ ho

theorem UnlinkFailed.cons {d : Dir} (h : UnlinkFailed d t i) : UnlinkFailed d (u :: t) i :=
  h.imp fun _ ho => List.mem_cons_of_mem _ ho

theorem failed_now {o : FileCall} {e : Errno} (h : e = .io) : Failed (⟨i, .file o, .error e⟩ :: t) i :=
  ⟨o, h ▸ List.mem_cons_self⟩

theorem reserved_other {d : Dir} (h : i' ≠ u.actor) : Reserved d (u :: t) i' k ↔ Reserved d t i' k := by
  refine ⟨fun hr => ?_, fun hr => List.mem_cons_of_mem _ hr⟩
  rcases List.mem_cons.1 hr with rfl | hr
  · exact absurd rfl h
  · exact hr

/-- The turn makes a temporary file. -/
def Makes (u : Turn Ops ι) : Prop := ∃ i d k, u = ⟨i, .file (.mkstemp d), .ok k⟩

theorem reserved_cons {d : Dir} (h : ¬ Makes u) : Reserved d (u :: t) i k ↔ Reserved d t i k := by
  refine ⟨fun hr => ?_, fun hr => List.mem_cons_of_mem _ hr⟩
  rcases List.mem_cons.1 hr with rfl | hr
  · exact absurd ⟨_, _, _, rfl⟩ h
  · exact hr

theorem not_makes {o : FileCall} {r : Except Errno o.Value} (h : ∀ d, o ≠ .mkstemp d) : ¬ Makes (⟨i, .file o, r⟩ : Turn Ops ι) := by
  rintro ⟨i', d, k, he⟩
  cases he
  exact h d rfl

theorem not_makes_error {o : FileCall} {e : Errno} : ¬ Makes (⟨i, .file o, .error e⟩ : Turn Ops ι) := by
  rintro ⟨i', d, k, he⟩
  cases he

/-! ## What is known of the disk -/

/-- What the path shows, that its content is durable, and that its entry is, too. -/
def Shown (s : Files) (p : Path) (x : Doc) : Prop := ∃ j, s.ent p.entry = some j ∧ s.data j = x

def Flushed (s : Files) (p : Path) (x : Doc) : Prop := ∃ j, s.ent p.entry = some j ∧ s.data j = x ∧ s.disk j = x

def Durable (s : Files) (p : Path) (x : Doc) : Prop :=
  ∃ j, s.ent p.entry = some j ∧ s.data j = x ∧ s.disk j = x ∧ s.entDur p.entry = some j

/-- What a power failure would leave at the path. -/
def Survives (s : Files) (p : Path) (x : Doc) : Prop := ∃ j, s.entDur p.entry = some j ∧ s.disk j = x

def NoFile (p : Path) (t : List (Turn Ops ι)) (i : ι) : Prop := ∀ k, ¬ Reserved p.1 t i k

/-- The call's one temporary file is in place. -/
structure Pending (s : Files) (p : Path) (t : List (Turn Ops ι)) (i : ι) (k : Nat) : Prop where
  mine : Reserved p.1 t i k
  only : ∀ k', Reserved p.1 t i k' → k' = k
  entry : s.ent (p.1, .pending k) = some k

/-- It is not what the path shows. -/
structure Apart (s : Files) (p : Path) (t : List (Turn Ops ι)) (i : ι) (k : Nat) : Prop extends Pending s p t i k where
  apart : s.ent p.entry ≠ some k ∧ s.entDur p.entry ≠ some k

/-- What the outcome of a call that meant to write `x` says. -/
def Sound (s : Files) (p : Path) (t : List (Turn Ops ι)) (i : ι) (x : Doc) : Except Exn Unit → Prop
  | .ok _ => Durable s p x
  | .error e => Failed t i ∨ (∃ m, e = .integrity m) ∧ ∃ y, y ≠ x ∧ Shown s p y

def At (s : Files) (p : Path) (t : List (Turn Ops ι)) (i : ι) (x : Doc) : Phase → Prop
  | .check | .reserve => NoFile p t i
  | .compare => NoFile p t i ∧ ∃ y, Shown s p y
  | .syncFile => NoFile p t i ∧ Shown s p x
  | .syncParent => NoFile p t i ∧ Flushed s p x
  | .write k => Apart s p t i k
  | .flush k => Apart s p t i k ∧ s.data k = x
  | .link k => Apart s p t i k ∧ s.data k = x ∧ s.disk k = x
  | .recompare k => Apart s p t i k ∧ ∃ y, Shown s p y
  | .resync k => Apart s p t i k ∧ Shown s p x
  | .settle k => Pending s p t i k ∧ Flushed s p x
  | .unlink k out => Pending s p t i k ∧ Sound s p t i x out
  | .ended out => (∀ k, Reserved p.1 t i k → s.ent (p.1, .pending k) = none ∨ UnlinkFailed p.1 t i) ∧ Sound s p t i x out

/-- The calls started on the disk `s₀`. -/
structure Shared (p : Path) (data : ι → Doc) (s₀ s : Files) (t : List (Turn Ops ι)) : Prop where
  reach : CrashDisk.reach s.slot p.1 = true
  below : ∀ j, s.ent p.entry = some j → j < s.next
  belowDur : ∀ j, s.entDur p.entry = some j → j < s.next
  fresh : ∀ i k, Reserved p.1 t i k → k < s.next
  distinct : ∀ i i' k, Reserved p.1 t i k → Reserved p.1 t i' k → i = i'
  known : ∀ x, Shown s p x → Shown s₀ p x ∨ ∃ i, x = data i
  survives : ∀ j, s.entDur p.entry = some j → Survives s₀ p (s.disk j) ∨ s.ent p.entry = some j ∧ s.disk j = s.data j
  pendings : ∀ k, s.ent (p.1, .pending k) ≠ none → s₀.ent (p.1, .pending k) ≠ none ∨ ∃ i, Reserved p.1 t i k

/-! ## What an operation leaves to the others -/

structure Frame (p : Path) (t : List (Turn Ops ι)) (i : ι) (s s' : Files) : Prop where
  slot : s'.slot = s.slot
  next : s.next ≤ s'.next
  path : ∀ j, s.ent p.entry = some j → s'.ent p.entry = some j ∧ s'.data j = s.data j ∧
    (s.disk j = s.data j → s'.disk j = s.data j) ∧ (s.entDur p.entry = some j → s'.entDur p.entry = some j)
  temps : ∀ i' k, i' ≠ i → Reserved p.1 t i' k → s'.ent (p.1, .pending k) = s.ent (p.1, .pending k) ∧
    s'.data k = s.data k ∧ (s.disk k = s.data k → s'.disk k = s.data k) ∧
      (s.ent p.entry ≠ some k ∧ s.entDur p.entry ≠ some k → s'.ent p.entry ≠ some k ∧ s'.entDur p.entry ≠ some k)
  survives : ∀ j, s'.entDur p.entry = some j → s.entDur p.entry = some j ∧ s'.disk j = s.disk j ∨
    s'.ent p.entry = some j ∧ s'.disk j = s'.data j

namespace Frame

theorem refl : Frame p t i s s :=
  ⟨rfl, Nat.le_refl _, fun _ h => ⟨h, rfl, fun h => h, fun h => h⟩, fun _ _ _ _ => ⟨rfl, rfl, fun h => h, fun h => h⟩,
    fun _ h => .inl ⟨h, rfl⟩⟩

theorem synced {j : Nat} {k : Nat} (h : s.disk k = s.data k) : Function.update s.disk j (s.data j) k = s.data k := by
  by_cases hkj : k = j
  · subst hkj
    exact Function.update_self ..
  · rwa [Function.update_of_ne hkj]

/-- The path's file is synced. -/
theorem fsync {j : Nat} (hj : s.ent p.entry = some j) : Frame p t i s { s with disk := Function.update s.disk j (s.data j) } := by
  refine ⟨rfl, Nat.le_refl _, fun j' h => ⟨h, rfl, synced, fun h => h⟩,
    fun _ k _ _ => ⟨rfl, rfl, synced, fun h => h⟩, fun j' hd => ?_⟩
  by_cases hjj : j' = j
  · subst hjj
    exact .inr ⟨hj, Function.update_self ..⟩
  · exact .inl ⟨hd, Function.update_of_ne hjj ..⟩

/-- A call syncs its temporary file. -/
theorem fsyncTemp (ha : Apart s p t i k) : Frame p t i s { s with disk := Function.update s.disk k (s.data k) } := by
  refine ⟨rfl, Nat.le_refl _, fun j' h => ⟨h, rfl, synced, fun h => h⟩,
    fun _ k _ _ => ⟨rfl, rfl, synced, fun h => h⟩, fun j' hd => .inl ⟨hd, Function.update_of_ne ?_ ..⟩⟩
  rintro rfl
  exact ha.apart.2 hd

theorem syncDir {j : Nat} (hj : s.ent p.entry = some j) (hs : s.disk j = s.data j) : Frame p t i s (s.syncDir p.1) := by
  have hdur : (s.syncDir p.1).entDur p.entry = s.ent p.entry := if_pos rfl
  refine ⟨rfl, Nat.le_refl _, fun j h => ⟨h, rfl, fun h => h, fun _ => hdur.trans h⟩,
    fun _ k _ _ => ⟨rfl, rfl, fun h => h, fun h => ⟨h.1, fun hc => h.1 (hdur.symm.trans hc)⟩⟩, fun j' hd => ?_⟩
  have he : s.ent p.entry = some j' := hdur.symm.trans hd
  rw [hj] at he
  cases he
  exact .inr ⟨hj, hs⟩

theorem newFile (h : Shared p data s₀ s t) : Frame p t i s (s.newFile (p.1, .pending s.next)) := by
  have hdata : ∀ k, k < s.next → Function.update s.data s.next default k = s.data k := fun k hk =>
    Function.update_of_ne (by omega) _ _
  have hdisk : ∀ k, k < s.next → Function.update s.disk s.next default k = s.disk k := fun k hk =>
    Function.update_of_ne (by omega) _ _
  have hpath : Function.update s.ent (p.1, .pending s.next) (some s.next) p.entry = s.ent p.entry :=
    Function.update_of_ne (by simp) _ _
  refine ⟨rfl, Nat.le_succ _, fun j hj => ⟨hpath.trans hj, hdata j (h.below j hj), fun hd => ?_, fun hd => hd⟩,
    fun i' k _ hr => ⟨?_, hdata k (h.fresh i' k hr), fun hd => ?_, fun hne => ⟨fun hc => ?_, hne.2⟩⟩,
    fun j hd => .inl ⟨hd, hdisk j (h.belowDur j hd)⟩⟩
  · exact (hdisk j (h.below j hj)).trans hd
  · have hk := h.fresh i' k hr
    exact Function.update_of_ne (by simp; omega) _ _
  · exact (hdisk k (h.fresh i' k hr)).trans hd
  · exact hne.1 (hpath.symm.trans hc)

/-- A call writes to its temporary file, well or badly. -/
theorem write (h : Shared p data s₀ s t) (ha : Apart s p t i k) (y : Doc) :
    Frame p t i s { s with data := Function.update s.data k y } := by
  refine ⟨rfl, Nat.le_refl _, fun j hj => ?_, fun i' k' hi hr => ?_, fun j hd => .inl ⟨hd, rfl⟩⟩
  · have hne : j ≠ k := fun hc => ha.apart.1 (hc ▸ hj)
    exact ⟨hj, Function.update_of_ne hne _ _, fun hd => hd, fun hd => hd⟩
  · have hne : k' ≠ k := fun hc => hi (h.distinct i' i k (hc ▸ hr) ha.mine)
    exact ⟨rfl, Function.update_of_ne hne _ _, fun hd => hd, fun hd => hd⟩

/-- A call shows its temporary file. -/
theorem link (h : Shared p data s₀ s t) (ha : Apart s p t i k) (hn : s.ent p.entry = none) :
    Frame p t i s { s with ent := Function.update s.ent p.entry (some k) } := by
  refine ⟨rfl, Nat.le_refl _, fun j hj => ?_, fun i' k' hi hr => ?_, fun j hd => .inl ⟨hd, rfl⟩⟩
  · rw [hn] at hj
    cases hj
  · refine ⟨Function.update_of_ne (by simp) _ _, rfl, fun hd => hd, fun hne => ⟨?_, hne.2⟩⟩
    show Function.update s.ent p.entry (some k) p.entry ≠ some k'
    rw [Function.update_self]
    intro hc
    cases hc
    exact hi (h.distinct i' i k hr ha.mine)

/-- A call removes its temporary file. -/
theorem unlink (h : Shared p data s₀ s t) (ha : Pending s p t i k) :
    Frame p t i s { s with ent := Function.update s.ent (p.1, .pending k) none } := by
  have hpath : Function.update s.ent (p.1, .pending k) none p.entry = s.ent p.entry :=
    Function.update_of_ne (by simp) _ _
  refine ⟨rfl, Nat.le_refl _, fun j hj => ⟨hpath.trans hj, rfl, fun hd => hd, fun hd => hd⟩, fun i' k' hi hr => ?_,
    fun j hd => .inl ⟨hd, rfl⟩⟩
  refine ⟨Function.update_of_ne ?_ _ _, rfl, fun hd => hd, fun hne => ⟨fun hc => hne.1 (hpath.symm.trans hc), hne.2⟩⟩
  intro hc
  have hk : k' = k := by simpa using hc
  exact hi (h.distinct i' i k (hk ▸ hr) ha.mine)

theorem shown (hf : Frame p t i s s') (h : Shown s p x) : Shown s' p x := by
  obtain ⟨j, hj, hx⟩ := h
  obtain ⟨hj', hx', -⟩ := hf.path j hj
  exact ⟨j, hj', hx'.trans hx⟩

theorem flushed (hf : Frame p t i s s') (h : Flushed s p x) : Flushed s' p x := by
  obtain ⟨j, hj, hx, hd⟩ := h
  obtain ⟨hj', hx', hd', -⟩ := hf.path j hj
  exact ⟨j, hj', hx'.trans hx, (hd' (hd.trans hx.symm)).trans hx⟩

theorem durable (hf : Frame p t i s s') (h : Durable s p x) : Durable s' p x := by
  obtain ⟨j, hj, hx, hd, he⟩ := h
  obtain ⟨hj', hx', hd', he'⟩ := hf.path j hj
  exact ⟨j, hj', hx'.trans hx, (hd' (hd.trans hx.symm)).trans hx, he' he⟩

theorem sound (hf : Frame p t i s s') (h : Sound s p t i' x out) : Sound s' p (u :: t) i' x out := by
  cases out with
  | ok _ => exact hf.durable h
  | error e => exact h.imp Failed.cons fun ⟨hm, y, hy, hs⟩ => ⟨hm, y, hy, hf.shown hs⟩

theorem noFile (hu : u.actor = i) (hi : i' ≠ i) (h : NoFile p t i') : NoFile p (u :: t) i' :=
  fun k hr => h k ((reserved_other (hu ▸ hi)).1 hr)

theorem pending (hf : Frame p t i s s') (hu : u.actor = i) (hi : i' ≠ i) (h : Pending s p t i' k) : Pending s' p (u :: t) i' k where
  mine := (reserved_other (hu ▸ hi)).2 h.mine
  only k' hr := h.only k' ((reserved_other (hu ▸ hi)).1 hr)
  entry := (hf.temps i' k hi h.mine).1.trans h.entry

theorem apart (hf : Frame p t i s s') (hu : u.actor = i) (hi : i' ≠ i) (h : Apart s p t i' k) : Apart s' p (u :: t) i' k where
  toPending := hf.pending hu hi h.toPending
  apart := (hf.temps i' k hi h.mine).2.2.2 h.apart

/-- **What a call relies on is not disturbed by another.** -/
theorem stable (hf : Frame p t i s s') (hu : u.actor = i) (hi : i' ≠ i) (h : At s p t i' x π) : At s' p (u :: t) i' x π := by
  cases π with
  | check | reserve => exact noFile hu hi h
  | compare => exact ⟨noFile hu hi h.1, h.2.imp fun _ => hf.shown⟩
  | syncFile => exact ⟨noFile hu hi h.1, hf.shown h.2⟩
  | syncParent => exact ⟨noFile hu hi h.1, hf.flushed h.2⟩
  | write k => exact hf.apart hu hi h
  | flush k => exact ⟨hf.apart hu hi h.1, (hf.temps i' k hi h.1.mine).2.1.trans h.2⟩
  | link k =>
    obtain ⟨ha, hx, hd⟩ := h
    obtain ⟨-, hx', hd', -⟩ := hf.temps i' k hi ha.mine
    exact ⟨hf.apart hu hi ha, hx'.trans hx, (hd' (hd.trans hx.symm)).trans hx⟩
  | recompare k => exact ⟨hf.apart hu hi h.1, h.2.imp fun _ => hf.shown⟩
  | resync k => exact ⟨hf.apart hu hi h.1, hf.shown h.2⟩
  | settle k => exact ⟨hf.pending hu hi h.1, hf.flushed h.2⟩
  | unlink k out => exact ⟨hf.pending hu hi h.1, hf.sound h.2⟩
  | ended out =>
    refine ⟨fun k hr => ?_, hf.sound h.2⟩
    have hr' := (reserved_other (hu ▸ hi)).1 hr
    exact (h.1 k hr').imp (fun he => (hf.temps i' k hi hr').1.trans he) UnlinkFailed.cons

theorem survives_shared (hf : Frame p t i s s') (h : Shared p data s₀ s t) {j : Nat} (hd : s'.entDur p.entry = some j) :
    Survives s₀ p (s'.disk j) ∨ s'.ent p.entry = some j ∧ s'.disk j = s'.data j := by
  rcases hf.survives j hd with ⟨hd, he⟩ | hs
  · rcases h.survives j hd with hy | ⟨hj, hs⟩
    · rw [he]
      exact .inl hy
    · obtain ⟨hj', hx, hs', -⟩ := hf.path j hj
      exact .inr ⟨hj', (hs' hs).trans hx.symm⟩
  · exact .inr hs

/-- What is shared is kept, too, where the path shows nothing but what it did or the call's own content. -/
theorem shared (hf : Frame p t i s s') (hu : ¬ Makes u) (h : Shared p data s₀ s t)
    (hp : ∀ j, s'.ent p.entry = some j → s.ent p.entry = some j ∨ j < s.next ∧ s'.data j = data i)
    (hk : ∀ k, s.ent (p.1, .pending k) = none → s'.ent (p.1, .pending k) = none) :
    Shared p data s₀ s' (u :: t) where
  reach := by
    rw [hf.slot]
    exact h.reach
  below j hj := by
    have hnext := hf.next
    rcases hp j hj with hj | ⟨hj, -⟩
    · have := h.below j hj
      omega
    · omega
  belowDur j hd := by
    have hnext := hf.next
    rcases hf.survives j hd with ⟨hd, -⟩ | ⟨hj, -⟩
    · have := h.belowDur j hd
      omega
    · rcases hp j hj with hj | ⟨hj, -⟩
      · have := h.below j hj
        omega
      · omega
  fresh i' k hr := Nat.lt_of_lt_of_le (h.fresh i' k ((reserved_cons hu).1 hr)) hf.next
  distinct i₁ i₂ k h₁ h₂ := h.distinct i₁ i₂ k ((reserved_cons hu).1 h₁) ((reserved_cons hu).1 h₂)
  known x hx := by
    obtain ⟨j, hj, hx⟩ := hx
    rcases hp j hj with hj | ⟨-, hd⟩
    · exact h.known x ⟨j, hj, (hf.path j hj).2.1.symm.trans hx⟩
    · exact .inr ⟨i, hx.symm.trans hd⟩
  survives _ hd := hf.survives_shared h hd
  pendings k hne := by
    exact (h.pendings k fun hc => hne (hk k hc)).imp id fun ⟨i', hr⟩ => ⟨i', (reserved_cons hu).2 hr⟩

/-- The path shows nothing new. -/
theorem shared_same (hf : Frame p t i s s') (hu : ¬ Makes u) (h : Shared p data s₀ s t)
    (hp : s'.ent p.entry = s.ent p.entry)
    (hk : ∀ k, s.ent (p.1, .pending k) = none → s'.ent (p.1, .pending k) = none) : Shared p data s₀ s' (u :: t) :=
  hf.shared hu h (fun _ hj => .inl (hp.symm.trans hj)) hk

end Frame

theorem reserved_new {d : Dir} {k' : Nat} (h : Reserved d (⟨i, .file (.mkstemp d), .ok k⟩ :: t) i' k') :
    (i' = i ∧ k' = k) ∨ Reserved d t i' k' := by
  rcases List.mem_cons.1 h with he | h
  · cases he
    exact .inl ⟨rfl, rfl⟩
  · exact .inr h

/-- `mkstemp` gives a file to nobody else. -/
theorem Shared.reserved (h : Shared p data s₀ s t) :
    Shared p data s₀ (s.newFile (p.1, .pending s.next)) (⟨i, .file (.mkstemp p.1), .ok s.next⟩ :: t) := by
  have hpath : Function.update s.ent (p.1, .pending s.next) (some s.next) p.entry = s.ent p.entry :=
    Function.update_of_ne (by simp) _ _
  have hf : Frame p t i s (s.newFile (p.1, .pending s.next)) := Frame.newFile h
  have hfresh : ∀ i' k, Reserved p.1 (⟨i, .file (.mkstemp p.1), .ok s.next⟩ :: t) i' k → k < s.next + 1 := by
    intro i' k hr
    rcases reserved_new hr with ⟨-, rfl⟩ | hr
    · omega
    · have := h.fresh i' k hr
      omega
  refine ⟨h.reach, fun j hj => ?_, fun j hd => Nat.lt_succ_of_lt (h.belowDur j hd), hfresh, fun i₁ i₂ k h₁ h₂ => ?_,
    fun x ⟨j, hj, hx⟩ => ?_, fun j hd => ?_, fun k hne => ?_⟩
  · exact Nat.lt_succ_of_lt (h.below j (hpath.symm.trans hj))
  · rcases reserved_new h₁ with ⟨rfl, rfl⟩ | old₁
    · rcases reserved_new h₂ with ⟨rfl, -⟩ | old₂
      · rfl
      · exact absurd (h.fresh i₂ _ old₂) (Nat.lt_irrefl _)
    · rcases reserved_new h₂ with ⟨rfl, rfl⟩ | old₂
      · exact absurd (h.fresh i₁ _ old₁) (Nat.lt_irrefl _)
      · exact h.distinct i₁ i₂ k old₁ old₂
  · have hj := hpath.symm.trans hj
    exact h.known x ⟨j, hj, (hf.path j hj).2.1.symm.trans hx⟩
  · exact hf.survives_shared h hd
  · by_cases hk : k = s.next
    · subst hk
      exact .inr ⟨i, List.mem_cons_self⟩
    · have he : Function.update s.ent (p.1, .pending s.next) (some s.next) (p.1, .pending k) = s.ent (p.1, .pending k) :=
        Function.update_of_ne (by simpa using hk) _ _
      exact (h.pendings k fun hc => hne (he.trans hc)).imp id fun ⟨i', hr⟩ => ⟨i', List.mem_cons_of_mem _ hr⟩

/-! ## What a call's own operations do -/

section replies

variable {q : Dir × Entry Name} {f : Option Bytes.Fault} {j : Nat} {e : Errno}

theorem lookup_of (hr : reach s.slot q.1 = true) (hj : s.ent q = some j) : s.lookup q = some j := by
  unfold Disk.lookup
  rw [if_pos hr, hj]

theorem test_reply (hr : reach s.slot q.1 = true) :
    s.act (.test q) f = (.ok (s.ent q).isSome, s) ∨ s.act (.test q) f = (.error .io, s) := by
  cases f with
  | none =>
    refine .inl ?_
    simp only [Disk.act, Disk.step, Disk.lookup, if_pos hr]
  | some g => exact .inr rfl

theorem read_reply (hr : reach s.slot q.1 = true) (hj : s.ent q = some j) :
    s.act (.read q) f = (.ok (s.data j), s) ∨ s.act (.read q) f = (.error .io, s) := by
  cases f with
  | none =>
    refine .inl ?_
    simp only [Disk.act, Disk.step, lookup_of hr hj]
  | some g => exact .inr rfl

theorem fsync_reply (hr : reach s.slot q.1 = true) (hj : s.ent q = some j) :
    s.act (.fsync q) f = (.ok (), { s with disk := Function.update s.disk j (s.data j) }) ∨
      s.act (.fsync q) f = (.error .io, s) := by
  cases f with
  | none =>
    refine .inl ?_
    simp only [Disk.act, Disk.step, lookup_of hr hj]
  | some g => exact .inr rfl

theorem syncDir_reply {d : Dir} (hr : reach s.slot d = true) :
    s.act (.syncDir d) f = (.ok (), s.syncDir d) ∨ s.act (.syncDir d) f = (.error .io, s) := by
  cases f with
  | none =>
    refine .inl ?_
    simp only [Disk.act, Disk.step, if_pos hr]
  | some g => exact .inr rfl

theorem mkstemp_reply {d : Dir} (hr : reach s.slot d = true) :
    s.act (.mkstemp d) f = (.ok s.next, s.newFile (d, .pending s.next)) ∨ s.act (.mkstemp d) f = (.error .io, s) := by
  cases f with
  | none =>
    refine .inl ?_
    simp only [Disk.act, Disk.step, if_pos hr]
  | some g => exact .inr rfl

theorem write_reply (hr : reach s.slot q.1 = true) (hj : s.ent q = some j) (x : Doc) :
    s.act (.write q x) f = (.ok (), { s with data := Function.update s.data j x }) ∨
      ∃ y, s.act (.write q x) f = (.error .io, { s with data := Function.update s.data j y }) := by
  cases f with
  | none =>
    refine .inl ?_
    simp only [Disk.act, Disk.step, lookup_of hr hj]
  | some g =>
    refine .inr ⟨g.torn, ?_⟩
    simp only [Disk.act, Disk.fail, lookup_of hr hj]

theorem link_reply {dst : Dir × Entry Name} (hr : reach s.slot q.1 = true) (hr' : reach s.slot dst.1 = true)
    (hj : s.ent q = some j) :
    (s.ent dst = none ∧ s.act (.link q dst) f = (.ok (), { s with ent := Function.update s.ent dst (some j) })) ∨
      ((∃ j', s.ent dst = some j') ∧ s.act (.link q dst) f = (.error .exists, s)) ∨
      s.act (.link q dst) f = (.error .io, s) := by
  cases f with
  | none =>
    cases hdst : s.ent dst with
    | none =>
      have hl : s.lookup dst = none := by
        unfold Disk.lookup
        rw [if_pos hr', hdst]
      refine .inl ⟨rfl, ?_⟩
      simp only [Disk.act, Disk.step, lookup_of hr hj, hl]
      rfl
    | some j' =>
      refine .inr (.inl ⟨⟨j', rfl⟩, ?_⟩)
      simp only [Disk.act, Disk.step, lookup_of hr hj, lookup_of hr' hdst]
      rfl
  | some g => exact .inr (.inr rfl)

theorem unlink_reply (hr : reach s.slot q.1 = true) (hj : s.ent q = some j) :
    s.act (.unlink q true) f = (.ok (), { s with ent := Function.update s.ent q none }) ∨
      s.act (.unlink q true) f = (.error .io, s) := by
  cases f with
  | none =>
    refine .inl ?_
    simp only [Disk.act, Disk.step, lookup_of hr hj]
  | some g => exact .inr rfl

end replies

theorem NoFile.cons (hu : ¬ Makes u) (h : NoFile p t i) : NoFile p (u :: t) i := fun k hr => h k ((reserved_cons hu).1 hr)

theorem Pending.cons (hu : ¬ Makes u) (h : Pending s p t i k) (he : s'.ent (p.1, .pending k) = s.ent (p.1, .pending k)) :
    Pending s' p (u :: t) i k where
  mine := (reserved_cons hu).2 h.mine
  only k' hr := h.only k' ((reserved_cons hu).1 hr)
  entry := he.trans h.entry

/-- The call's temporary file is not touched, nor what the path shows. -/
theorem Apart.cons (hu : ¬ Makes u) (h : Apart s p t i k) (he : s'.ent = s.ent) (hd : s'.entDur = s.entDur) :
    Apart s' p (u :: t) i k where
  toPending := h.toPending.cons hu (congrFun he _)
  apart := by
    rw [he, hd]
    exact h.apart

theorem Sound.cons (h : Sound s p t i x out) : Sound s p (u :: t) i x out := by
  cases out with
  | ok _ => exact h
  | error e => exact h.imp Failed.cons id

/-- The operation leads from `s` to `s'` and the call to `π`. -/
structure Took (p : Path) (data : ι → Doc) (s₀ s : Files) (t : List (Turn Ops ι)) (i : ι) (s' : Files)
    (u : Turn Ops ι) (π : Phase) : Prop where
  frame : Frame p t i s s'
  shared : Shared p data s₀ s' (u :: t)
  reached : At s' p (u :: t) i (data i) π

theorem Took.same (h : Shared p data s₀ s t) (hu : ¬ Makes u) (ha : At s p (u :: t) i (data i) π) :
    Took p data s₀ s t i s u π :=
  ⟨.refl, (Frame.refl (i := i)).shared_same hu h rfl fun _ hn => hn, ha⟩

/-- A step that fails before there is a temporary file ends the call. -/
theorem Took.gaveUp {o : FileCall} (h : Shared p data s₀ s t) (hn : NoFile p t i) :
    Took p data s₀ s t i s ⟨i, .file o, .error .io⟩ (.ended (.error .osError)) :=
  .same h not_makes_error ⟨fun k hr => absurd hr (hn.cons not_makes_error k), .inl (failed_now rfl)⟩

/-- A later one makes it remove the file. -/
theorem Took.backedOut {o : FileCall} (h : Shared p data s₀ s t) (hp : Pending s p t i k) :
    Took p data s₀ s t i s ⟨i, .file o, .error .io⟩ (.unlink k (.error .osError)) :=
  .same h not_makes_error ⟨hp.cons not_makes_error rfl, .inl (failed_now rfl)⟩

section own

variable {f : Option Bytes.Fault} {o : FileCall}

theorem own_check (h : Shared p data s₀ s t) (ha : At s p t i (data i) .check)
    (hn : Phase.Next p (data i) .check o (s.act o f).1 π') :
    Took p data s₀ s t i (s.act o f).2 ⟨i, .file o, (s.act o f).1⟩ π' := by
  obtain rfl := Option.some.inj hn.next
  rcases test_reply (q := p.entry) (f := f) h.reach with he | he
  · cases hj : s.ent p.entry with
    | none =>
      rw [hj] at he
      rw [he] at hn ⊢
      cases hn
      exact .same h (not_makes nofun) (ha.cons (not_makes nofun))
    | some j =>
      rw [hj] at he
      rw [he] at hn ⊢
      cases hn
      exact .same h (not_makes nofun) ⟨ha.cons (not_makes nofun), _, j, hj, rfl⟩
  · rw [he] at hn ⊢
    cases hn
    exact .gaveUp h ha

theorem own_compare (h : Shared p data s₀ s t) (ha : At s p t i (data i) .compare)
    (hn : Phase.Next p (data i) .compare o (s.act o f).1 π') :
    Took p data s₀ s t i (s.act o f).2 ⟨i, .file o, (s.act o f).1⟩ π' := by
  obtain rfl := Option.some.inj hn.next
  obtain ⟨hno, y, j, hj, hy⟩ := ha
  rcases read_reply (q := p.entry) (f := f) h.reach hj with he | he
  · rw [hy] at he
    rw [he] at hn ⊢
    cases hn with
    | same => exact .same h (not_makes nofun) ⟨hno.cons (not_makes nofun), j, hj, hy⟩
    | differs _ hne =>
      have hno' := hno.cons (not_makes (i := i) (o := .read p.entry) (r := .ok y) nofun)
      exact .same h (not_makes nofun) ⟨fun k hr => absurd hr (hno' k), .inr ⟨⟨_, rfl⟩, y, hne, j, hj, hy⟩⟩
  · rw [he] at hn ⊢
    cases hn
    exact .gaveUp h hno

theorem own_syncFile (h : Shared p data s₀ s t) (ha : At s p t i (data i) .syncFile)
    (hn : Phase.Next p (data i) .syncFile o (s.act o f).1 π') :
    Took p data s₀ s t i (s.act o f).2 ⟨i, .file o, (s.act o f).1⟩ π' := by
  obtain rfl := Option.some.inj hn.next
  obtain ⟨hno, j, hj, hx⟩ := ha
  rcases fsync_reply (q := p.entry) (f := f) h.reach hj with he | he
  · rw [he] at hn ⊢
    cases hn
    have hf : Frame p t i s _ := Frame.fsync hj
    exact ⟨hf, hf.shared_same (not_makes nofun) h rfl fun _ hn => hn, hno.cons (not_makes nofun), j, hj, hx, by simp [hx]⟩
  · rw [he] at hn ⊢
    cases hn
    exact .gaveUp h hno

theorem own_syncParent (h : Shared p data s₀ s t) (ha : At s p t i (data i) .syncParent)
    (hn : Phase.Next p (data i) .syncParent o (s.act o f).1 π') :
    Took p data s₀ s t i (s.act o f).2 ⟨i, .file o, (s.act o f).1⟩ π' := by
  obtain rfl := Option.some.inj hn.next
  obtain ⟨hno, j, hj, hx, hd⟩ := ha
  rcases syncDir_reply (f := f) h.reach with he | he
  · rw [he] at hn ⊢
    cases hn
    have hf : Frame p t i s _ := Frame.syncDir hj (hd.trans hx.symm)
    have hno' := hno.cons (not_makes (i := i) (o := .syncDir p.1) (r := .ok ()) nofun)
    exact ⟨hf, hf.shared_same (not_makes nofun) h rfl fun _ hn => hn, fun k hr => absurd hr (hno' k), j, hj, hx, hd, (if_pos rfl).trans hj⟩
  · rw [he] at hn ⊢
    cases hn
    exact .gaveUp h hno

theorem own_reserve (h : Shared p data s₀ s t) (ha : At s p t i (data i) .reserve)
    (hn : Phase.Next p (data i) .reserve o (s.act o f).1 π') :
    Took p data s₀ s t i (s.act o f).2 ⟨i, .file o, (s.act o f).1⟩ π' := by
  obtain rfl := Option.some.inj hn.next
  rcases mkstemp_reply (f := f) h.reach with he | he
  · rw [he] at hn ⊢
    cases hn
    have hpath : Function.update s.ent (p.1, .pending s.next) (some s.next) p.entry = s.ent p.entry :=
      Function.update_of_ne (by simp) _ _
    refine ⟨.newFile h, h.reserved, ⟨List.mem_cons_self, fun k hr => ?_, Function.update_self ..⟩, fun hj => ?_, fun hd => ?_⟩
    · exact (reserved_new hr).elim (·.2) fun hr => absurd hr (ha k)
    · exact absurd (h.below s.next (hpath.symm.trans hj)) (Nat.lt_irrefl _)
    · exact absurd (h.belowDur s.next hd) (Nat.lt_irrefl _)
  · rw [he] at hn ⊢
    cases hn
    exact .gaveUp h ha

theorem own_write {k : Nat} (h : Shared p data s₀ s t) (ha : At s p t i (data i) (.write k))
    (hn : Phase.Next p (data i) (.write k) o (s.act o f).1 π') :
    Took p data s₀ s t i (s.act o f).2 ⟨i, .file o, (s.act o f).1⟩ π' := by
  obtain rfl := Option.some.inj hn.next
  rcases write_reply (q := (p.1, .pending k)) (f := f) h.reach ha.entry (data i) with he | ⟨y, he⟩
  · rw [he] at hn ⊢
    cases hn
    have hf : Frame p t i s _ := Frame.write h ha (data i)
    exact ⟨hf, hf.shared_same (not_makes nofun) h rfl fun _ hn => hn, ha.cons (not_makes nofun) rfl rfl, Function.update_self ..⟩
  · rw [he] at hn ⊢
    cases hn
    have hf : Frame p t i s _ := Frame.write h ha y
    exact ⟨hf, hf.shared_same not_makes_error h rfl fun _ hn => hn, ha.toPending.cons not_makes_error rfl, .inl (failed_now rfl)⟩

theorem own_flush {k : Nat} (h : Shared p data s₀ s t) (ha : At s p t i (data i) (.flush k))
    (hn : Phase.Next p (data i) (.flush k) o (s.act o f).1 π') :
    Took p data s₀ s t i (s.act o f).2 ⟨i, .file o, (s.act o f).1⟩ π' := by
  obtain rfl := Option.some.inj hn.next
  obtain ⟨hap, hx⟩ := ha
  rcases fsync_reply (q := (p.1, .pending k)) (f := f) h.reach hap.entry with he | he
  · rw [he] at hn ⊢
    cases hn
    have hf : Frame p t i s _ := Frame.fsyncTemp hap
    exact ⟨hf, hf.shared_same (not_makes nofun) h rfl fun _ hn => hn, hap.cons (not_makes nofun) rfl rfl, hx,
      (Function.update_self ..).trans hx⟩
  · rw [he] at hn ⊢
    cases hn
    exact .backedOut h hap.toPending

theorem own_link {k : Nat} (h : Shared p data s₀ s t) (ha : At s p t i (data i) (.link k))
    (hn : Phase.Next p (data i) (.link k) o (s.act o f).1 π') :
    Took p data s₀ s t i (s.act o f).2 ⟨i, .file o, (s.act o f).1⟩ π' := by
  obtain rfl := Option.some.inj hn.next
  obtain ⟨hap, hx, hd⟩ := ha
  rcases @link_reply _ (p.1, .pending k) f _ p.entry h.reach h.reach hap.entry with
    ⟨hnone, he⟩ | ⟨⟨j, hj⟩, he⟩ | he
  · rw [he] at hn ⊢
    cases hn
    have hf : Frame p t i s _ := Frame.link h hap hnone
    have hp : Function.update s.ent p.entry (some k) (p.1, .pending k) = s.ent (p.1, .pending k) :=
      Function.update_of_ne (by simp) _ _
    refine ⟨hf, hf.shared (not_makes nofun) h (fun j hj => ?_) fun k' hk => ?_, hap.toPending.cons (not_makes nofun) hp, k,
      ?_, hx, hd⟩
    · have hj : Function.update s.ent p.entry (some k) p.entry = some j := hj
      rw [Function.update_self] at hj
      cases hj
      exact .inr ⟨h.fresh i k hap.mine, hx⟩
    · exact (Function.update_of_ne (by simp) _ _).trans hk
    · exact Function.update_self ..
  · rw [he] at hn ⊢
    cases hn with
    | lost => exact .same h not_makes_error ⟨hap.cons not_makes_error rfl rfl, _, j, hj, rfl⟩
    | linkFailed _ _ hne => exact absurd rfl hne
  · rw [he] at hn ⊢
    cases hn
    exact .backedOut h hap.toPending

theorem own_recompare {k : Nat} (h : Shared p data s₀ s t) (ha : At s p t i (data i) (.recompare k))
    (hn : Phase.Next p (data i) (.recompare k) o (s.act o f).1 π') :
    Took p data s₀ s t i (s.act o f).2 ⟨i, .file o, (s.act o f).1⟩ π' := by
  obtain rfl := Option.some.inj hn.next
  obtain ⟨hap, y, j, hj, hy⟩ := ha
  rcases read_reply (q := p.entry) (f := f) h.reach hj with he | he
  · rw [hy] at he
    rw [he] at hn ⊢
    cases hn with
    | sameAgain => exact .same h (not_makes nofun) ⟨hap.cons (not_makes nofun) rfl rfl, j, hj, hy⟩
    | conflicts _ _ hne =>
      exact .same h (not_makes nofun)
        ⟨hap.toPending.cons (not_makes nofun) rfl, .inr ⟨⟨_, rfl⟩, y, hne, j, hj, hy⟩⟩
  · rw [he] at hn ⊢
    cases hn
    exact .backedOut h hap.toPending

theorem own_resync {k : Nat} (h : Shared p data s₀ s t) (ha : At s p t i (data i) (.resync k))
    (hn : Phase.Next p (data i) (.resync k) o (s.act o f).1 π') :
    Took p data s₀ s t i (s.act o f).2 ⟨i, .file o, (s.act o f).1⟩ π' := by
  obtain rfl := Option.some.inj hn.next
  obtain ⟨hap, j, hj, hx⟩ := ha
  rcases fsync_reply (q := p.entry) (f := f) h.reach hj with he | he
  · rw [he] at hn ⊢
    cases hn
    have hf : Frame p t i s _ := Frame.fsync hj
    exact ⟨hf, hf.shared_same (not_makes nofun) h rfl fun _ hn => hn, hap.toPending.cons (not_makes nofun) rfl, j, hj, hx, by simp [hx]⟩
  · rw [he] at hn ⊢
    cases hn
    exact .backedOut h hap.toPending

theorem own_settle {k : Nat} (h : Shared p data s₀ s t) (ha : At s p t i (data i) (.settle k))
    (hn : Phase.Next p (data i) (.settle k) o (s.act o f).1 π') :
    Took p data s₀ s t i (s.act o f).2 ⟨i, .file o, (s.act o f).1⟩ π' := by
  obtain rfl := Option.some.inj hn.next
  obtain ⟨hpe, j, hj, hx, hd⟩ := ha
  rcases syncDir_reply (f := f) h.reach with he | he
  · rw [he] at hn ⊢
    cases hn
    have hf : Frame p t i s _ := Frame.syncDir hj (hd.trans hx.symm)
    exact ⟨hf, hf.shared_same (not_makes nofun) h rfl fun _ hn => hn, hpe.cons (not_makes nofun) rfl, j, hj, hx, hd, (if_pos rfl).trans hj⟩
  · rw [he] at hn ⊢
    cases hn
    exact .backedOut h hpe

theorem own_unlink {k : Nat} (h : Shared p data s₀ s t) (ha : At s p t i (data i) (.unlink k out))
    (hn : Phase.Next p (data i) (.unlink k out) o (s.act o f).1 π') :
    Took p data s₀ s t i (s.act o f).2 ⟨i, .file o, (s.act o f).1⟩ π' := by
  obtain rfl := Option.some.inj hn.next
  obtain ⟨hpe, hsound⟩ := ha
  rcases unlink_reply (q := (p.1, .pending k)) (f := f) h.reach hpe.entry with he | he
  · rw [he] at hn ⊢
    cases hn
    have hf : Frame p t i s _ := Frame.unlink h hpe
    have hp : Function.update s.ent (p.1, .pending k) none p.entry = s.ent p.entry := Function.update_of_ne (by simp) _ _
    refine ⟨hf, hf.shared_same (not_makes nofun) h hp fun k' hn => ?_, fun k' hr => .inl ?_, hf.sound hsound⟩
    · show Function.update s.ent (p.1, .pending k) none (p.1, .pending k') = none
      rw [Function.update_apply, hn, ite_self]
    · have hu : ¬ Makes (⟨i, .file (.unlink (p.1, .pending k) true), .ok ()⟩ : Turn Ops ι) := not_makes nofun
      obtain rfl := hpe.only k' ((reserved_cons hu).1 hr)
      exact Function.update_self ..
  · rw [he] at hn ⊢
    cases hn
    exact .same h not_makes_error ⟨fun k' _ => .inr ⟨k, List.mem_cons_self⟩, .inl (failed_now rfl)⟩

/-- **A call's own operation leads to what the next phase relies on.** -/
theorem own (h : Shared p data s₀ s t) (ha : At s p t i (data i) π)
    (hn : Phase.Next p (data i) π o (s.act o f).1 π') :
    Took p data s₀ s t i (s.act o f).2 ⟨i, .file o, (s.act o f).1⟩ π' := by
  cases π with
  | check => exact own_check h ha hn
  | compare => exact own_compare h ha hn
  | syncFile => exact own_syncFile h ha hn
  | syncParent => exact own_syncParent h ha hn
  | reserve => exact own_reserve h ha hn
  | write k => exact own_write h ha hn
  | flush k => exact own_flush h ha hn
  | link k => exact own_link h ha hn
  | recompare k => exact own_recompare h ha hn
  | resync k => exact own_resync h ha hn
  | settle k => exact own_settle h ha hn
  | unlink k out => exact own_unlink h ha hn
  | ended out => cases hn.next

end own

/-! ## All calls -/

variable [DecidableEq ι] {w : World}

/-- How many operations the call has performed. -/
def performed (t : List (Turn Ops ι)) (i : ι) : Nat := t.countP fun u => u.actor = i

theorem performed_own {o : Op} {r : o.Reply} : performed (⟨i, o, r⟩ :: t : List (Turn Ops ι)) i = performed t i + 1 := by
  simp [performed]

theorem performed_other (h : u.actor ≠ i) : performed (u :: t) i = performed t i := by
  simp [performed, h]

/-- What is left of a call is a phase of it. -/
def Calls (p : Path) (data : ι → Doc) (i : ι) (q : Serv Unit) (w : World) (t : List (Turn Ops ι)) : Prop :=
  ∃ π : Phase, q = π.prog p (data i) ∧ At w.disk p t i (data i) π ∧ performed t i + π.rank ≤ 9

theorem Calls.turn {o : Op} {k : o.Reply → Serv Unit} (h : Shared p data s₀ w.disk t) (hc : Calls p data i (.op o k) w t)
    (c : Choice) : ∃ π', k (World.act o c w).1 = π'.prog p (data i) ∧
      Took p data s₀ w.disk t i (World.act o c w).2.disk ⟨i, o, (World.act o c w).1⟩ π' ∧
        performed (⟨i, o, (World.act o c w).1⟩ :: t) i + π'.rank ≤ 9 := by
  obtain ⟨π, hp, ha, hcount⟩ := hc
  have htakes := Phase.takes p (data i) π
  rw [← hp] at htakes
  cases o with
  | file f =>
    obtain ⟨π', hn, hk⟩ := htakes (w.disk.act f c.fault).1
    have hrank := hn.rank
    refine ⟨π', hk, own h ha hn, ?_⟩
    rw [performed_own]
    omega
  | ask q | now | flock b | stale | respond pdf => exact htakes.elim

theorem correct : Pool.Correct (M := host) (fun (w : World) t => Shared p data s₀ w.disk t) (Calls p data) := by
  intro i o k c w t h hc
  obtain ⟨π', hk, htook, hcount⟩ := hc.turn h c
  exact ⟨htook.shared, π', hk, htook.reached, hcount⟩

theorem undisturbed : Pool.Undisturbed (M := host) (fun (w : World) t => Shared p data s₀ w.disk t) (Calls p data) := by
  intro i j o k c w t q hij h hc hq
  obtain ⟨π', -, htook, -⟩ := hc.turn h c
  obtain ⟨π, hp, ha, hcount⟩ := hq
  refine ⟨π, hp, htook.frame.stable rfl (Ne.symm hij) ha, ?_⟩
  rw [performed_other hij]
  exact hcount

/-- All calls are about to start, in a directory that is there. -/
structure Begins (p : Path) (data : ι → Doc) (s : Pool host ι Exn Unit) : Prop where
  calls : ∀ i, s.progs i = some (writeOriginal p (data i))
  trace : s.trace = []
  directory : reach s.world.disk.slot p.1 = true
  allocated : s.world.disk.Allocated

abbrev Known (p : Path) (data : ι → Doc) (s₀ : Files) (s : Pool host ι Exn Unit) : Prop :=
  s.Annotated (fun (w : World) t => Shared p data s₀ w.disk t) (Calls p data)

variable {a a' b : Pool host ι Exn Unit}

theorem Begins.known (h : Begins p data a) : Known p data a.world.disk a where
  shared := by
    rw [h.trace]
    exact ⟨h.directory, fun j hj => h.allocated.1 _ j hj, fun j hj => h.allocated.2 _ j hj, nofun, nofun,
      fun _ hx => .inl hx, fun j hd => .inl ⟨j, hd, rfl⟩, fun _ hk => .inl hk⟩
  each i q hq := by
    rw [h.calls i] at hq
    cases hq
    rw [h.trace]
    exact ⟨.check, rfl, nofun, Nat.le_refl _⟩

theorem Known.step (h : Known p data s₀ a) (hs : a.Step b) :
    Known p data s₀ b ∧ ∀ x, Shown a.world.disk p x → Shown b.world.disk p x := by
  cases hs with
  | turn i c =>
    refine ⟨h.turn correct undisturbed i c, fun x hx => ?_⟩
    unfold Pool.turn
    split
    · next o k hp =>
      obtain ⟨π', -, htook, -⟩ := (h.each i _ hp).turn h.shared c
      exact htook.frame.shown hx
    · exact hx
  | crash i =>
    refine ⟨h.crash i, fun x hx => ?_⟩
    unfold Pool.crash
    split
    · exact hx
    · exact hx

theorem Known.run (h : Known p data s₀ a) (hs : Pool.Run a b) :
    Known p data s₀ b ∧ ∀ x, Shown a.world.disk p x → Shown b.world.disk p x := by
  induction hs with
  | refl => exact ⟨h, fun _ hx => hx⟩
  | tail _ hstep ih =>
    obtain ⟨hk, hshown⟩ := ih.1.step hstep
    exact ⟨hk, fun x hx => hshown x (ih.2 x hx)⟩

end Writer

end Tirke
