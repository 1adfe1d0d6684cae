import Mathlib.Logic.Function.Basic
import Mathlib.Data.Option.Basic
/-!
# A crash-consistent file system

Files are inodes with a cached and a durable content; a directory has cached and durable entries.
`fsync` of a file makes its content durable, `syncDir` makes a directory's entries (and the
presence of its sub-directories) durable, and `power` keeps only what is durable.

Two levels:

* `Disk` is the inode level: names point at inodes, a temporary file is an inode of its own, `link`
  and `replace` move names.
* `Images` is what a client cares about: which content each name shows now (`vol`) and would show
  after a power failure (`dur`). Temporary and lock files are not part of it.

`images_act` is the refinement: an operation used with discipline (content is synced before it gets
a name, a named file is not written in place once shared) changes the images exactly by the
`Effect` it is said to have, and most operations have none.
-/

set_option linter.unusedSectionVars false

namespace CrashDisk

/-- An entry of a directory: a name, a temporary file made by `mkstemp`, or a lock file. -/
inductive Entry (Name : Type) where
  | named (n : Name)
  | pending (k : Nat)
  | lock
deriving DecidableEq

/-- Where a directory is: under its own name, or moved aside under a tag. -/
inductive Slot (Tag : Type) where
  | absent
  | live
  | moved (t : Tag)
deriving DecidableEq

/-- `chain d` is the directory and its parents, innermost first. -/
class DirTree (Dir : Type) where
  chain : Dir → List Dir

def parent {Dir : Type} [DirTree Dir] (d : Dir) : Option Dir := (DirTree.chain d).tail.head?

inductive Errno where
  | io
  | notFound
  | exists
deriving DecidableEq, Repr

/-- What a failing operation may leave behind: a torn content, a partial removal. -/
structure Fault (Dir Name Data : Type) where
  torn : Data
  left : Dir × Name → Bool

variable {Dir Name Tag Data : Type}

structure Disk (Dir Name Tag Data : Type) where
  data : Nat → Data
  disk : Nat → Data
  next : Nat
  ent : Dir × Entry Name → Option Nat
  entDur : Dir × Entry Name → Option Nat
  slot : Dir → Slot Tag
  slotDur : Dir → Slot Tag

inductive FileOp (Dir Name Tag Data : Type) where
  | test (p : Dir × Entry Name)
  | read (p : Dir × Entry Name)
  | mkstemp (d : Dir)
  | create (p : Dir × Entry Name)
  | openLock (d : Dir)
  | write (p : Dir × Entry Name) (x : Data)
  | fsync (p : Dir × Entry Name)
  | link (src dst : Dir × Entry Name)
  | replace (src dst : Dir × Entry Name)
  | unlink (p : Dir × Entry Name) (missingOk : Bool)
  | mkdir (d : Dir)
  | syncDir (d : Dir)
  | rename (d : Dir) (t : Tag)
  | restore (d : Dir)
  | rmtree (d : Dir)
  | probe (d : Dir)

/-- What an operation returns when it succeeds. -/
def FileOp.Value : FileOp Dir Name Tag Data → Type
  | .test _ => Bool
  | .read _ => Data
  | .mkstemp _ => Nat
  | .probe _ => Slot Tag
  | _ => Unit

section
variable [DirTree Dir] [DecidableEq Dir] [DecidableEq Name] [DecidableEq Tag] [Inhabited Data]

/-- A path resolves when every directory on it is present under its own name. -/
def reach (slot : Dir → Slot Tag) (d : Dir) : Bool :=
  (DirTree.chain d).all fun c => slot c = .live

/-- The directories under `d`, itself included. -/
def under (d c : Dir) : Bool := (DirTree.chain c).contains d

namespace Disk

def lookup (s : Disk Dir Name Tag Data) (p : Dir × Entry Name) : Option Nat :=
  if reach s.slot p.1 then s.ent p else none

/-- A new, empty inode under `p`. -/
def newFile (s : Disk Dir Name Tag Data) (p : Dir × Entry Name) : Disk Dir Name Tag Data :=
  { s with
    data := Function.update s.data s.next default
    disk := Function.update s.disk s.next default
    ent := Function.update s.ent p (some s.next)
    next := s.next + 1 }

def syncDir (s : Disk Dir Name Tag Data) (d : Dir) : Disk Dir Name Tag Data :=
  { s with
    entDur := fun q => if q.1 = d then s.ent q else s.entDur q
    slotDur := fun c => if parent c = some d then s.slot c else s.slotDur c }

def wipe (s : Disk Dir Name Tag Data) (d : Dir) (left : Dir × Name → Bool) : Disk Dir Name Tag Data :=
  { s with
    ent := fun q => if under d q.1 then
        match q.2 with
        | .named n => if left (q.1, n) then s.ent q else none
        | _ => none
      else s.ent q }

/-- A power failure keeps only what is durable. -/
def power (s : Disk Dir Name Tag Data) : Disk Dir Name Tag Data :=
  { s with data := s.disk, ent := s.entDur, slot := s.slotDur }

/-- A content changes, or is lost, behind the clients' backs. -/
def damage (s : Disk Dir Name Tag Data) (p : Dir × Name) : Option Data → Disk Dir Name Tag Data
  | some x =>
    { s with
      data := Function.update s.data s.next x
      disk := Function.update s.disk s.next x
      ent := Function.update s.ent (p.1, .named p.2) (some s.next)
      entDur := Function.update s.entDur (p.1, .named p.2) (some s.next)
      next := s.next + 1 }
  | none =>
    { s with
      ent := Function.update s.ent (p.1, .named p.2) none
      entDur := Function.update s.entDur (p.1, .named p.2) none }

/-- The operation succeeds, or fails for a reason that lies in the file system's state. -/
def step (s : Disk Dir Name Tag Data) :
    (o : FileOp Dir Name Tag Data) → Except Errno o.Value × Disk Dir Name Tag Data
  | .test p => (.ok (s.lookup p).isSome, s)
  | .read p => match s.lookup p with
    | some i => (.ok (s.data i), s)
    | none => (.error .notFound, s)
  | .mkstemp d =>
    if reach s.slot d then (.ok s.next, s.newFile (d, .pending s.next)) else (.error .notFound, s)
  | .create p =>
    if reach s.slot p.1 then
      if (s.ent p).isSome then (.error .exists, s) else (.ok (), s.newFile p)
    else (.error .notFound, s)
  | .openLock d =>
    if reach s.slot d then
      (.ok (), if (s.ent (d, .lock)).isSome then s else s.newFile (d, .lock))
    else (.error .notFound, s)
  | .write p x => match s.lookup p with
    | some i => (.ok (), { s with data := Function.update s.data i x })
    | none => (.error .notFound, s)
  | .fsync p => match s.lookup p with
    | some i => (.ok (), { s with disk := Function.update s.disk i (s.data i) })
    | none => (.error .notFound, s)
  | .link src dst => match s.lookup src with
    | some i =>
      if (s.lookup dst).isSome then (.error .exists, s)
      else (.ok (), { s with ent := Function.update s.ent dst (some i) })
    | none => (.error .notFound, s)
  | .replace src dst => match s.lookup src with
    | some i => (.ok (), { s with ent := Function.update (Function.update s.ent dst (some i)) src none })
    | none => (.error .notFound, s)
  | .unlink p missingOk => match s.lookup p with
    | some _ => (.ok (), { s with ent := Function.update s.ent p none })
    | none => (if missingOk then .ok () else .error .notFound, s)
  | .mkdir d =>
    if (DirTree.chain d).tail.all fun c => s.slot c = .live then
      (.ok (), if s.slot d = .absent then { s with slot := Function.update s.slot d .live } else s)
    else (.error .notFound, s)
  | .syncDir d => if reach s.slot d then (.ok (), s.syncDir d) else (.error .notFound, s)
  | .rename d t =>
    if reach s.slot d then (.ok (), { s with slot := Function.update s.slot d (.moved t) })
    else (.error .notFound, s)
  | .restore d => (.ok (), { s with slot := Function.update s.slot d .live })
  | .rmtree d =>
    (.ok (), { s.wipe d (fun _ => false) with slot := Function.update s.slot d .absent })
  | .probe d => (.ok (s.slot d), s)

/-- The operation fails with `EIO`: a write may have landed partly, a removal may be partial. -/
def fail (s : Disk Dir Name Tag Data) (f : Fault Dir Name Data) : FileOp Dir Name Tag Data → Disk Dir Name Tag Data
  | .write p _ => match s.lookup p with
    | some i => { s with data := Function.update s.data i f.torn }
    | none => s
  | .rmtree d => s.wipe d f.left
  | _ => s

def act (s : Disk Dir Name Tag Data) (o : FileOp Dir Name Tag Data) :
    Option (Fault Dir Name Data) → Except Errno o.Value × Disk Dir Name Tag Data
  | none => s.step o
  | some f => (.error .io, s.fail f o)

end Disk

/-! ## Images -/

/-- What the names show now and what they would show after a power failure. -/
structure Images (Dir Name Tag Data : Type) where
  vol : Dir × Name → Option Data
  dur : Dir × Name → Option Data
  slot : Dir → Slot Tag
  slotDur : Dir → Slot Tag

/-- A visible change of the file system. -/
inductive Effect (Dir Name Tag Data : Type) where
  | put (p : Dir × Name) (x : Data)
  | removed (p : Dir × Name)
  | made (d : Dir)
  | synced (d : Dir)
  | renamed (d : Dir) (t : Tag)
  | restored (d : Dir)
  | wiped (d : Dir) (left : Option (Dir × Name → Bool))

namespace Images

def look (i : Images Dir Name Tag Data) (p : Dir × Name) : Option Data :=
  if reach i.slot p.1 then i.vol p else none

def apply (i : Images Dir Name Tag Data) : Effect Dir Name Tag Data → Images Dir Name Tag Data
  | .put p x => { i with vol := Function.update i.vol p (some x) }
  | .removed p => { i with vol := Function.update i.vol p none }
  | .made d => { i with slot := Function.update i.slot d .live }
  | .synced d =>
    { i with
      dur := fun p => if p.1 = d then i.vol p else i.dur p
      slotDur := fun c => if parent c = some d then i.slot c else i.slotDur c }
  | .renamed d t => { i with slot := Function.update i.slot d (.moved t) }
  | .restored d => { i with slot := Function.update i.slot d .live }
  | .wiped d left =>
    { i with
      vol := fun p => if under d p.1 then
          match left with
          | some f => if f p then i.vol p else none
          | none => none
        else i.vol p
      slot := match left with
        | some _ => i.slot
        | none => Function.update i.slot d .absent }

def power (i : Images Dir Name Tag Data) : Images Dir Name Tag Data :=
  { i with vol := i.dur, slot := i.slotDur }

def damage (i : Images Dir Name Tag Data) (p : Dir × Name) (d : Option Data) : Images Dir Name Tag Data :=
  { i with vol := Function.update i.vol p d, dur := Function.update i.dur p d }

/-- A content that shows after a change showed before, or is the one that was put there. -/
theorem vol_apply {i : Images Dir Name Tag Data} {e : Effect Dir Name Tag Data} {p : Dir × Name} {x : Data}
    (h : (i.apply e).vol p = some x) : i.vol p = some x ∨ e = .put p x := by
  cases e with
  | put q y =>
    simp only [apply, Function.update_apply] at h
    split at h
    · next hq => cases h; exact .inr (by rw [hq])
    · exact .inl h
  | removed q =>
    simp only [apply, Function.update_apply] at h
    split at h
    · cases h
    · exact .inl h
  | wiped d left =>
    simp only [apply] at h
    split at h
    · split at h
      · split at h
        · exact .inl h
        · cases h
      · cases h
    · exact .inl h
  | made d | synced d | renamed d t | restored d => exact .inl h

/-- A content that is durable after a change was durable or showed before. -/
theorem dur_apply {i : Images Dir Name Tag Data} {e : Effect Dir Name Tag Data} {p : Dir × Name} {x : Data}
    (h : (i.apply e).dur p = some x) : i.dur p = some x ∨ i.vol p = some x := by
  cases e with
  | synced d =>
    simp only [apply] at h
    split at h
    · exact .inr h
    · exact .inl h
  | _ => exact .inl h

end Images

namespace Disk

def images (s : Disk Dir Name Tag Data) : Images Dir Name Tag Data where
  vol p := (s.ent (p.1, .named p.2)).map s.data
  dur p := (s.entDur (p.1, .named p.2)).map s.disk
  slot := s.slot
  slotDur := s.slotDur

/-- Only names show. -/
def onName (p : Dir × Entry Name) (f : Dir × Name → Option (Effect Dir Name Tag Data)) :
    Option (Effect Dir Name Tag Data) :=
  match p.2 with
  | .named n => f (p.1, n)
  | _ => none

@[simp] theorem onName_named (d : Dir) (n : Name) (f : Dir × Name → Option (Effect Dir Name Tag Data)) :
    onName (d, .named n) f = f (d, n) := rfl
@[simp] theorem onName_pending (d : Dir) (k : Nat) (f : Dir × Name → Option (Effect Dir Name Tag Data)) :
    onName (d, .pending k) f = none := rfl
@[simp] theorem onName_lock (d : Dir) (f : Dir × Name → Option (Effect Dir Name Tag Data)) :
    onName (d, .lock) f = none := rfl

/-- The visible change an operation makes when it succeeds, if any. -/
def stepEffect (s : Disk Dir Name Tag Data) : FileOp Dir Name Tag Data → Option (Effect Dir Name Tag Data)
  | .create p => onName p fun q =>
    if reach s.slot p.1 && (s.ent p).isNone then some (.put q default) else none
  | .write p x => onName p fun q => (s.lookup p).map fun _ => .put q x
  | .link src dst => onName dst fun q =>
    if (s.lookup dst).isSome then none else (s.lookup src).map fun i => .put q (s.data i)
  | .replace src dst => onName dst fun q => (s.lookup src).map fun i => .put q (s.data i)
  | .unlink p _ => onName p fun q => (s.lookup p).map fun _ => .removed q
  | .mkdir d =>
    if ((DirTree.chain d).tail.all fun c => s.slot c = .live) && s.slot d = .absent then some (.made d)
    else none
  | .syncDir d => if reach s.slot d then some (.synced d) else none
  | .rename d t => if reach s.slot d then some (.renamed d t) else none
  | .restore d => some (.restored d)
  | .rmtree d => some (.wiped d none)
  | _ => none

/-- The visible change a failing operation makes. -/
def failEffect (s : Disk Dir Name Tag Data) (f : Fault Dir Name Data) :
    FileOp Dir Name Tag Data → Option (Effect Dir Name Tag Data)
  | .write p _ => onName p fun q => (s.lookup p).map fun _ => .put q f.torn
  | .rmtree d => some (.wiped d (some f.left))
  | _ => none

def effect (s : Disk Dir Name Tag Data) (o : FileOp Dir Name Tag Data) :
    Option (Fault Dir Name Data) → Option (Effect Dir Name Tag Data)
  | none => s.stepEffect o
  | some f => s.failEffect f o

/-! ## Discipline -/

/-- Every entry points at an allocated inode. -/
def Allocated (s : Disk Dir Name Tag Data) : Prop :=
  (∀ p i, s.ent p = some i → i < s.next) ∧ ∀ p i, s.entDur p = some i → i < s.next

/-- Every content that has a name is durable. -/
def Clean (s : Disk Dir Name Tag Data) : Prop :=
  ∀ d n i, s.ent (d, .named n) = some i → s.disk i = s.data i

/-- No name points at the inode. -/
def Private (s : Disk Dir Name Tag Data) (i : Nat) : Prop :=
  ∀ d n, s.ent (d, .named n) ≠ some i ∧ s.entDur (d, .named n) ≠ some i

/-- Only the name `p` points at the inode, and not durably. -/
def Owned (s : Disk Dir Name Tag Data) (p : Dir × Name) (i : Nat) : Prop :=
  ∀ d n, (s.ent (d, .named n) = some i → (d, n) = p) ∧ s.entDur (d, .named n) ≠ some i

/-- The invariant every operation on a finished folder keeps. -/
structure Tidy (s : Disk Dir Name Tag Data) : Prop where
  allocated : s.Allocated
  clean : s.Clean

/-- How the operation has to be used for its effect to be the one `effect` names. -/
def Disciplined (s : Disk Dir Name Tag Data) : FileOp Dir Name Tag Data → Prop
  | .write (d, .named n) _ => ∀ i, s.ent (d, .named n) = some i → s.Owned (d, n) i
  | .write (d, .pending k) _ => ∀ i, s.ent (d, .pending k) = some i → s.Private i
  | .write (d, .lock) _ => ∀ i, s.ent (d, .lock) = some i → s.Private i
  | .fsync p => ∀ i, s.ent p = some i → s.disk i = s.data i ∨ ∀ d n, s.entDur (d, .named n) ≠ some i
  | .link src _ => (∃ k, src.2 = .pending k) ∧ ∀ i, s.ent src = some i → s.disk i = s.data i
  | .replace src _ => (∃ k, src.2 = .pending k) ∧ ∀ i, s.ent src = some i → s.disk i = s.data i
  | .syncDir d => ∀ n i, s.ent (d, .named n) = some i → s.disk i = s.data i
  | _ => True

@[ext] theorem Images.ext' {i j : Images Dir Name Tag Data} (hv : ∀ p, i.vol p = j.vol p)
    (hd : ∀ p, i.dur p = j.dur p) (hs : i.slot = j.slot) (hsd : i.slotDur = j.slotDur) : i = j := by
  cases i; cases j
  simp only [Images.mk.injEq]
  exact ⟨funext hv, funext hd, hs, hsd⟩

variable {s : Disk Dir Name Tag Data}

theorem map_data_fresh {q : Option Nat} {x : Data} (f : Nat → Data) (h : ∀ i, q = some i → i < s.next) :
    q.map (Function.update f s.next x) = q.map f := by
  cases q with
  | none => rfl
  | some i => simp [Function.update_of_ne (Nat.ne_of_lt (h i rfl))]

/-- A new file shows nothing but its own, empty, name. -/
theorem images_newFile (ha : s.Allocated) (p : Dir × Entry Name) :
    (s.newFile p).images = match p with
      | (d, .named n) => s.images.apply (.put (d, n) default)
      | _ => s.images := by
  obtain ⟨d, e⟩ := p
  have hdur : ∀ q : Dir × Name, (s.newFile (d, e)).images.dur q = s.images.dur q :=
    fun q => map_data_fresh s.disk (ha.2 _)
  cases e with
  | named n =>
    refine Images.ext' (fun q => ?_) hdur rfl rfl
    by_cases hq : q = (d, n)
    · subst hq; simp [images, newFile, Images.apply]
    · have hne : ((q.1, Entry.named q.2) : Dir × Entry Name) ≠ (d, .named n) := by
        intro h; apply hq; simp at h; exact Prod.ext h.1 h.2
      simp only [images, newFile, Images.apply, Function.update_of_ne hne, Function.update_of_ne hq]
      exact map_data_fresh s.data (ha.1 _)
  | pending k =>
    refine Images.ext' (fun q => ?_) hdur rfl rfl
    have hne : ((q.1, Entry.named q.2) : Dir × Entry Name) ≠ (d, .pending k) := by simp
    simp only [images, newFile, Function.update_of_ne hne]
    exact map_data_fresh s.data (ha.1 _)
  | lock =>
    refine Images.ext' (fun q => ?_) hdur rfl rfl
    have hne : ((q.1, Entry.named q.2) : Dir × Entry Name) ≠ (d, .lock) := by simp
    simp only [images, newFile, Function.update_of_ne hne]
    exact map_data_fresh s.data (ha.1 _)

/-- Writing an inode no name points at is invisible. -/
theorem images_write_private {i : Nat} (h : s.Private i) (x : Data) :
    ({ s with data := Function.update s.data i x } : Disk Dir Name Tag Data).images = s.images := by
  refine Images.ext' (fun q => ?_) (fun _ => rfl) rfl rfl
  simp only [images]
  cases hq : s.ent (q.1, .named q.2) with
  | none => rfl
  | some j =>
    have hne : j ≠ i := fun h' => (h q.1 q.2).1 (h' ▸ hq)
    simp [Function.update_of_ne hne]

/-- Writing the inode of a name nothing else shares shows under that name only. -/
theorem images_write_owned {d : Dir} {n : Name} {i : Nat} (h : s.Owned (d, n) i)
    (he : s.ent (d, .named n) = some i) (x : Data) :
    ({ s with data := Function.update s.data i x } : Disk Dir Name Tag Data).images =
      s.images.apply (.put (d, n) x) := by
  refine Images.ext' (fun q => ?_) (fun _ => rfl) rfl rfl
  simp only [images, Images.apply]
  by_cases hq : q = (d, n)
  · subst hq; simp [he]
  · rw [Function.update_of_ne hq]
    cases hj : s.ent (q.1, .named q.2) with
    | none => rfl
    | some j =>
      have hne : j ≠ i := fun h' => hq ((h q.1 q.2).1 (h' ▸ hj))
      simp [Function.update_of_ne hne]

/-- Pointing a name at an inode shows that inode's content there. -/
theorem images_point (d : Dir) (n : Name) (i : Nat) :
    ({ s with ent := Function.update s.ent (d, .named n) (some i) } : Disk Dir Name Tag Data).images =
      s.images.apply (.put (d, n) (s.data i)) := by
  refine Images.ext' (fun q => ?_) (fun _ => rfl) rfl rfl
  by_cases hq : q = (d, n)
  · subst hq; simp [images, Images.apply]
  · have hne : ((q.1, Entry.named q.2) : Dir × Entry Name) ≠ (d, .named n) := by
      intro h; apply hq; simp at h; exact Prod.ext h.1 h.2
    simp [images, Images.apply, Function.update_of_ne hne, Function.update_of_ne hq]

/-- Changing an entry that is not a name is invisible. -/
theorem images_entry (p : Dir × Entry Name) (hp : ∀ n, p.2 ≠ .named n) (v : Option Nat) :
    ({ s with ent := Function.update s.ent p v } : Disk Dir Name Tag Data).images = s.images := by
  refine Images.ext' (fun q => ?_) (fun _ => rfl) rfl rfl
  have hne : ((q.1, Entry.named q.2) : Dir × Entry Name) ≠ p := by
    intro h; exact hp q.2 (by rw [← h])
  simp [images, Function.update_of_ne hne]

theorem lookup_eq_some {p : Dir × Entry Name} {i : Nat} (h : s.lookup p = some i) : s.ent p = some i := by
  unfold lookup at h
  split at h
  · exact h
  · cases h

theorem ent_of_lookup_none {p : Dir × Entry Name} (h : s.lookup p = none) (hr : reach s.slot p.1 = true) :
    s.ent p = none := by
  simpa [lookup, hr] using h

theorem images_fsync {i : Nat} (h : s.disk i = s.data i ∨ ∀ d n, s.entDur (d, .named n) ≠ some i) :
    ({ s with disk := Function.update s.disk i (s.data i) } : Disk Dir Name Tag Data).images = s.images := by
  rcases h with h | h
  · rw [← h, Function.update_eq_self]
  · refine Images.ext' (fun _ => rfl) (fun q => ?_) rfl rfl
    simp only [images]
    cases hq : s.entDur (q.1, .named q.2) with
    | none => rfl
    | some j =>
      have hne : j ≠ i := fun h' => h q.1 q.2 (h' ▸ hq)
      simp [Function.update_of_ne hne]

theorem images_syncDir {d : Dir} (h : ∀ n i, s.ent (d, .named n) = some i → s.disk i = s.data i) :
    (s.syncDir d).images = s.images.apply (.synced d) := by
  refine Images.ext' (fun _ => rfl) (fun q => ?_) rfl rfl
  simp only [images, syncDir, Images.apply]
  split
  · next hq =>
    rw [show ((q.1, Entry.named q.2) : Dir × Entry Name) = (d, .named q.2) by rw [hq]]
    cases he : s.ent (d, .named q.2) with
    | none => rfl
    | some i => simp [h _ _ he]
  · rfl

theorem images_wipe (d : Dir) (left : Dir × Name → Bool) :
    (s.wipe d left).images = s.images.apply (.wiped d (some left)) := by
  refine Images.ext' (fun q => ?_) (fun _ => rfl) rfl rfl
  simp only [images, wipe, Images.apply]
  split
  · split <;> rfl
  · rfl

/-- The refinement, for an operation that succeeds. -/
theorem images_step (ha : s.Allocated) (o : FileOp Dir Name Tag Data) (hd : s.Disciplined o) :
    (s.step o).2.images = match s.stepEffect o with
      | some e => s.images.apply e
      | none => s.images := by
  cases o with
  | test p => rfl
  | read p => simp only [step]; split <;> rfl
  | mkstemp d =>
    simp only [step]
    split
    · exact images_newFile ha _
    · rfl
  | create p =>
    obtain ⟨d, e⟩ := p
    simp only [step, stepEffect]
    by_cases hr : reach s.slot d = true
    · cases hs : s.ent (d, e) with
      | some i => cases e <;> simp [hr]
      | none =>
        simp only [hr, if_true, Option.isSome_none, Bool.false_eq_true, if_false]
        rw [images_newFile ha]
        cases e <;> simp
    · cases e <;> simp [hr]
  | openLock d =>
    simp only [step]
    split
    · split
      · rfl
      · exact images_newFile ha _
    · rfl
  | write p x =>
    obtain ⟨d, e⟩ := p
    simp only [step, stepEffect]
    cases hl : s.lookup (d, e) with
    | none => cases e <;> simp
    | some i =>
      have he := lookup_eq_some hl
      cases e with
      | named n => exact images_write_owned (hd i he) he _
      | pending k => exact images_write_private (hd i he) _
      | lock => exact images_write_private (hd i he) _
  | fsync p =>
    simp only [step]
    cases hl : s.lookup p with
    | none => rfl
    | some i => exact images_fsync (hd i (lookup_eq_some hl))
  | link src dst =>
    obtain ⟨d, e⟩ := dst
    simp only [step, stepEffect]
    cases hl : s.lookup src with
    | none => cases e <;> simp
    | some i =>
      by_cases hs : (s.lookup (d, e)).isSome
      · cases e <;> simp [hs]
      · cases e with
        | named n => simp [hs, images_point]
        | pending k | lock => simp [hs, images_entry]
  | replace src dst =>
    obtain ⟨d, e⟩ := dst
    obtain ⟨sd, k, rfl⟩ : ∃ sd k, src = (sd, .pending k) := by
      obtain ⟨⟨k, hk⟩, -⟩ := hd; exact ⟨src.1, k, Prod.ext rfl hk⟩
    simp only [step, stepEffect]
    cases hl : s.lookup (sd, .pending k) with
    | none => cases e <;> simp
    | some i =>
      -- dropping the temporary name is invisible, so only the new name counts
      have hsrc : ∀ t : Disk Dir Name Tag Data,
          ({ t with ent := Function.update t.ent (sd, .pending k) none } : Disk Dir Name Tag Data).images =
            t.images := fun t => images_entry (s := t) _ (by simp) _
      refine (hsrc { s with ent := Function.update s.ent (d, e) (some i) }).trans ?_
      cases e with
      | named n => simp [images_point]
      | pending k | lock => simp [images_entry]
  | unlink p m =>
    obtain ⟨d, e⟩ := p
    simp only [step, stepEffect]
    cases hl : s.lookup (d, e) with
    | none => cases e <;> simp
    | some i =>
      cases e with
      | named n =>
        refine Images.ext' (fun q => ?_) (fun _ => rfl) rfl rfl
        by_cases hq : q = (d, n)
        · subst hq; simp [images, Images.apply]
        · have hne : ((q.1, Entry.named q.2) : Dir × Entry Name) ≠ (d, .named n) := by
            intro h; apply hq; simp at h; exact Prod.ext h.1 h.2
          simp [images, Images.apply, Function.update_of_ne hne, Function.update_of_ne hq]
      | pending k | lock => simp [images_entry]
  | mkdir d =>
    simp only [step, stepEffect]
    by_cases hr : ((DirTree.chain d).tail.all fun c => s.slot c = .live) = true
    · by_cases ha : s.slot d = .absent
      · simp only [hr, ha, if_true, decide_true, Bool.and_self]; rfl
      · simp [hr, ha]
    · simp [hr]
  | syncDir d =>
    simp only [step, stepEffect]
    split
    · exact images_syncDir hd
    · rfl
  | rename d t =>
    simp only [step, stepEffect]
    split <;> rfl
  | restore d => rfl
  | rmtree d =>
    refine Images.ext' (fun q => ?_) (fun _ => rfl) rfl rfl
    simp only [step, stepEffect, images, wipe, Images.apply]
    split
    · rfl
    · rfl
  | probe d => rfl

/-- The refinement, for an operation that fails. -/
theorem images_fail (o : FileOp Dir Name Tag Data) (f : Fault Dir Name Data) (hd : s.Disciplined o) :
    (s.fail f o).images = match s.failEffect f o with
      | some e => s.images.apply e
      | none => s.images := by
  cases o with
  | write p x =>
    obtain ⟨d, e⟩ := p
    simp only [fail, failEffect]
    cases hl : s.lookup (d, e) with
    | none => cases e <;> simp
    | some i =>
      have he := lookup_eq_some hl
      cases e with
      | named n => exact images_write_owned (hd i he) he _
      | pending k => exact images_write_private (hd i he) _
      | lock => exact images_write_private (hd i he) _
  | rmtree d => exact images_wipe d f.left
  | _ => rfl

/-- **Refinement.** Used with discipline, an operation changes the images by its effect. -/
theorem images_act (ha : s.Allocated) (o : FileOp Dir Name Tag Data) (f : Option (Fault Dir Name Data))
    (hd : s.Disciplined o) :
    (s.act o f).2.images = match s.effect o f with
      | some e => s.images.apply e
      | none => s.images := by
  cases f with
  | none => exact images_step ha o hd
  | some f => exact images_fail o f hd

theorem images_power : s.power.images = s.images.power := rfl

theorem images_damage (ha : s.Allocated) (p : Dir × Name) (d : Option Data) :
    (s.damage p d).images = s.images.damage p d := by
  have hne : ∀ q : Dir × Name, q ≠ p → ((q.1, Entry.named q.2) : Dir × Entry Name) ≠ (p.1, .named p.2) :=
    fun q hq h => hq (by simp at h; exact Prod.ext h.1 h.2)
  cases d with
  | none =>
    refine Images.ext' (fun q => ?_) (fun q => ?_) rfl rfl
    all_goals
      by_cases hq : q = p
      · subst hq; simp [images, damage, Images.damage]
      · simp [images, damage, Images.damage, Function.update_of_ne (hne q hq), Function.update_of_ne hq]
  | some x =>
    refine Images.ext' (fun q => ?_) (fun q => ?_) rfl rfl
    · by_cases hq : q = p
      · subst hq; simp [images, damage, Images.damage]
      · simp only [images, damage, Images.damage, Function.update_of_ne (hne q hq), Function.update_of_ne hq]
        exact map_data_fresh s.data (ha.1 _)
    · by_cases hq : q = p
      · subst hq; simp [images, damage, Images.damage]
      · simp only [images, damage, Images.damage, Function.update_of_ne (hne q hq), Function.update_of_ne hq]
        exact map_data_fresh s.disk (ha.2 _)

/-! ## What operations keep -/

theorem allocated_newFile (ha : s.Allocated) (p : Dir × Entry Name) : (s.newFile p).Allocated := by
  refine ⟨fun q i h => ?_, fun q i h => Nat.lt_succ_of_lt (ha.2 q i h)⟩
  simp only [newFile] at h ⊢
  by_cases hq : q = p
  · subst hq; simp at h; omega
  · rw [Function.update_of_ne hq] at h; exact Nat.lt_succ_of_lt (ha.1 q i h)

theorem allocated_point (ha : s.Allocated) (p : Dir × Entry Name) (v : Option Nat)
    (hv : ∀ i, v = some i → i < s.next) :
    ({ s with ent := Function.update s.ent p v } : Disk Dir Name Tag Data).Allocated := by
  refine ⟨fun q i h => ?_, ha.2⟩
  by_cases hq : q = p
  · subst hq; exact hv i (by simpa using h)
  · simp only [Function.update_of_ne hq] at h; exact ha.1 q i h

theorem allocated_wipe (ha : s.Allocated) (d : Dir) (left : Dir × Name → Bool) : (s.wipe d left).Allocated := by
  refine ⟨fun q i h => ha.1 q i ?_, ha.2⟩
  simp only [wipe] at h
  split at h
  · split at h
    · split at h
      · exact h
      · cases h
    · cases h
  · exact h

theorem allocated_act (ha : s.Allocated) (o : FileOp Dir Name Tag Data) (f : Option (Fault Dir Name Data)) :
    (s.act o f).2.Allocated := by
  cases f with
  | some f =>
    cases o with
    | write p x => simp only [act, fail]; split <;> exact ha
    | rmtree d => exact allocated_wipe ha d _
    | _ => exact ha
  | none =>
    cases o with
    | mkstemp d => simp only [act, step]; split; exacts [allocated_newFile ha _, ha]
    | create p =>
      simp only [act, step]
      split
      · split; exacts [ha, allocated_newFile ha _]
      · exact ha
    | openLock d =>
      simp only [act, step]
      split
      · split; exacts [ha, allocated_newFile ha _]
      · exact ha
    | link src dst =>
      simp only [act, step]
      split
      · next i hi =>
        split
        · exact ha
        · exact allocated_point ha _ _ fun j hj => by cases hj; exact ha.1 _ _ (lookup_eq_some hi)
      · exact ha
    | replace src dst =>
      simp only [act, step]
      split
      · next i hi =>
        have h1 := allocated_point ha dst (some i) fun j hj => by cases hj; exact ha.1 _ _ (lookup_eq_some hi)
        exact allocated_point h1 src none fun j hj => by cases hj
      · exact ha
    | unlink p m =>
      simp only [act, step]
      split
      · exact allocated_point ha p none fun j hj => by cases hj
      · exact ha
    | mkdir d => simp only [act, step]; split; exacts [by split <;> exact ha, ha]
    | syncDir d =>
      simp only [act, step]
      split
      · refine ⟨ha.1, fun q i h => ?_⟩
        simp only [syncDir] at h
        split at h
        · exact ha.1 q i h
        · exact ha.2 q i h
      · exact ha
    | rmtree d =>
      have h := allocated_wipe ha d fun _ => false
      exact ⟨h.1, h.2⟩
    | rename d t => simp only [act, step]; split <;> exact ha
    | test p | probe d => exact ha
    | read p | fsync p | write p x => simp only [act, step]; split <;> exact ha
    | restore d => exact ha

theorem clean_newFile (ha : s.Allocated) (hc : s.Clean) (p : Dir × Entry Name) : (s.newFile p).Clean := by
  intro d n i h
  simp only [newFile] at h ⊢
  by_cases hq : ((d, Entry.named n) : Dir × Entry Name) = p
  · subst hq
    rw [Function.update_self] at h
    cases h
    simp
  · rw [Function.update_of_ne hq] at h
    have hne : i ≠ s.next := Nat.ne_of_lt (ha.1 _ _ h)
    rw [Function.update_of_ne hne, Function.update_of_ne hne]
    exact hc d n i h

theorem clean_point (hc : s.Clean) (p : Dir × Entry Name) (v : Option Nat)
    (hv : ∀ i, v = some i → s.disk i = s.data i) :
    ({ s with ent := Function.update s.ent p v } : Disk Dir Name Tag Data).Clean := by
  intro d n i h
  by_cases hq : ((d, Entry.named n) : Dir × Entry Name) = p
  · subst hq; exact hv i (by simpa using h)
  · simp only [Function.update_of_ne hq] at h; exact hc d n i h

theorem clean_write (hc : s.Clean) {i : Nat} (h : ∀ d n, s.ent (d, .named n) ≠ some i) (x : Data) :
    ({ s with data := Function.update s.data i x } : Disk Dir Name Tag Data).Clean := by
  intro d n j hj
  have hne : j ≠ i := fun h' => h d n (h' ▸ hj)
  simp only [Function.update_of_ne hne]
  exact hc d n j hj

theorem clean_wipe (hc : s.Clean) (d : Dir) (left : Dir × Name → Bool) : (s.wipe d left).Clean := by
  intro d' n i h
  refine hc d' n i ?_
  simp only [wipe] at h
  split at h
  · split at h
    · exact h
    · cases h
  · exact h

/-- Writing a named file in place: the one operation after which a name may show unsynced content. -/
def inPlace : FileOp Dir Name Tag Data → Bool
  | .write (_, .named _) _ => true
  | _ => false

theorem clean_act (ha : s.Allocated) (hc : s.Clean) (o : FileOp Dir Name Tag Data)
    (f : Option (Fault Dir Name Data)) (hd : s.Disciplined o) (hi : inPlace o = false) :
    (s.act o f).2.Clean := by
  cases f with
  | some f =>
    cases o with
    | write p x =>
      obtain ⟨d, e⟩ := p
      simp only [act, fail]
      split
      · next i hl =>
        cases e with
        | named n => cases hi
        | pending k | lock => exact clean_write hc (fun d n => (hd i (lookup_eq_some hl) d n).1) _
      · exact hc
    | rmtree d => exact clean_wipe hc d _
    | _ => exact hc
  | none =>
    cases o with
    | mkstemp d => simp only [act, step]; split; exacts [clean_newFile ha hc _, hc]
    | create p =>
      simp only [act, step]
      split
      · split; exacts [hc, clean_newFile ha hc _]
      · exact hc
    | openLock d =>
      simp only [act, step]
      split
      · split; exacts [hc, clean_newFile ha hc _]
      · exact hc
    | write p x =>
      obtain ⟨d, e⟩ := p
      simp only [act, step]
      split
      · next i hl =>
        cases e with
        | named n => cases hi
        | pending k | lock => exact clean_write hc (fun d n => (hd i (lookup_eq_some hl) d n).1) _
      · exact hc
    | fsync p =>
      simp only [act, step]
      split
      · next i hl =>
        intro d n j hj
        by_cases hij : j = i
        · subst hij; simp
        · simp only [Function.update_of_ne hij]; exact hc d n j hj
      · exact hc
    | link src dst =>
      simp only [act, step]
      split
      · next i hl =>
        split
        · exact hc
        · exact clean_point hc _ _ fun j hj => by cases hj; exact hd.2 i (lookup_eq_some hl)
      · exact hc
    | replace src dst =>
      simp only [act, step]
      split
      · next i hl =>
        have h1 := clean_point hc dst (some i) fun j hj => by cases hj; exact hd.2 i (lookup_eq_some hl)
        exact clean_point h1 src none fun j hj => by cases hj
      · exact hc
    | unlink p m =>
      simp only [act, step]
      split
      · exact clean_point hc p none fun j hj => by cases hj
      · exact hc
    | mkdir d => simp only [act, step]; split; exacts [by split <;> exact hc, hc]
    | syncDir d => simp only [act, step]; split <;> exact hc
    | rmtree d => exact fun d' n i h => clean_wipe hc d (fun _ => false) d' n i h
    | rename d t => simp only [act, step]; split <;> exact hc
    | test p | probe d => exact hc
    | read p => simp only [act, step]; split <;> exact hc
    | restore d => exact hc

/-- **Tidiness** is kept by every disciplined operation but a write in place. -/
theorem tidy_act (ht : s.Tidy) (o : FileOp Dir Name Tag Data) (f : Option (Fault Dir Name Data))
    (hd : s.Disciplined o) (hi : inPlace o = false) : (s.act o f).2.Tidy :=
  ⟨allocated_act ht.allocated o f, clean_act ht.allocated ht.clean o f hd hi⟩

theorem allocated_damage (ha : s.Allocated) (p : Dir × Name) (d : Option Data) : (s.damage p d).Allocated := by
  cases d with
  | none =>
    refine ⟨fun q i h => ha.1 q i ?_, fun q i h => ha.2 q i ?_⟩
    all_goals
      simp only [damage, Function.update_apply] at h
      split at h
      · cases h
      · exact h
  | some x =>
    refine ⟨fun q i h => ?_, fun q i h => ?_⟩
    all_goals
      simp only [damage, Function.update_apply] at h ⊢
      split at h
      · cases h; exact Nat.lt_succ_self _
    · exact Nat.lt_succ_of_lt (ha.1 q i h)
    · exact Nat.lt_succ_of_lt (ha.2 q i h)

theorem clean_damage (ha : s.Allocated) (hc : s.Clean) (p : Dir × Name) (d : Option Data) : (s.damage p d).Clean := by
  intro d' n i h
  cases d with
  | none =>
    simp only [damage, Function.update_apply] at h
    split at h
    · cases h
    · exact hc d' n i h
  | some x =>
    simp only [damage, Function.update_apply] at h ⊢
    split at h
    · cases h; simp
    · have hne : i ≠ s.next := Nat.ne_of_lt (ha.1 _ _ h)
      rw [if_neg hne, if_neg hne]
      exact hc d' n i h

theorem tidy_power (ha : s.Allocated) : s.power.Tidy :=
  ⟨⟨fun p i h => ha.2 p i h, ha.2⟩, fun _ _ _ _ => rfl⟩

end Disk

end

end CrashDisk
