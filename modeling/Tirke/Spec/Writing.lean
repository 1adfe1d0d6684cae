import Tirke.Spec.Reading
/-!
# `_atomic_write` and `_make_directory` on a view

The temporary file never shows. What a reader can see of `writeTemporary p x` is `p` taking the content
`x` and, later, the directory becoming durable; an `OSError` may leave any prefix of that (`Wrote`).
-/

namespace Tirke

open CrashProg CrashDisk

namespace View
variable (v : View)

def put (p : Path) (x : Doc) : View := v.change (.put p x)
def drop (p : Path) : View := v.change (.removed p)
def sync (d : Dir) : View := v.change (.synced d)

end View

section
variable {v : View} {p q : Path} {x : Doc} {d d' : Dir} {e : Event}

@[simp] theorem reach_put : (v.put p x).reach d = v.reach d := rfl
@[simp] theorem reach_drop : (v.drop p).reach d = v.reach d := rfl
@[simp] theorem reach_sync : (v.sync d').reach d = v.reach d := rfl
@[simp] theorem reach_note : (v.note e).reach d = v.reach d := rfl
@[simp] theorem look_sync : (v.sync d).look q = v.look q := rfl
@[simp] theorem look_note : (v.note e).look q = v.look q := rfl

theorem look_put_self (h : v.reach p.1 = true) : (v.put p x).look p = some x := by
  simp only [View.look, Images.look, View.put, View.change, Images.apply]
  have h' : CrashDisk.reach v.img.slot p.1 = true := h
  simp [h']

theorem vol_put_of_ne (h : q ≠ p) : (v.put p x).img.vol q = v.img.vol q := Function.update_of_ne h _ _

theorem look_put_of_ne (h : q ≠ p) : (v.put p x).look q = v.look q := by
  simp only [View.look, Images.look, View.put, View.change, Images.apply, Function.update_of_ne h]

theorem look_drop_self : (v.drop p).look p = none := by
  simp [View.look, Images.look, View.drop, View.change, Images.apply]

theorem look_drop_of_ne (h : q ≠ p) : (v.drop p).look q = v.look q := by
  simp only [View.look, Images.look, View.drop, View.change, Images.apply, Function.update_of_ne h]

theorem reach_of_look (h : v.look p = some x) : v.reach p.1 = true := by
  simp only [View.look, Images.look] at h
  split at h
  · assumption
  · cases h

theorem vol_of_look (h : v.look p = some x) : v.img.vol p = some x := by
  simp only [View.look, Images.look] at h
  split at h
  · exact h
  · cases h

theorem look_of_reach (h : v.reach p.1 = true) : v.look p = v.img.vol p := if_pos h

theorem not_void_of_look (h : v.look (.folder, .meeting) = some x) : ¬ v.Void := by
  rintro ⟨hv, -⟩
  rw [vol_of_look h] at hv
  cases hv

theorem not_void_put (h : ¬ v.Void) : ¬ (v.put p x).Void := by
  rintro ⟨hv, hd⟩
  refine h ⟨?_, hd⟩
  simp only [View.put, View.change, Images.apply] at hv
  by_cases hp : ((.folder, .meeting) : Path) = p
  · subst hp; simp at hv
  · rwa [Function.update_of_ne hp] at hv

end

section
variable {A : Env host} {L : Law} {v : View}

/-- What `writeTemporary p x` may have done when it ends. -/
inductive Wrote (A : Env host) (p : Path) (x : Doc) (v : View) : Except Exn Unit → View → Prop where
  | done : Wrote A p x v (.ok ()) ((v.put p x).sync p.1)
  | nothing (h : MayFail A) : Wrote A p x v (.error .osError) v
  | shown (h : MayFail A) : Wrote A p x v (.error .osError) (v.put p x)
  | synced (h : MayFail A) : Wrote A p x v (.error .osError) ((v.put p x).sync p.1)

/-- The temporary file: an inode of its own that no name shows. -/
structure Staged (v : View) (d : Dir) (k i : Nat) (w : World) : Prop where
  view : w.view = v
  fit : Fit w.disk
  clean : w.disk.Clean
  ent : w.disk.ent (d, .pending k) = some i
  priv : w.disk.Private i

theorem lookup_staged {w : World} {d : Dir} {k i : Nat} (h : Staged v d k i w) (hr : v.reach d = true) :
    w.disk.lookup (d, .pending k) = some i := by
  have : CrashDisk.reach w.disk.slot d = true := by rw [reach_view, h.view]; exact hr
  simp only [Disk.lookup, this, if_true, h.ent]

theorem sat_mkstemp {w : World} {d : Dir} (hw : w.view = v) (hf : Fit w.disk) (hc : w.disk.Clean)
    (hr : v.reach d = true) :
    Sat A (Guarded L) (fun out (w' : World) => Fit w'.disk ∧ w'.disk.Clean ∧ match out with
      | .ok k => ∃ i, Staged v d k i w'
      | .error e => e = .osError ∧ MayFail A ∧ w'.view = v) (call (.mkstemp d)) w := by
  have hreach : CrashDisk.reach w.disk.slot d = true := by rw [reach_view, hw]; exact hr
  have hstep : w.disk.step (.mkstemp d) = (.ok w.disk.next, w.disk.newFile (d, .pending w.disk.next)) := by
    simp only [Disk.step, hreach, if_true]
  refine sat_callClean hf hc trivial rfl lawful_none (fun _ => lawful_none) ?_ ?_
  · intro w' hd hv' hf' hc'
    rw [hstep] at hd ⊢
    refine ⟨hf', hc', w.disk.next, hv'.trans hw, hf', hc', by rw [hd]; simp [Disk.newFile], fun d' n => ?_⟩
    rw [hd]
    simp only [Disk.newFile]
    rw [Function.update_of_ne (by simp)]
    exact ⟨fun h => Nat.lt_irrefl _ (hf.1.1 _ _ h), fun h => Nat.lt_irrefl _ (hf.1.2 _ _ h)⟩
  · intro w' f hm _ hv' hf' hc'
    exact ⟨hf', hc', rfl, hm, hv'.trans hw⟩

theorem sat_writeStaged {w : World} {d : Dir} {k i : Nat} {x : Doc} (h : Staged v d k i w) (hr : v.reach d = true) :
    Sat A (Guarded L) (fun out (w' : World) => Staged v d k i w' ∧ match out with
      | .ok () => w'.disk.data i = x
      | .error e => e = .osError ∧ MayFail A) (call (.write (d, .pending k) x)) w := by
  have hl := lookup_staged h hr
  have hd : w.disk.Disciplined (.write (d, .pending k) x) := fun j hj => by
    rw [h.ent] at hj; cases hj; exact h.priv
  refine sat_callClean h.fit h.clean hd rfl lawful_none (fun _ => lawful_none) ?_ ?_
  · intro w' hd' hv' hf' hc'
    simp only [Disk.step, hl] at hd' ⊢
    exact ⟨⟨hv'.trans h.view, hf', hc', by rw [hd']; exact h.ent, by rw [hd']; exact h.priv⟩, by
      rw [hd']; exact Function.update_self ..⟩
  · intro w' f hm hd' hv' hf' hc'
    simp only [Disk.fail, hl] at hd'
    exact ⟨⟨hv'.trans h.view, hf', hc', by rw [hd']; exact h.ent, by rw [hd']; exact h.priv⟩, rfl, hm⟩

theorem sat_fsyncStaged {w : World} {d : Dir} {k i : Nat} (h : Staged v d k i w) (hr : v.reach d = true) :
    Sat A (Guarded L) (fun out (w' : World) => Staged v d k i w' ∧ match out with
      | .ok () => w'.disk.data i = w.disk.data i ∧ w'.disk.disk i = w.disk.data i
      | .error e => e = .osError ∧ MayFail A) (call (.fsync (d, .pending k))) w := by
  have hl := lookup_staged h hr
  have hd : w.disk.Disciplined (.fsync (d, .pending k)) := fun j hj => by
    rw [h.ent] at hj; cases hj; exact .inr fun d' n => (h.priv d' n).2
  refine sat_callClean h.fit h.clean hd rfl lawful_none (fun _ => lawful_none) ?_ ?_
  · intro w' hd' hv' hf' hc'
    simp only [Disk.step, hl] at hd' ⊢
    exact ⟨⟨hv'.trans h.view, hf', hc', by rw [hd']; exact h.ent, by rw [hd']; exact h.priv⟩, by rw [hd'], by
      rw [hd']; exact Function.update_self ..⟩
  · intro w' f hm hd' hv' hf' hc'
    exact ⟨⟨hv'.trans h.view, hf', hc', by rw [hd']; exact h.ent, by rw [hd']; exact h.priv⟩, rfl, hm⟩

/-- What the step that shows the new content leaves. -/
def Shows (A : Env host) (p : Path) (x : Doc) (v : View) (out : Except Exn Unit) (w : World) : Prop :=
  Fit w.disk ∧ w.disk.Clean ∧ match out with
    | .ok () => w.view = v.put p x
    | .error e => e = .osError ∧ MayFail A ∧ w.view = v

theorem sat_replaceStaged {w : World} {k i : Nat} {d : Dir} {n : Name} {x : Doc} (h : Staged v d k i w)
    (hr : v.reach d = true) (hx : w.disk.data i = x) (hs : w.disk.disk i = w.disk.data i)
    (law : L v (.file (.put (d, n) x))) :
    Sat A (Guarded L) (Shows A (d, n) x v) (call (.replace (d, .pending k) (d, .named n))) w := by
  have hl := lookup_staged h hr
  have hd : w.disk.Disciplined (.replace (d, .pending k) (d, .named n)) := ⟨⟨k, rfl⟩, fun j hj => by
    rw [h.ent] at hj; cases hj; exact hs⟩
  have he : w.disk.stepEffect (.replace (d, .pending k) (d, .named n)) = some (.put (d, n) x) := by
    simp only [Disk.stepEffect, Disk.onName_named, hl, ← hx]; rfl
  refine sat_callClean h.fit h.clean hd rfl (by rw [he, h.view]; exact lawful_some.2 law) (fun _ => lawful_none) ?_ ?_
  · intro w' _ hv' hf' hc'
    rw [he, h.view] at hv'
    simp only [Disk.step, hl]
    exact ⟨hf', hc', hv'⟩
  · intro w' f hm _ hv' hf' hc'
    exact ⟨hf', hc', rfl, hm, hv'.trans h.view⟩

theorem sat_linkStaged {w : World} {k i : Nat} {d : Dir} {n : Name} {x : Doc} (h : Staged v d k i w)
    (hr : v.reach d = true) (hx : w.disk.data i = x) (hs : w.disk.disk i = w.disk.data i)
    (free : v.look (d, n) = none) (law : L v (.file (.put (d, n) x))) :
    Sat A (Guarded L) (Shows A (d, n) x v) (linkOriginal (d, .pending k) (d, n) x) w := by
  have hl := lookup_staged h hr
  have hdst : w.disk.lookup (d, .named n) = none := by
    have hsome : (w.disk.lookup (d, .named n)).isSome = (w.view.look (d, n)).isSome := isSome_lookup (p := (d, n))
    rw [h.view, free] at hsome
    simpa using hsome
  have hd : w.disk.Disciplined (.link (d, .pending k) (d, .named n)) := ⟨⟨k, rfl⟩, fun j hj => by
    rw [h.ent] at hj; cases hj; exact hs⟩
  have he : w.disk.stepEffect (.link (d, .pending k) (d, .named n)) = some (.put (d, n) x) := by
    simp only [Disk.stepEffect, Disk.onName_named, hl, hdst, ← hx]; rfl
  refine sat_handle.2 (sat_callClean h.fit h.clean hd rfl (by rw [he, h.view]; exact lawful_some.2 law)
    (fun _ => lawful_none) ?_ ?_)
  · intro w' _ hv' hf' hc'
    rw [he, h.view] at hv'
    have hstep : (w.disk.step (.link (d, .pending k) (d, .named n))).1 = .ok () := by
      simp only [Disk.step, hl, hdst, Option.isSome_none, Bool.false_eq_true, if_false]
    rw [hstep]
    exact ⟨hf', hc', hv'⟩
  · intro w' f hm _ hv' hf' hc'
    exact ⟨hf', hc', rfl, hm, hv'.trans h.view⟩

/-- The step that shows the new content, of either kind. -/
theorem sat_show {w : World} {k i : Nat} {p : Path} {x : Doc} {immutable : Bool}
    (h : Staged v p.1 k i w) (hr : v.reach p.1 = true) (hx : w.disk.data i = x)
    (hs : w.disk.disk i = w.disk.data i) (free : immutable = true → v.look p = none)
    (law : L v (.file (.put p x))) :
    Sat A (Guarded L) (Shows A p x v) (showTemporary (p.1, .pending k) p x immutable) w := by
  cases immutable with
  | true => exact sat_linkStaged h hr hx hs (free rfl) law
  | false => exact sat_replaceStaged h hr hx hs law

/-- `_sync_directory` on a disk without pending content. -/
theorem sat_syncDirectory {w : World} {d : Dir} (hf : Fit w.disk) (hc : w.disk.Clean) (hr : w.view.reach d = true)
    (law : L w.view (.file (.synced d))) :
    Sat A (Guarded L) (fun out (w' : World) => Fit w'.disk ∧ w'.disk.Clean ∧ match out with
      | .ok () => w'.view = w.view.sync d
      | .error e => e = .osError ∧ MayFail A ∧ w'.view = w.view) (syncDirectory d) w := by
  have hd : w.disk.Disciplined (.syncDir d) := fun n i hi => hc d n i hi
  have hreach : CrashDisk.reach w.disk.slot d = true := hr
  have he : w.disk.stepEffect (.syncDir d) = some (.synced d) := by simp only [Disk.stepEffect, hreach, if_true]
  refine sat_callClean hf hc hd rfl (by rw [he]; exact lawful_some.2 law) (fun _ => lawful_none) ?_ ?_
  · intro w' _ hv' hf' hc'
    rw [he] at hv'
    simp only [Disk.step, hreach, if_true]
    exact ⟨hf', hc', hv'⟩
  · intro w' f hm _ hv' hf' hc'
    exact ⟨hf', hc', rfl, hm, hv'⟩

theorem sat_unlinkTemporary {w : World} {d : Dir} {k : Nat} (hf : Fit w.disk) (hc : w.disk.Clean) :
    Sat A (Guarded L) (fun out (w' : World) => Fit w'.disk ∧ w'.disk.Clean ∧ w'.view = w.view ∧
      (out = .ok () ∨ out = .error .osError ∧ MayFail A)) (call (.unlink (d, .pending k) true)) w := by
  have he : w.disk.stepEffect (.unlink (d, .pending k) true) = none := rfl
  refine sat_callClean hf hc trivial rfl (by rw [he]; exact lawful_none) (fun _ => lawful_none) ?_ ?_
  · intro w' _ hv' hf' hc'
    rw [he] at hv'
    refine ⟨hf', hc', hv', .inl ?_⟩
    simp only [Disk.step]
    split <;> rfl
  · intro w' f hm _ hv' hf' hc'
    exact ⟨hf', hc', hv', .inr ⟨rfl, hm⟩⟩

/-- `_atomic_write`, at the level of worlds: a disk without pending content stays one. -/
theorem sat_writeTemporary {w : World} {p : Path} {x : Doc} {immutable : Bool} (hf : Fit w.disk) (hc : w.disk.Clean)
    (hr : w.view.reach p.1 = true) (free : immutable = true → w.view.look p = none)
    (law : L w.view (.file (.put p x))) (lawSync : L (w.view.put p x) (.file (.synced p.1))) :
    Sat A (Guarded L) (fun out (w' : World) => Fit w'.disk ∧ w'.disk.Clean ∧ Wrote A p x w.view out w'.view)
      (writeTemporary p x immutable) w := by
  refine (sat_mkstemp rfl hf hc hr).bind ?_
  rintro (e | k) w₁ ⟨hf₁, hc₁, h₁⟩
  · obtain ⟨rfl, hm, hv₁⟩ := h₁
    exact ⟨hf₁, hc₁, hv₁ ▸ .nothing hm⟩
  obtain ⟨i, h₁⟩ := h₁
  refine Sat.ensuring (R := fun out (w' : World) => Fit w'.disk ∧ w'.disk.Clean ∧ Wrote A p x w.view out w'.view) ?_ ?_
  · refine (sat_writeStaged h₁ hr).bind ?_
    rintro (e | ⟨⟩) w₂ ⟨h₂, hx⟩
    · obtain ⟨rfl, hm⟩ := hx
      exact ⟨h₂.fit, h₂.clean, h₂.view ▸ .nothing hm⟩
    refine (sat_fsyncStaged h₂ hr).bind ?_
    rintro (e | ⟨⟩) w₃ ⟨h₃, hs⟩
    · obtain ⟨rfl, hm⟩ := hs
      exact ⟨h₃.fit, h₃.clean, h₃.view ▸ .nothing hm⟩
    refine (sat_show h₃ hr (hs.1.trans hx) (hs.2.trans hs.1.symm) free law).bind ?_
    rintro (e | ⟨⟩) w₄ ⟨hf₄, hc₄, hq⟩
    · obtain ⟨rfl, hm, hv₄⟩ := hq
      exact ⟨hf₄, hc₄, hv₄ ▸ .nothing hm⟩
    refine (sat_syncDirectory hf₄ hc₄ (by rw [hq]; exact hr) (by rw [hq]; exact lawSync)).mono ?_
    rintro (e | ⟨⟩) w₅ ⟨hf₅, hc₅, h₅⟩
    · obtain ⟨rfl, hm, hv₅⟩ := h₅
      exact ⟨hf₅, hc₅, by rw [hv₅, hq]; exact .shown hm⟩
    · exact ⟨hf₅, hc₅, by rw [h₅, hq]; exact .done⟩
  · rintro out w' ⟨hf', hc', hwrote⟩
    refine (sat_unlinkTemporary hf' hc').mono ?_
    rintro o w'' ⟨hf'', hc'', hv'', rfl | ⟨rfl, hm⟩⟩
    · exact ⟨hf'', hc'', by rw [hv'']; exact hwrote⟩
    · refine ⟨hf'', hc'', ?_⟩
      rw [hv'']
      generalize w'.view = v' at hwrote ⊢
      cases hwrote with
      | done | synced _ => exact .synced hm
      | nothing _ => exact .nothing hm
      | shown _ => exact .shown hm

/-- **`_atomic_write`**: a reader sees nothing, the new content, or the new content made durable. -/
theorem does_writeTemporary {p : Path} {x : Doc} {immutable : Bool} (hv : ¬ v.Void) (hr : v.reach p.1 = true)
    (free : immutable = true → v.look p = none) (law : L v (.file (.put p x)))
    (lawSync : L (v.put p x) (.file (.synced p.1))) :
    Does A L (writeTemporary p x immutable) v (Wrote A p x v) := by
  rintro w rfl hf
  exact (sat_writeTemporary hf (hf.clean hv) hr free law lawSync).mono fun out w' h => ⟨h.1, h.2.2⟩

theorem does_atomicWrite {p : Path} {x : Doc} (hv : ¬ v.Void) (hr : v.reach p.1 = true)
    (law : L v (.file (.put p x))) (lawSync : L (v.put p x) (.file (.synced p.1))) :
    Does A L (atomicWrite p x) v (Wrote A p x v) :=
  does_writeTemporary hv hr (fun h => by cases h) law lawSync

/-- What `writeOriginal p x` may have done when it ends. -/
inductive WroteOriginal (A : Env host) (p : Path) (x : Doc) (v : View) : Except Exn Unit → View → Prop where
  | new {out v'} (free : v.look p = none) (h : Wrote A p x v out v') : WroteOriginal A p x v out v'
  | same (h : v.look p = some x) : WroteOriginal A p x v (.ok ()) (v.sync p.1)
  | other {y} (h : v.look p = some y) (hne : y ≠ x) :
      WroteOriginal A p x v (.error (.integrity "Original artifact already exists")) v
  | failed (h : MayFail A) : WroteOriginal A p x v (.error .osError) v

theorem readOnly_sameContent {p : Path} {x : Doc} {e : Exn} : ReadOnly (· = p) (sameContent p x e) :=
  ReadOnly.bind (p := read p) (readOnly_read (S := (· = p)) rfl) fun _ => readOnly_demand _ _

theorem run_sameContent {p : Path} {x y : Doc} {e : Exn} (h : v.look p = some y) :
    v.run (sameContent p x e) = if y = x then .ok () else .error e := by
  show v.run ((read p).bind _) = _
  rw [run_bind, run_read, h]
  simp

/-- **`_atomic_write(immutable=True)`**: the original is written, or found to be the same, or kept. -/
theorem does_writeOriginal {p : Path} {x : Doc} (hv : ¬ v.Void) (hr : v.reach p.1 = true)
    (law : v.look p = none → L v (.file (.put p x)))
    (lawSync : v.look p = none → L (v.put p x) (.file (.synced p.1)))
    (lawSame : v.look p = some x → L v (.file (.synced p.1))) :
    Does A L (writeOriginal p x) v (WroteOriginal A p x v) := by
  refine Does.bind (R := fun out v' => v' = v ∧ (out = .ok (v.look p).isSome ∨ MayFail A ∧ out = .error .osError))
    (Does.exists ⟨rfl, .inl rfl⟩ fun hf => ⟨rfl, .inr ⟨hf, rfl⟩⟩) ?_ ?_
  · rintro b v ⟨rfl, hb | ⟨-, hb⟩⟩
    · cases hb
      cases hp : v.look p with
      | none =>
        simp only [Option.isSome_none, Bool.false_eq_true, if_false]
        exact (does_writeTemporary hv hr (fun _ => hp) (law hp) (lawSync hp)).mono fun out v' h => .new hp h
      | some y =>
        simp only [Option.isSome_some, if_true]
        refine Does.bind (R := fun out v' => v' = v ∧ match out with
            | .ok () => y = x
            | .error e => (e = .osError ∧ MayFail A) ∨
                (e = .integrity "Original artifact already exists" ∧ y ≠ x)) ?_ ?_ ?_
        · refine Does.reads readOnly_sameContent ?_
            fun hf => ⟨rfl, .inl ⟨rfl, hf⟩⟩
          rw [run_sameContent hp]
          by_cases hyx : y = x
          · simp [hyx]
          · simp [hyx]
        · rintro ⟨⟩ v ⟨rfl, rfl⟩
          refine Does.bind (R := fun out v' => v' = v ∧ (out = .ok () ∨ MayFail A ∧ out = .error .osError))
            (Does.syncFile hv ?_ fun hf => ⟨rfl, .inr ⟨hf, rfl⟩⟩) ?_ ?_
          · rw [hp]; exact ⟨rfl, .inl rfl⟩
          · rintro ⟨⟩ v ⟨rfl, -⟩
            refine Does.syncDirectory (.inl hv) (fun _ => lawSame hp) (fun _ => .same hp) (fun h => ?_)
              fun hf => .failed hf.mayFail
            rw [hr] at h; cases h
          · rintro e v ⟨rfl, h | ⟨hf, h⟩⟩
            · cases h
            · cases h; exact .failed hf
        · rintro e v ⟨rfl, ⟨rfl, hf⟩ | ⟨rfl, hne⟩⟩
          · exact .failed hf
          · exact .other hp hne
    · cases hb
  · rintro e v ⟨rfl, h | ⟨hf, h⟩⟩
    · cases h
    · cases h; exact .failed hf

end

end Tirke
