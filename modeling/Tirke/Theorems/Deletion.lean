import Tirke.Theorems.Confirmation
import Tirke.Theorems.FailedReview
/-!
# Deletion

`DELETE` that returned is final: whatever is still waiting or begins later finds no meeting, makes no folder and sends
nothing. Stopped anywhere, it leaves the files of the meeting as they were or none of them.

| here | there |
| --- | --- |
| `Away` | `delete_meeting` has renamed the folder and synced its parent (`artifact_store.py:449`) |
| `Deletes` | the calls of `delete_meeting`, its `except` clause among them |
-/

set_option linter.unusedSectionVars false

namespace Tirke

open CrashProg CrashDisk

section
variable [Lib] [Home] {v v' : View} {r r' : MeetingRecord} {c c' : Config} {e : Event} {rot : Prop} {A : Env host} {s : UUID}

/-! ## What is deleted stays deleted -/

/-- The folder is gone, on disk too, and nobody is about to take it back. -/
structure Away (v : View) : Prop extends Departed v where
  acted : running v.log ≠ none
  final : ∀ t log, v.log ≠ .file (.renamed .folder t) :: log

theorem Departed.look (h : Departed v) (n : Name) : v.look (.folder, n) = none := by
  have hr : CrashDisk.reach v.img.slot .folder ≠ true := fun hr => h.now (reach_iff.1 hr .folder (by simp [Dir.chain]))
  exact if_neg hr

theorem Departed.unread (h : Departed v) : v.run readRecord = .error .meetingNotFound := by
  have hl : v.look marker = none := h.look .meeting
  simp only [readRecord, Prog.bind_eq, run_bind, run_missingAs, hl, error_bind]

theorem Departed.unreadable (h : Departed v) (hr : v.run readRecord = .ok r) : False := by
  rw [h.unread] at hr
  cases hr

/-- **Nothing lawful brings the folder back**, and nothing is sent. -/
theorem Away.lawful (h : Away v) (hl : Legal v e) : Away (v.after e) ∧ sends (v.after e).log = sends v.log := by
  have hacted : running (v.after e).log ≠ none := by
    rw [after_log, hl.running]
    exact h.acted
  have hsame : (∀ t, e ≠ .file (.renamed .folder t)) → (v.after e).img.slot .folder = v.img.slot .folder →
      (v.after e).img.slotDur .folder = v.img.slotDur .folder → Away (v.after e) := by
    intro he hs hd
    refine ⟨⟨hs ▸ h.now, hd ▸ h.later⟩, hacted, fun t log hlog => ?_⟩
    rw [after_log] at hlog
    cases hlog
    exact he t rfl
  have hfile : (∀ q a, e ≠ .asked q a) → sends (v.after e).log = sends v.log := by
    intro hne
    rw [after_log]
    rcases hl.sends with hs | ⟨key, context, audio, suffix, a, _, _, _, he, _⟩
    · exact hs
    · exact (hne _ _ he).elim
  cases hl with
  | synced d hr =>
    refine ⟨⟨⟨h.now, ?_⟩, hacted, fun t log hlog => by cases hlog⟩, hfile fun _ _ he => by cases he⟩
    simp only [after_file, View.change_img, Images.apply]
    split
    · exact h.now
    · exact h.later
  | made d hd =>
    have hne : d ≠ .folder := hd.resolve_right fun hv => h.acted hv.2
    exact ⟨hsame (fun _ he => by cases he) (Function.update_of_ne hne.symm _ _) rfl, hfile fun _ _ he => by cases he⟩
  | restored t log hlog => exact absurd hlog (h.final t log)
  | wiped left hw hr =>
    refine ⟨⟨⟨?_, h.later⟩, hacted, fun t log hlog => by cases hlog⟩, hfile fun _ _ he => by cases he⟩
    cases left with
    | some f => exact h.now
    | none => simp [Images.apply]
  | moved r r' hr => exact (h.unreadable hr).elim
  | archived r n x hr => exact (h.unreadable hr).elim
  | dropped r n x hr => exact (h.unreadable hr).elim
  | snapshot r x hr => exact (h.unreadable hr).elim
  | pdf r t i hr => exact (h.unreadable hr).elim
  | pdfMarker r t i hr => exact (h.unreadable hr).elim
  | pdfDropped r n hr => exact (h.unreadable hr).elim
  | uploadDropped r hr => exact (h.unreadable hr).elim
  | renamed r t hr => exact (h.unreadable hr).elim
  | responded r pdf hr => exact (h.unreadable hr).elim
  | artifact r b n x hp => exact (h.unreadable hp.readable).elim
  | manifest r b hp => exact (h.unreadable hp.readable).elim
  | submit key context audio suffix a r job sha hsub => exact (h.unreadable hsub.readable).elim
  | _ => exact ⟨hsame (fun _ he => by cases he) rfl rfl, rfl⟩

theorem Away.happens (h : Away v) (hh : Happens rot v v') : Away v' ∧ sends v'.log = sends v.log := by
  cases hh with
  | lawful e hl => exact h.lawful hl
  | bounds e he =>
    refine ⟨⟨⟨h.now, h.later⟩, fun hn => h.acted (bounds_running he hn), fun t log hlog => ?_⟩, (bounds_silent he).1⟩
    cases hlog
    exact he.elim
  | power => exact ⟨⟨⟨h.later, h.later⟩, h.acted, nofun⟩, rfl⟩
  | damaged n d => exact ⟨⟨⟨h.now, h.later⟩, h.acted, nofun⟩, rfl⟩

theorem Away.run (h : Reach (Step rot) c) (ha : Away c.world.view) (hs : Run rot c c') :
    Away c'.world.view ∧ sends c'.world.log = sends c.world.log := by
  induction hs with
  | refl => exact ⟨ha, rfl⟩
  | @tail c₁ c₂ hs hstep ih =>
    have hg : Good rot c₁ := reach_good (fun _ _ h => h) (h.trans hs)
    rcases hstep.happens hg with he | hh
    · rw [he]
      exact ⟨ih.1, (congrArg (sends ∘ View.log) he).trans ih.2⟩
    · obtain ⟨ha', hs'⟩ := ih.1.happens hh
      exact ⟨ha', hs'.trans ih.2⟩

/-- **A deletion that returned is final.** However the run goes on, the meeting is `MeetingNotFound`, none of its files is
there to be read or appears again, and no audio is sent. -/
theorem deletion_is_final (h : Reach (Step rot) c) (hrun : running c.world.log = some (.delete s))
    (hret : c.prog = some (.ret ())) (hs : Run rot c c') :
    c'.world.view.run readRecord = .error .meetingNotFound ∧ (∀ n, c'.world.view.look (.folder, n) = none) ∧
      sends c'.world.log = sends c.world.log := by
  have hg : Good rot c := reach_good (fun _ _ h => h) h
  obtain ⟨-, hon⟩ := hg.obeys _ hret
  obtain ⟨hdep, -⟩ := hon _ hrun rfl
  have hacted : running c.world.log ≠ none := by rw [hrun]; nofun
  have hall : Departed c'.world.view ∧ sends c'.world.log = sends c.world.log := by
    rcases Relation.ReflTransGen.cases_head hs with rfl | ⟨c₁, hstep, hs'⟩
    · exact ⟨hdep, rfl⟩
    -- the use ends, or is cut off; after that the folder is away for good
    have hfirst : Away c₁.world.view ∧ sends c₁.world.log = sends c.world.log := by
      cases hstep with
      | returned w => exact ⟨⟨⟨hdep.now, hdep.later⟩, hacted, nofun⟩, rfl⟩
      | killed w p => exact ⟨⟨⟨hdep.now, hdep.later⟩, hacted, nofun⟩, rfl⟩
      | power w p => exact ⟨⟨⟨hdep.later, hdep.later⟩, hacted, nofun⟩, rfl⟩
      | _ => cases hret
    obtain ⟨ha, hsends⟩ := Away.run (h.trans (.single hstep)) hfirst.1 hs'
    exact ⟨ha.toDeparted, hsends.trans hfirst.2⟩
  exact ⟨hall.1.unread, hall.1.look, hall.2⟩

/-! ## All or nothing -/

/-- What `DELETE` does to the tree: it empties the folder once that is durably out of its place, never before. -/
inductive Deletes : Law where
  | renamed {v : View} (t : UUID) : Deletes v (.file (.renamed .folder t))
  | synced {v : View} : Deletes v (.file (.synced .meetings))
  | restored {v : View} (h : v.img.slotDur .folder = .live) : Deletes v (.file (.restored .folder))
  | wiped {v : View} (left : Option (Dir × Name → Bool)) (h : Departed v) : Deletes v (.file (.wiped .folder left))

theorem Departed.wiped (h : Departed v) (hf : ∀ n, v.img.vol (.meetings, n) = none) (left : Option (Dir × Name → Bool)) :
    Departed (v.change (.wiped .folder left)) ∧ ∀ n, (v.change (.wiped .folder left)).img.vol (.meetings, n) = none := by
  refine ⟨⟨?_, h.later⟩, fun n => ?_⟩
  · cases left with
    | some f => exact h.now
    | none => simp [Images.apply]
  · simp only [View.change_img, Images.apply]
    rw [if_neg (by simp [under, DirTree.chain, Dir.chain])]
    exact hf n

/-- What is left of `v`: its files, as they show and as they are durable, unless the folder is out of its place. -/
structure Remains (v v' : View) : Prop where
  now : v'.img.slot .folder = .live ∨ v'.img.slotDur .folder = .live → v'.img.vol = v.img.vol
  later : v'.img.dur = v.img.dur
  slot : ∀ d, d ≠ .folder → v'.img.slot d = v.img.slot d
  slotDur : ∀ d, d ≠ .folder → v'.img.slotDur d = v.img.slotDur d
  files : ∀ n, v'.img.vol (.meetings, n) = none

theorem parent_meetings {d : Dir} (h : parent d = some .meetings) : d = .folder := by
  cases d <;> simp_all [parent, DirTree.chain, Dir.chain]

/-- **One event of a deletion.** -/
theorem Remains.step (h : Remains v v') (hf : ∀ n, v.img.dur (.meetings, n) = none) (he : Deletes v' e) :
    Remains v (v'.after e) := by
  cases he with
  | renamed t =>
    refine ⟨fun hl => h.now (hl.imp_left fun hl => ?_), h.later, fun d hd => ?_, h.slotDur, h.files⟩
    · simp [Images.apply] at hl
    · exact (Function.update_of_ne hd _ _).trans (h.slot d hd)
  | restored hd =>
    exact ⟨fun _ => h.now (.inr hd), h.later, fun d hd => (Function.update_of_ne hd _ _).trans (h.slot d hd), h.slotDur,
      h.files⟩
  | synced =>
    refine ⟨fun hl => h.now ?_, funext fun q => ?_, h.slot, fun d hd => ?_, h.files⟩
    · rcases hl with hl | hl
      · exact .inl hl
      · simpa [Images.apply, parent, DirTree.chain, Dir.chain] using Or.inl hl
    · simp only [after_file, View.change_img, Images.apply]
      split
      · next hq =>
        obtain ⟨d, n⟩ := q
        cases hq
        rw [h.files n, hf n]
      · rw [h.later]
    · simp only [after_file, View.change_img, Images.apply]
      rw [if_neg fun hp => hd (parent_meetings hp)]
      exact h.slotDur d hd
  | wiped left hg =>
    obtain ⟨hg', hf'⟩ := hg.wiped h.files left
    refine ⟨fun hl => absurd hl (not_or.2 ⟨hg'.now, hg'.later⟩), h.later, fun d hd => ?_, h.slotDur, hf'⟩
    cases left with
    | some f => exact h.slot d hd
    | none => exact (Function.update_of_ne hd _ _).trans (h.slot d hd)

/-- Where the folder is when a deletion ends. -/
def Ended (v : View) (out : Except Exn Unit) (v' : View) : Prop :=
  match out with
  | .ok () => Departed v'
  | .error _ => (v'.img.slot .folder = v.img.slot .folder ∨ ∃ t, v'.img.slot .folder = .moved t) ∧
      v'.img.slotDur .folder = v.img.slotDur .folder

theorem readOnly_anythingPending : ReadOnly (fun _ => True) (Lifecycle.anythingPending r) := by
  unfold Lifecycle.anythingPending
  split
  · trivial
  · refine ReadOnly.bind (ReadOnly.bind (readOnly_readRecord.discard.mono fun _ _ => trivial) fun _ => readOnly_exists trivial)
      fun present => trivial

theorem does_deleting {suffix : UUID} (hs : Sound v) (hr : v.run readRecord = .ok r) :
    Does A Deletes (deleteMeeting suffix) v (Ended v) := by
  have hsame : ∀ e, Ended v (.error e) v := fun e => ⟨.inl rfl, rfl⟩
  have hroot := hs.rooted (readable_look hr)
  have hlive : v.img.slot .folder = .live := reach_iff.1 hroot.now _ (by simp [Dir.chain])
  have hliveDur : v.img.slotDur .folder = .live := reach_iff.1 hroot.later _ (by simp [Dir.chain])
  have hfiles : ∀ n, v.img.vol (.meetings, n) = none := fun n => (hs.files n).1
  refine Does.bind (R := fun _ v' => v' = v) (Does.openLock (fun _ => rfl) (fun _ => rfl) fun _ => rfl) ?_
    (by rintro e _ rfl; exact hsame e)
  rintro ⟨⟩ v₁ rfl
  refine Does.readThen readOnly_readRecord.discard (fun _ _ => ?_) (fun e _ => hsame e) fun _ => hsame _
  refine Does.bind (R := fun out v' => match out with
      | .ok () => v' = v₁.change (.renamed .folder suffix)
      | .error _ => v' = v₁)
    (Does.rename (fun _ => .renamed suffix) (fun _ => rfl) (fun _ => rfl) fun _ => rfl) ?_
      (by rintro e _ rfl; exact hsame e)
  rintro ⟨⟩ v' rfl
  refine Does.bind (R := fun out v' => match out with
      | .ok () => v' = (v₁.change (.renamed .folder suffix)).sync .meetings
      | .error e => Ended v₁ (.error e) v') ?_ ?_ fun _ _ h => h
  · refine Does.handle (R := fun out v' => match out with
        | .ok () => v' = (v₁.change (.renamed .folder suffix)).sync .meetings
        | .error _ => v' = v₁.change (.renamed .folder suffix))
      (Does.syncDirectory (.inr hfiles) (fun _ => .synced) (fun _ => rfl) (fun _ => rfl) fun _ => rfl)
      (fun _ _ h => h) ?_
    rintro e v' rfl
    -- the rename is taken back
    refine Does.bind (R := fun out v' => (∀ n, v'.img.vol (.meetings, n) = none) ∧ v'.img.slotDur .folder = .live ∧
        match out with
        | .ok () => v'.img.slot .folder = .live
        | .error _ => ∃ t, v'.img.slot .folder = .moved t)
      (Does.restore (.restored hliveDur) ⟨hfiles, hliveDur, by simp [Images.apply]⟩
        fun _ => ⟨hfiles, hliveDur, suffix, by simp [Images.apply]⟩) ?_
      fun _ _ h => ⟨.inr h.2.2, h.2.1.trans hliveDur.symm⟩
    rintro ⟨⟩ v' ⟨hvol, hdur, hslot⟩
    refine Does.bind (R := fun _ v'' => v''.img.slot .folder = .live ∧ v''.img.slotDur .folder = .live)
      (Does.syncDirectory (.inr hvol) (fun _ => .synced) (fun _ => ⟨hslot, ?_⟩) (fun _ => ⟨hslot, hdur⟩)
        fun _ => ⟨hslot, hdur⟩)
      (fun _ _ h => .raise ⟨.inl (h.1.trans hlive.symm), h.2.trans hliveDur.symm⟩)
      fun _ _ h => ⟨.inl (h.1.trans hlive.symm), h.2.trans hliveDur.symm⟩
    simpa [Images.apply, parent, DirTree.chain, Dir.chain] using hslot
  · rintro ⟨⟩ v' rfl
    have hgone : Departed ((v₁.change (.renamed .folder suffix)).sync .meetings) := by
      constructor <;> simp [View.sync, Images.apply, parent, DirTree.chain, Dir.chain]
    have hfiles₂ : ∀ n, ((v₁.change (.renamed .folder suffix)).sync .meetings).img.vol (.meetings, n) = none := hfiles
    generalize (v₁.change (.renamed .folder suffix)).sync .meetings = v₂ at hgone hfiles₂
    have hos : ∀ e, (.error .osError : Except Exn Unit) = .error e → e.isOSError = true := by
      rintro e he; cases he; rfl
    refine Does.handle (R := fun out v' => Departed v' ∧ ∀ e, out = .error e → e.isOSError = true) ?_
      (fun _ _ h => h.1) fun e v' h => ?_
    · refine Does.bind (R := fun out v' => (Departed v' ∧ ∀ n, v'.img.vol (.meetings, n) = none) ∧
        ∀ e, out = .error e → e.isOSError = true)
        (Does.rmtree (fun left => .wiped left hgone) ⟨hgone.wiped hfiles₂ none, (by rintro _ ⟨⟩)⟩
          fun _ left => ⟨hgone.wiped hfiles₂ (some left), hos⟩) ?_ fun _ _ h => ⟨h.1.1, h.2⟩
      rintro ⟨⟩ v' ⟨⟨hd, hv⟩, -⟩
      refine Does.syncDirectory (.inr hv) (fun _ => .synced) (fun _ => ⟨⟨hd.now, ?_⟩, (by rintro _ ⟨⟩)⟩)
        (fun _ => ⟨hd, ?_⟩) fun _ => ⟨hd, hos⟩
      · simpa [Images.apply, parent, DirTree.chain, Dir.chain] using hd.now
      · rintro e he; cases he; rfl
    · rw [h.2 e rfl]
      exact .ret h.1

/-- **`DELETE`**, whatever fails. -/
theorem does_deletes {suffix : UUID} (hs : Sound v) : Does A Deletes (Lifecycle.deleteMeeting suffix) v (Ended v) := by
  have hsame : ∀ e, Ended v (.error e) v := fun e => ⟨.inl rfl, rfl⟩
  refine does_lifecycleLock (fun r b hr _ => ?_) (fun e _ => hsame e) fun _ => hsame _
  refine Does.readThen readOnly_readRecord (fun r₁ h => ?_) (fun e _ => hsame e) fun _ => hsame _
  refine Does.bind does_demand ?_ (by rintro e _ ⟨rfl, -⟩; exact hsame e)
  rintro ⟨⟩ v ⟨rfl, -⟩
  refine Does.readThen readOnly_anythingPending (fun pending _ => ?_) (fun e _ => hsame e) fun _ => hsame _
  refine Does.bind does_demand ?_ (by rintro e _ ⟨rfl, -⟩; exact hsame e)
  rintro ⟨⟩ v ⟨rfl, -⟩
  exact does_deleting hs hr

/-! ## What a stopped deletion leaves -/

/-- The meeting's files are those of before, or none is there. -/
def AllOrNone (v v' : View) : Prop := (∀ q, v'.look q = v.look q) ∨ ∀ q, .folder ∈ q.1.chain → v'.look q = none

theorem look_absent {q : Path} (h : v.img.slot .folder ≠ .live) (hq : .folder ∈ q.1.chain) : v.look q = none :=
  if_neg fun hr => h (reach_iff.1 hr .folder hq)

theorem slot_eq {f g : Dir → Slot UUID} (h : ∀ d, d ≠ .folder → f d = g d) (hf : f .folder = g .folder) : f = g := by
  funext d
  by_cases hd : d = .folder
  · rw [hd, hf]
  · exact h d hd

/-- It is as it was when the folder is where it was. -/
theorem Remains.look (h : Remains v v') (hl : v.img.slot .folder = .live) (hl' : v'.img.slot .folder = .live) (q : Path) :
    v'.look q = v.look q := by
  simp only [View.look, Images.look, h.now (.inl hl'), slot_eq h.slot (hl'.trans hl.symm)]

theorem Remains.lookLater (h : Remains v v') (hl : v.img.slotDur .folder = .live) (hl' : v'.img.slotDur .folder = .live)
    (q : Path) : v'.afterPower.look q = v.afterPower.look q := by
  simp only [View.look, View.afterPower, Images.look, Images.power, h.later, slot_eq h.slotDur (hl'.trans hl.symm)]
  rfl

/-- A deletion is under way, or has just ended. -/
theorem performs_deletes (h : Reach (Step rot) c) (hs : Performs (c.begin (.delete s)) c') :
    Fit c'.world.disk ∧ Remains c.world.view c'.world.view ∧
      ∀ p, c'.prog = some p → Sat anything (Guarded Deletes) (fun out w' => Ended c.world.view out w'.view) p c'.world := by
  have hg : Good rot c := reach_good (fun _ _ h => h) h
  have hsound : Sound c.world.view := hg.life.inv.sound
  induction hs with
  | refl =>
    refine ⟨hg.fit, ⟨fun _ => rfl, rfl, fun _ _ => rfl, fun _ _ => rfl, fun n => (hsound.files n).1⟩, fun p hp => ?_⟩
    cases hp
    have hd : Does anything Deletes (Lifecycle.deleteMeeting s) (c.begin (.delete s)).world.view
        (Ended (c.begin (.delete s)).world.view) := does_deletes ⟨hsound.files, hsound.plain, hsound.parents,
          fun hp => hsound.later (inPlay_before hp rfl rfl nofun)⟩
    exact (hd _ rfl hg.fit).mono fun _ _ hq => hq.2
  | tail _ hstep ih =>
    obtain ⟨hfit, hrem, hsat⟩ := ih
    cases hstep with
    | op w o k ch =>
      have ho := hsat _ rfl
      obtain ⟨hfit', hact⟩ := guarded_act hfit ho.1 ch
      refine ⟨hfit', ?_, fun p hp => ?_⟩
      · rcases hact with he | ⟨e, hdel, he⟩
        · exact he ▸ hrem
        · exact he ▸ hrem.step (fun n => (hsound.files n).2) hdel
      · cases hp
        exact ho.2 ch trivial

/-- **A deletion is all or nothing.** Wherever it is stopped, after any failures, the meeting's files are there as before
or none of them is, now and after a power failure. If it returned, none is; if it raised, all are, unless the folder
could not be renamed back: then only a power failure brings them back. -/
theorem deletion_is_atomic (h : Reach (Step rot) c) (hr : c.world.view.run readRecord = .ok r)
    (hs : Performs (c.begin (.delete s)) c') :
    AllOrNone c.world.view c'.world.view ∧ AllOrNone c.world.view.afterPower c'.world.view.afterPower ∧
    (c'.prog = some (.ret ()) → Departed c'.world.view) ∧
    ∀ e, c'.prog = some (.raise e) → (∀ q, c'.world.view.afterPower.look q = c.world.view.afterPower.look q) ∧
      ((∀ q, c'.world.view.look q = c.world.view.look q) ∨ ∃ t, c'.world.view.img.slot .folder = .moved t) := by
  have hg : Good rot c := reach_good (fun _ _ h => h) h
  obtain ⟨-, hrem, hsat⟩ := performs_deletes h hs
  have hroot := hg.life.inv.sound.rooted (readable_look hr)
  have hlive : c.world.view.img.slot .folder = .live := reach_iff.1 hroot.now _ (by simp [Dir.chain])
  have hliveDur : c.world.view.img.slotDur .folder = .live := reach_iff.1 hroot.later _ (by simp [Dir.chain])
  refine ⟨?_, ?_, fun hret => hsat _ hret, fun e hraise => ?_⟩
  · by_cases hl : c'.world.view.img.slot .folder = .live
    · exact .inl (hrem.look hlive hl)
    · exact .inr fun q => look_absent hl
  · by_cases hl : c'.world.view.img.slotDur .folder = .live
    · exact .inl (hrem.lookLater hliveDur hl)
    · exact .inr fun q => look_absent (v := c'.world.view.afterPower) hl
  · obtain ⟨hslot, hdur⟩ := hsat _ hraise
    refine ⟨hrem.lookLater hliveDur (hdur.trans hliveDur), hslot.imp (fun hsl => ?_) id⟩
    exact hrem.look hlive (hsl.trans hlive)

end

section
attribute [local instance] Sample.lib Sample.home

namespace Sample

/-- The parent of the folder cannot be made durable. -/
def parentFails : World → Op → Choice := fun _ o => match o with
  | .file (.syncDir .meetings) => { Choice.calm with fault := some ⟨.text [], fun _ => false⟩ }
  | _ => .calm

/-- The deletion was taken back. -/
def undeleted : Config :=
  ⟨(host.play never parentFails (Action.delete 5).program (processed.begin (.delete 5)).world).2,
    some (host.play never parentFails (Action.delete 5).program (processed.begin (.delete 5)).world).1⟩

end Sample

theorem deletion_is_final_sample : running Sample.deleted.world.log = some (.delete 5) ∧
    (Sample.deleted.cues [.power, .start .processOnce, .play Sample.never (Sample.answering (Sample.gpu Sample.first))]
      ).world.view.run readRecord = .error .meetingNotFound := by
  have hrun : running Sample.deleted.world.log = some (.delete 5) := by decide +kernel
  have h : Reach (Step False) Sample.deleted := Sample.reach_created.cues (.inr rfl)
  exact ⟨hrun, (deletion_is_final h hrun (prog_of_returned (by decide +kernel)) (run_cues (.inr rfl))).1⟩

theorem deletion_is_atomic_sample : Sample.undeleted.prog = some (.raise .osError) ∧
    AllOrNone Sample.processed.world.view Sample.undeleted.world.view := by
  have hr : Sample.processed.world.view.run readRecord = .ok (Sample.recordOf Sample.processed) := by decide +kernel
  exact ⟨prog_of_raised (by decide +kernel), (deletion_is_atomic Sample.reach_processed hr performs_play).1⟩

end

end Tirke
