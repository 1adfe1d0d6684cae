import Tirke.Spec.Cleanup
/-!
# The janitor and `delete_meeting` obey the law

Both end in removing a tree: the folder under its own name when it never got a marker, its tombstone
otherwise. `Grounded` is what the meeting's surroundings keep: directories above the folder stay in place
and hold no files of their own.
-/

set_option linter.unusedSectionVars false

namespace Tirke

open CrashProg CrashDisk

variable [Lib] [Home] [Weather] {A : Env host} [Forecast A] {v v' : View} {r r' : MeetingRecord}

structure Grounded (v : View) : Prop where
  parents : v.img.vol marker ≠ none → v.reach .meetings = true
  files : ∀ n, v.img.vol (.meetings, n) = none
  plain : ∀ d t, v.img.slot d = .moved t → d = .folder

theorem Grounded.settled (h : Grounded v) : Settled v .meetings := .inr h.files

/-! ## Removing a tree -/

/-- What removing a tree may leave of it. -/
structure Cut (v : View) (out : Except Exn Unit) (v' : View) : Prop where
  now : v'.img.slot .folder = v.img.slot .folder ∨ v'.img.slot .folder = .absent
  later : v'.img.slotDur .folder = v.img.slotDur .folder ∨ v'.img.slotDur .folder = v'.img.slot .folder
  log : Quiet v.log v'.log
  error : ∀ e, out = .error e → e.isOSError = true

theorem Cut.wiped {left : Option (Dir × Name → Bool)} {out : Except Exn Unit} (h : ∀ e, out = .error e → e.isOSError = true) :
    Cut v out (v.change (.wiped .folder left)) := by
  refine ⟨?_, .inl rfl, .cons _ rfl, h⟩
  simp only [View.change_img, Images.apply]
  cases left with
  | none => exact .inr (Function.update_self ..)
  | some _ => exact .inl rfl

theorem Cut.synced {out out' : Except Exn Unit} (h : Cut v out v') (h' : ∀ e, out' = .error e → e.isOSError = true) :
    Cut v out' (v'.sync .meetings) :=
  ⟨h.now, .inr (by simp [View.sync, Images.apply, parent, DirTree.chain, Dir.chain]),
    h.log.trans (.cons _ rfl), h'⟩

theorem does_removeTree (h : v.img.slot .folder ≠ .live ∨ v.img.vol marker = none) (hg : Grounded v)
    (hact : running v.log ≠ none) : Does A Legal removeTree v (Cut v) := by
  have hos : ∀ e, (Except.error .osError : Except Exn Unit) = .error e → e.isOSError = true := by
    rintro e he; cases he; rfl
  refine Does.bind (R := fun out v' => Cut v out v' ∧ ∃ left, v' = v.change (.wiped .folder left))
    (Does.rmtree (fun left => .wiped left h hact) ⟨.wiped nofun, none, rfl⟩ fun _ left => ⟨.wiped hos, some left, rfl⟩) ?_
      fun _ _ h => h.1
  rintro ⟨⟩ v' ⟨hc, left, rfl⟩
  refine Does.syncDirectory (.inr fun n => hg.files n) (fun h => .synced _ h) (fun _ => hc.synced nofun) (fun _ => ?_)
    fun _ => ?_
  · exact ⟨hc.now, hc.later, hc.log, by rintro e he; cases he; rfl⟩
  · exact ⟨hc.now, hc.later, hc.log, hos⟩

/-! ## The janitor -/

theorem late_of_overdue {t : Time} (h : r.overdue t = true) (ht : MayShow A t) : r.late := by
  simp only [MeetingRecord.overdue, Bool.and_eq_true] at h
  obtain ⟨deadline, hd, hle⟩ := (Option.any_eq_true _ _).1 h.2
  exact ⟨t, deadline, ht.shows, hd, by simpa using hle⟩

/-- What expiring the upload leaves when it raises. -/
def Expired (A : Env host) (v : View) (r : MeetingRecord) (out : Except Exn Unit) : Prop :=
  ∀ e, out = .error e → (e = .osError ∧ MayFail A) ∨
    (r.meeting.status.published = true ∧ v.run readResults = .error e ∧ ∃ t, MayShow A t ∧ r.overdue t = true)

theorem does_expireUpload (hr : v.run readRecord = .ok r) (hact : running v.log ≠ none) :
    Does A Legal expireUpload v fun out _ => Expired A v r out := by
  refine Does.readThen readOnly_readRecord (fun r₁ h => ?_) (fun e h => ?_) fun hf e he => ?_
  swap
  · rw [hr] at h; cases h
  swap
  · cases he; exact .inl ⟨rfl, hf⟩
  rw [hr] at h
  cases h
  refine Does.bind (R := fun out v' => v' = v ∧ ∃ t, out = .ok t ∧ MayShow A t)
    (Does.now fun t ht => ⟨rfl, t, rfl, ht⟩) ?_ ?_
  swap
  · rintro e v ⟨-, t, ht, -⟩
    cases ht
  rintro t v ⟨rfl, _, ht, hshow⟩
  cases ht
  split
  swap
  · exact .ret nofun
  next hover =>
  refine Does.bind (R := fun out v' => Frame (· = ((.folder, .upload) : Path)) v v' ∧
    (out = .ok false ∨ out = .ok true ∧ v'.uploadGone)) ?_ ?_ ?_
  · refine Does.handle (R := fun out v' => Frame (· = ((.folder, .upload) : Path)) v v' ∧ match out with
        | .ok b => b = true ∧ v'.uploadGone
        | .error e => e = .osError) ?_ ?_ ?_
    · refine Does.bind (does_deleteUpload hr (.inr (late_of_overdue hover hshow))) ?_ ?_
      · rintro ⟨⟩ v' ⟨hf, hg, -⟩
        exact .ret ⟨hf, rfl, hg⟩
      · rintro e v' ⟨hf, he, -⟩
        exact ⟨hf, he⟩
    · rintro b v' ⟨hf, rfl, hg⟩
      exact ⟨hf, .inr ⟨rfl, hg⟩⟩
    · rintro e v' ⟨hf, rfl⟩
      exact .ret ⟨hf, .inl rfl⟩
  swap
  · rintro e v' ⟨-, h | ⟨h, -⟩⟩ <;> cases h
  -- the record saved depends on whether the upload is gone; both keep the status
  have hsave : ∀ v₁ r', Frame (· = ((.folder, .upload) : Path)) v v₁ → Move v₁ r r' →
      r'.meeting.attempt = r.meeting.attempt → r'.meeting.status = r.meeting.status →
      Does A Legal (discard (updateMeeting r')) v₁ fun out _ => Expired A v r out := by
    intro v₁ r' hf hm ha hs
    have hr₁ : v₁.run readRecord = .ok r := (hf.run readOnly_readRecord fun q hq => by rw [hq]; decide).trans hr
    have hres : v₁.run readResults = v.run readResults := hf.run readOnly_readResults fun q hq => by
      rintro rfl
      rcases hq with h | h | h | h | h <;> cases h
    refine Does.bind (does_update hr₁ hm ha (by rw [hf.log.running]; exact hact)) (fun _ _ _ => .ret nofun) ?_
    rintro e v₂ hu e' he
    cases he
    cases hu with
    | refused _ hp h => exact .inr ⟨hs ▸ hp, hres ▸ h, t, hshow, hover⟩
    | nothing hf | shown hf | synced hf => exact .inl ⟨rfl, hf⟩
  rintro removed v₁ ⟨hf, h | ⟨h, hg⟩⟩
  · cases h
    exact hsave v₁ _ hf (.deferred t hover) rfl rfl
  · cases h
    exact hsave v₁ _ hf (.expired t hover hg) rfl rfl

/-- Why a visit of the janitor raised: an I/O error, a record that cannot be read, or one without its results. -/
def SweepRaised (A : Env host) (v : View) (out : Except Exn Unit) : Prop :=
  ∀ e, out = .error e → e.isOSError = true ∨ v.run readRecord = .error e ∨ ∃ r, v.run readRecord = .ok r ∧
    r.meeting.status.published = true ∧ v.run readResults = .error e ∧ ∃ t, MayShow A t ∧ r.overdue t = true

/-- **The janitor's visit obeys the law.** -/
theorem does_sweepEntry (hg : Grounded v) (hact : running v.log ≠ none) :
    Does A Legal sweepEntry v fun out _ => SweepRaised A v out := by
  have hos : ∀ v, SweepRaised A v (.error .osError) := by rintro v e he; cases he; exact .inl rfl
  have hcut : ∀ v out v', Cut v out v' → SweepRaised A v out := fun _ _ _ h e he => .inl (h.error e he)
  refine Does.bind (R := fun out v' => v' = v ∧ match out with
      | .ok s => s = v.img.slot .folder
      | .error e => e = .osError)
    (Does.probe ⟨rfl, rfl⟩ fun _ => ⟨rfl, rfl⟩) ?_ fun e _ h => by rw [h.2]; exact hos v
  rintro s v ⟨rfl, hs⟩
  cases s with
  | absent => exact .ret nofun
  | moved t => exact (does_removeTree (.inl (by rw [← hs]; exact nofun)) hg hact).mono (hcut v)
  | live =>
    refine Does.bind (R := fun out v' => v' = v ∧ match out with
        | .ok b => b = (v.look marker).isSome
        | .error e => e = .osError)
      (Does.exists ⟨rfl, rfl⟩ fun _ => ⟨rfl, rfl⟩) ?_ fun e _ h => by rw [h.2]; exact hos v
    rintro b v ⟨rfl, hb⟩
    cases b with
    | true =>
      refine does_lifecycleLock (fun r b hr _ => ?_) (fun e he e' h => ?_) fun _ => hos v
      · cases b with
        | true =>
          refine (does_expireUpload hr hact).mono fun out _ h e he => ?_
          rcases h e he with ⟨rfl, -⟩ | ⟨hp, hx, ht⟩
          · exact .inl rfl
          · exact .inr (.inr ⟨r, hr, hp, hx, ht⟩)
        | false => exact .ret nofun
      · cases h
        exact .inr (.inl he)
    | false =>
      have hno : v.img.vol marker = none := by
        by_contra hsome
        have hreach : v.reach .folder = true := by
          have hp := reach_iff.1 (hg.parents hsome)
          refine reach_iff.2 fun c hc => ?_
          rcases List.mem_cons.1 hc with rfl | hc
          · exact hs.symm
          · exact hp c hc
        rw [look_of_reach (p := marker) hreach] at hb
        cases hv : v.img.vol marker with
        | none => exact hsome hv
        | some x => rw [hv] at hb; cases hb
      refine Does.bind (R := fun out v' => v' = v ∧ ∃ b, out = .ok b) (Does.staleTree fun b => ⟨rfl, b, rfl⟩) ?_
        fun _ _ h => by obtain ⟨-, b, hb⟩ := h; cases hb
      rintro stale v ⟨rfl, -⟩
      cases stale with
      | true => exact (does_removeTree (.inr hno) hg hact).mono (hcut v)
      | false => exact .ret nofun

/-! ## Deletion -/

/-- `anything_pending` answers false only when nothing is. -/
theorem does_anythingPending (hr : v.run readRecord = .ok r) :
    Does A Legal (Lifecycle.anythingPending r) v fun out v' => v' = v ∧ (out = .ok false →
      r.cleanupPending = false ∧ r.jobsPending = false ∧ v.look (.folder, .upload) = none) := by
  unfold Lifecycle.anythingPending
  split
  · exact .ret ⟨rfl, nofun⟩
  next hc =>
  have hpresent : ReadOnly (fun _ => True) uploadPresent :=
    ReadOnly.bind (readOnly_readRecord.discard.mono fun _ _ => trivial) fun _ => readOnly_exists trivial
  refine Does.readThen hpresent (fun present h => ?_) (fun _ _ => ⟨rfl, nofun⟩) fun _ => ⟨rfl, nofun⟩
  have : present = (v.look (.folder, .upload)).isSome := by
    simp only [uploadPresent, Prog.bind_eq, run_bind, run_discard, hr, ok_bind, run_exists] at h
    cases h
    rfl
  refine .ret ⟨rfl, fun h' => ?_⟩
  have hor : (present || r.jobsPending) = false := by
    cases hb : (present || r.jobsPending) with
    | false => rfl
    | true => rw [hb] at h'; cases h'
  rw [Bool.or_eq_false_iff] at hor
  refine ⟨by simpa using hc, hor.2, ?_⟩
  rw [this] at hor
  simpa using hor.1

/-- The folder is out of its place, and stays so after a power failure. -/
structure Departed (v : View) : Prop where
  now : v.img.slot .folder ≠ .live
  later : v.img.slotDur .folder ≠ .live

/-- What a deletion leaves: nothing in place when it returns, everything when it raises, unless the rename cannot be
taken back. -/
def Deleted (v : View) (out : Except Exn Unit) (v' : View) : Prop :=
  match out with
  | .ok () => Departed v' ∧ ∃ t, .file (.renamed .folder t) ∈ v'.log
  | .error _ => v'.img.vol = v.img.vol ∧ (v'.img.slot = v.img.slot ∨ ∃ t, v'.img.slot .folder = .moved t)

theorem does_deleteMeeting {suffix : UUID} (hr : v.run readRecord = .ok r) (hc : r.cleanupPending = false)
    (hj : r.jobsPending = false) (hu : v.look (.folder, .upload) = none) (hg : Grounded v)
    (hq : ∃ s, running v.log = some (.delete s)) : Does A Legal (deleteMeeting suffix) v (Deleted v) := by
  have hact : running v.log ≠ none := by
    obtain ⟨s, hs⟩ := hq
    rw [hs]
    rintro ⟨⟩
  have hvoid := readable_notVoid hr
  have hlive : v.img.slot .folder = .live := reach_iff.1 (readable_reach hr) _ (by simp [Dir.chain])
  have hsame : ∀ e, Deleted v (.error e) v := fun e => ⟨rfl, .inl rfl⟩
  refine Does.bind (R := fun _ v' => v' = v) (Does.openLock (fun _ => rfl) (fun _ => rfl) fun _ => rfl) ?_
    (by rintro e _ rfl; exact hsame e)
  rintro ⟨⟩ v rfl
  refine Does.readThen readOnly_readRecord.discard (fun _ _ => ?_) (fun e _ => hsame e) fun _ => hsame _
  refine Does.bind (R := fun out v' => match out with
      | .ok () => v' = v.change (.renamed .folder suffix)
      | .error _ => v' = v)
    (Does.rename (fun _ => .renamed r suffix hr hc hj hu hq) (fun _ => rfl) (fun _ => rfl) fun _ => rfl) ?_
      (by rintro e _ rfl; exact hsame e)
  rintro ⟨⟩ v' rfl
  have hvoid₁ : ¬ (v.change (.renamed .folder suffix)).Void := hvoid
  refine Does.bind (R := fun out v' => match out with
      | .ok () => v' = (v.change (.renamed .folder suffix)).sync .meetings
      | .error e => Deleted v (.error e) v') ?_ ?_ fun _ _ h => h
  · refine Does.handle (R := fun out v' => match out with
        | .ok () => v' = (v.change (.renamed .folder suffix)).sync .meetings
        | .error _ => v' = v.change (.renamed .folder suffix))
      (Does.syncDirectory (.inl hvoid₁) (fun h => .synced _ h) (fun _ => rfl) (fun _ => rfl) fun _ => rfl)
      (fun _ _ h => h) ?_
    rintro e v' rfl
    -- the rename is taken back
    have hback : ((v.change (.renamed .folder suffix)).change (.restored .folder)).img.slot = v.img.slot := by
      funext d
      simp only [View.change_img, Images.apply, Function.update_apply]
      split
      · next hd => rw [hd, hlive]
      · rfl
    have hmoved : (v.change (.renamed .folder suffix)).img.slot .folder = .moved suffix := by
      simp [Images.apply]
    refine Does.bind (R := fun out v' => ¬ v'.Void ∧ v'.img.vol = v.img.vol ∧ match out with
        | .ok () => v'.img.slot = v.img.slot
        | .error _ => ∃ t, v'.img.slot .folder = .moved t)
      (Does.restore (.restored suffix v.log rfl) ⟨hvoid, rfl, hback⟩ fun _ => ⟨hvoid₁, rfl, suffix, hmoved⟩) ?_
      fun _ _ h => ⟨h.2.1, .inr h.2.2⟩
    rintro ⟨⟩ v' ⟨hv, hvol, hslot⟩
    refine Does.bind (R := fun _ v'' => v''.img.vol = v.img.vol ∧ v''.img.slot = v.img.slot)
      (Does.syncDirectory (.inl hv) (fun h => .synced _ h) (fun _ => ⟨hvol, hslot⟩) (fun _ => ⟨hvol, hslot⟩)
        fun _ => ⟨hvol, hslot⟩)
      (fun _ _ h => .raise ⟨h.1, .inl h.2⟩) fun _ _ h => ⟨h.1, .inl h.2⟩
  · rintro ⟨⟩ v' rfl
    have hmoved : ((v.change (.renamed .folder suffix)).sync .meetings).img.slot .folder = .moved suffix := by
      simp [View.sync, Images.apply]
    have hmovedDur : ((v.change (.renamed .folder suffix)).sync .meetings).img.slotDur .folder = .moved suffix := by
      simp [View.sync, Images.apply, parent, DirTree.chain, Dir.chain]
    have hgone : ∀ out v', Cut ((v.change (.renamed .folder suffix)).sync .meetings) out v' → Deleted v (.ok ()) v' := by
      intro out v' hcut
      have hnow : v'.img.slot .folder ≠ .live := by
        rcases hcut.now with h | h
        · rw [h, hmoved]; rintro ⟨⟩
        · rw [h]; rintro ⟨⟩
      refine ⟨⟨hnow, ?_⟩, suffix, hcut.log.mem (List.mem_cons_of_mem _ List.mem_cons_self)⟩
      rcases hcut.later with h | h
      · rw [h, hmovedDur]; rintro ⟨⟩
      · rw [h]; exact hnow
    refine Does.handle (does_removeTree (.inl ?_) ⟨fun h => ?_, hg.files, fun d t h => ?_⟩ hact)
      (fun _ v' h => hgone _ v' h) fun e v' h => ?_
    · rw [hmoved]; rintro ⟨⟩
    · have hp := reach_iff.1 (reach_parent (c := .meetings) (readable_reach hr) (by simp [Dir.chain]))
      refine reach_iff.2 fun c hc => ?_
      have hne : c ≠ .folder := by
        rintro rfl
        simp [Dir.chain] at hc
      simp only [View.sync, View.change_img, Images.apply, Function.update_of_ne hne]
      exact hp c hc
    · by_contra hd
      simp only [View.sync, View.change_img, Images.apply, Function.update_of_ne hd] at h
      exact hd (hg.plain d t h)
    · rw [h.error e rfl]
      exact .ret (hgone _ v' h)

/-- **`DELETE` obeys the law.** -/
theorem does_delete {suffix : UUID} (hg : Grounded v) (hq : ∃ s, running v.log = some (.delete s)) :
    Does A Legal (Lifecycle.deleteMeeting suffix) v (Deleted v) := by
  have hsame : ∀ e, Deleted v (.error e) v := fun e => ⟨rfl, .inl rfl⟩
  refine does_lifecycleLock (fun r b hr _ => ?_) (fun e _ => hsame e) fun _ => hsame _
  refine Does.readThen readOnly_readRecord (fun r₁ h => ?_) (fun e _ => hsame e) fun _ => hsame _
  rw [hr] at h
  cases h
  refine Does.bind does_demand ?_ (by rintro e _ ⟨rfl, -⟩; exact hsame e)
  rintro ⟨⟩ v ⟨rfl, -⟩
  refine Does.bind (does_anythingPending hr) ?_ (by rintro e _ ⟨rfl, -⟩; exact hsame e)
  rintro pending v ⟨rfl, hp⟩
  refine Does.bind does_demand ?_ (by rintro e _ ⟨rfl, -⟩; exact hsame e)
  rintro ⟨⟩ v ⟨rfl, hno⟩
  obtain ⟨hc, hj, hu⟩ := hp (by simpa using hno)
  exact does_deleteMeeting hr hc hj hu hg hq

end Tirke
