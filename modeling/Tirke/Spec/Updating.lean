import Tirke.Spec.Store
import Tirke.Spec.Records
/-!
# `read_meeting`, `update_meeting` and `_save` on a view

`Updated v r'` is everything `update_meeting` may leave when the attempt stays the same: the old marker,
the new one, the new one made durable; it returns only in the last case, and refuses a published record
whose results are not readable before it writes anything.
-/

set_option linter.unusedSectionVars false

namespace Tirke

open CrashProg CrashDisk

variable [Lib] [Home] [Weather] {A : Env host} {L : Law} {v : View} {r r' : MeetingRecord}

/-! ## `read_meeting` -/

theorem readOnly_showStatus {m : Meeting} : ReadOnly resultFiles (showStatus m) := by
  unfold showStatus
  split
  · refine ReadOnly.handle (ReadOnly.bind readOnly_readResults.discard fun _ => trivial) (fun e => ?_) rfl
    split <;> trivial
  · trivial

theorem run_showStatus {m : Meeting} : v.run (showStatus m) =
    if m.status.published then match v.run readResults with
      | .ok _ => .ok m
      | .error e => if e = .notReady then .ok { m with status := .processing, stage := some .savingResults }
        else .error e
    else .ok m := by
  unfold showStatus
  split
  · have hro : ReadOnly resultFiles (do discard readResults; return m : Serv Meeting) :=
      ReadOnly.bind readOnly_readResults.discard fun _ => trivial
    rw [run_handle hro]
    simp only [Prog.bind_eq, run_bind, run_discard]
    cases v.run readResults with
    | ok x => rfl
    | error e =>
      simp only [error_bind]
      split <;> rfl
  · rfl

/-- Whether the source is still there, as far as the clock tells. -/
inductive Available (A : Env host) (v : View) (m : Meeting) : Bool → Prop where
  | missing (h : v.look (.folder, .upload) = none) : Available A v m false
  | unlimited (h : m.temporaryExpiresAt = none) : Available A v m false
  | timed (deadline t : Time) (hu : (v.look (.folder, .upload)).isSome = true)
      (hd : m.temporaryExpiresAt = some deadline) (ht : MayShow A t) : Available A v m (decide (t < deadline))

theorem does_sourceAvailable {m : Meeting} : Does A L (sourceAvailable m) v fun out v' => v' = v ∧
    ((∃ b, out = .ok b ∧ Available A v m b) ∨ MayFail A ∧ out = .error .osError) := by
  refine Does.bind (R := fun out v' => v' = v ∧ (out = .ok (v.look (.folder, .upload)).isSome ∨
    MayFail A ∧ out = .error .osError)) (Does.exists ⟨rfl, .inl rfl⟩ fun hf => ⟨rfl, .inr ⟨hf, rfl⟩⟩) ?_ ?_
  · rintro b v ⟨rfl, hb | ⟨-, hb⟩⟩
    · cases hb
      cases hu : v.look (.folder, .upload) with
      | none => exact .ret ⟨rfl, .inl ⟨_, rfl, .missing hu⟩⟩
      | some x =>
        cases hd : m.temporaryExpiresAt with
        | none => exact .ret ⟨rfl, .inl ⟨_, rfl, .unlimited hd⟩⟩
        | some deadline =>
          refine Does.bind (R := fun out v' => v' = v ∧ ∃ t, out = .ok t ∧ MayShow A t)
            (Does.now fun t ht => ⟨rfl, t, rfl, ht⟩) ?_ ?_
          · rintro t v ⟨rfl, _, ht, hs⟩
            cases ht
            exact .ret ⟨rfl, .inl ⟨_, rfl, .timed deadline t (by simp [hu]) hd hs⟩⟩
          · rintro e v ⟨-, t, ht, -⟩
            cases ht
    · cases hb
  · rintro e v ⟨rfl, h | h⟩
    · cases h
    · exact ⟨rfl, .inr h⟩

/-- What `read_meeting` returns. -/
inductive Shown (A : Env host) (v : View) : Except Exn Meeting → Prop where
  | shown (r : MeetingRecord) (m : Meeting) (b : Bool) (hr : v.run readRecord = .ok r)
      (hm : v.run (showStatus r.meeting) = .ok m) (hb : Available A v m b) :
      Shown A v (.ok { m with sourceAvailable := b })
  | unreadable (e : Exn) (h : v.run readRecord = .error e) : Shown A v (.error e)
  | unshown (r : MeetingRecord) (e : Exn) (hr : v.run readRecord = .ok r)
      (hm : v.run (showStatus r.meeting) = .error e) : Shown A v (.error e)
  | failed (h : MayFail A) : Shown A v (.error .osError)

/-- A record that is not published is shown unless the file system fails. -/
theorem Shown.fault {e : Exn} (h : Shown A v (.error e)) (hr : v.run readRecord = .ok r)
    (hp : r.meeting.status.published = false) : e = .osError ∧ MayFail A := by
  cases h with
  | unreadable _ h => rw [hr] at h; cases h
  | unshown r₁ _ h hm =>
    rw [hr] at h
    cases h
    rw [run_showStatus, hp] at hm
    cases hm
  | failed h => exact ⟨rfl, h⟩

/-- A record that is not published is shown as it is, as far as its source goes. -/
theorem Shown.available {m : Meeting} (h : Shown A v (.ok m)) (hr : v.run readRecord = .ok r)
    (hp : r.meeting.status.published = false) : Available A v r.meeting m.sourceAvailable := by
  generalize hout : (Except.ok m : Except Exn Meeting) = out at h
  cases h with
  | shown r₁ m₁ b h hm hb =>
    rw [hr] at h
    cases h
    rw [run_showStatus, hp] at hm
    cases hm
    cases hout
    exact hb
  | unreadable _ _ | unshown _ _ _ _ | failed _ => cases hout

theorem Available.timely [Forecast A] {b : Bool} (h : Available A v r.meeting b) (hb : b = true) :
    (v.look (.folder, .upload)).isSome = true ∧ r.timely := by
  cases h with
  | missing | unlimited => cases hb
  | timed deadline t hu hd ht => exact ⟨hu, t, deadline, ht.shows, hd, by simpa using hb⟩

theorem Available.cause [Forecast A] {b : Bool} (h : Available A v r.meeting b) (hb : b = false) :
    Cause v r .sourceExpired := by
  cases h with
  | missing h => exact .absent h
  | unlimited h => exact .undated h
  | timed deadline t hu hd ht => exact .late ⟨t, deadline, ht.shows, hd, by simpa using hb⟩

theorem does_readMeeting : Does A L readMeeting v fun out v' => v' = v ∧ Shown A v out := by
  refine Does.readThen readOnly_readRecord (fun r hr => ?_) (fun e h => ⟨rfl, .unreadable e h⟩)
    fun hf => ⟨rfl, .failed hf⟩
  refine Does.readThen readOnly_showStatus (fun m hm => ?_) (fun e h => ⟨rfl, .unshown r e hr h⟩)
    fun hf => ⟨rfl, .failed hf⟩
  refine Does.bind does_sourceAvailable ?_ ?_
  · rintro b v ⟨rfl, ⟨b', hb, ha⟩ | ⟨-, hb⟩⟩
    · cases hb
      exact .ret ⟨rfl, .shown r m b hr hm ha⟩
    · cases hb
  · rintro e v ⟨rfl, ⟨b', hb, -⟩ | ⟨hf, hb⟩⟩
    · cases hb
    · cases hb; exact ⟨rfl, .failed hf⟩

/-! ## The marker -/

abbrev marker : Path := (.folder, .meeting)

/-- The view after the marker has been replaced. -/
def View.mark (v : View) (r : MeetingRecord) : View := v.put marker (.record r)

/-- The view after the folder has been made durable as well. -/
def View.marked (v : View) (r : MeetingRecord) : View := (v.mark r).sync .folder

theorem readable_mark (h : v.reach .folder = true) (hok : r.ok = true) (ho : r.ownerId = Home.ownerId)
    (hi : r.meeting.id = Home.meetingId) : (v.mark r).run readRecord = .ok r :=
  readRecord_ok.2 ⟨look_put_self h, hok, ho, hi⟩

theorem run_sync {α : Type} {S : Path → Prop} {p : Serv α} {d : Dir} (h : ReadOnly S p) :
    (v.sync d).run p = v.run p := run_congr h fun _ _ => rfl

/-- A valid record of the same meeting is read back. -/
theorem readable_rewritten (hr : v.run readRecord = .ok r) (hok : r'.ok = true) (ho : r'.ownerId = r.ownerId)
    (hi : r'.meeting.id = r.meeting.id) : (v.mark r').run readRecord = .ok r' := by
  obtain ⟨hl, -, howner, hid⟩ := readRecord_ok.1 hr
  exact readable_mark (reach_of_look hl) hok (ho.trans howner) (hi.trans hid)

/-- A move's record is the one read back. -/
theorem Move.readable (m : Move v r r') (hr : v.run readRecord = .ok r) : (v.mark r').run readRecord = .ok r' :=
  readable_rewritten hr (m.ok (readable_ok hr)) (congrArg Identity.ownerId m.identity) (congrArg Identity.id m.identity)

theorem Move.readable_marked (m : Move v r r') (hr : v.run readRecord = .ok r) :
    (v.marked r').run readRecord = .ok r' := (run_sync readOnly_readRecord).trans (m.readable hr)

theorem look_mark {q : Path} (h : q ≠ marker) : (v.mark r).look q = v.look q := look_put_of_ne h

theorem readResults_congr {v' : View} (hr : v.run readRecord = .ok r) (hr' : v'.run readRecord = .ok r')
    (ha : r'.meeting.attempt = r.meeting.attempt)
    (hl : ∀ n ∈ [Name.manifest, .transcript, .insights, .text], v'.look (.folder, n) = v.look (.folder, n)) :
    v'.run readManifest = v.run readManifest ∧ v'.run readResults = v.run readResults := by
  have hman : v'.run readManifest = v.run readManifest := by
    rw [run_readManifest hr, run_readManifest hr', hl .manifest (by simp), ha]
  refine ⟨hman, ?_⟩
  have hart : ∀ n ∈ [Name.transcript, .insights, .text], ∀ h, v'.run (readArtifact n h) = v.run (readArtifact n h) := by
    intro n hn h
    have hn' : n ∈ [Name.manifest, .transcript, .insights, .text] := List.mem_cons_of_mem _ hn
    simp only [readArtifact, Prog.bind_eq, run_bind, run_missingAs, hl n hn', run_demand]
    cases v.look (.folder, n) with
    | none => rfl
    | some d => simp only [ok_bind, demand_bind]; rfl
  simp only [readResults, Prog.bind_eq, run_bind, hman, hart .transcript (by simp), hart .insights (by simp),
    hart .text (by simp), run_parse, run_demand]
  rfl

/-- Rewriting the marker within an attempt does not touch the results. -/
theorem readResults_mark (hr : v.run readRecord = .ok r) (hr' : (v.mark r').run readRecord = .ok r')
    (ha : r'.meeting.attempt = r.meeting.attempt) :
    (v.mark r').run readManifest = v.run readManifest ∧ (v.mark r').run readResults = v.run readResults :=
  readResults_congr hr hr' ha fun n hn => look_mark fun h => by
    cases h; simp at hn

/-- What `update_meeting` may leave within an attempt. -/
inductive Updated (A : Env host) (v : View) (r' : MeetingRecord) : Except Exn Meeting → View → Prop where
  | done (b : Bool) (hp : r'.meeting.status.published = true → ∃ x, v.run readResults = .ok x) :
      Updated A v r' (.ok { r'.meeting with sourceAvailable := b }) (v.marked r')
  | refused (e : Exn) (hp : r'.meeting.status.published = true) (h : v.run readResults = .error e) :
      Updated A v r' (.error e) v
  | nothing (h : MayFail A) : Updated A v r' (.error .osError) v
  | shown (h : MayFail A) : Updated A v r' (.error .osError) (v.mark r')
  | synced (h : MayFail A) : Updated A v r' (.error .osError) (v.marked r')

theorem readOnly_checkResults : ReadOnly resultFiles (checkResults r) := by
  unfold checkResults
  split
  · exact readOnly_readResults.discard
  · trivial

/-- **`update_meeting` within an attempt**, for a valid record of the same meeting. -/
theorem does_updateTo (hr : v.run readRecord = .ok r) (hok' : r'.ok = true) (ho : r'.ownerId = r.ownerId)
    (hi : r'.meeting.id = r.meeting.id) (hc : r'.meeting.createdAt = r.meeting.createdAt)
    (ha : r'.meeting.attempt = r.meeting.attempt)
    (law : (r'.meeting.status.published = true → ∃ x, v.run readResults = .ok x) → L v (.file (.put marker (.record r'))))
    (lawSync : L (v.put marker (.record r')) (.file (.synced .folder))) :
    Does A L (updateMeeting r') v (Updated A v r') := by
  have hread := readable_rewritten hr hok' ho hi
  have ho' : r'.ownerId = Home.ownerId := (readRecord_ok.1 hread).2.2.1
  have hreach : v.reach .folder = true := readable_reach hr
  unfold updateMeeting
  simp only [hok', demand, if_true, Prog.bind_eq, Prog.ret_bind]
  refine Does.readThen readOnly_readRecord (fun old hold => ?_) (fun e h => ?_) .nothing
  swap
  · rw [hr] at h; cases h
  rw [hr] at hold
  cases hold
  simp only [ho', hc, decide_true, Bool.and_self, if_true, Prog.ret_bind, archiveBefore, if_pos ha]
  refine Does.readThen readOnly_checkResults (fun _ hres => ?_) (fun e h => ?_) .nothing
  swap
  · unfold checkResults at h
    split at h
    · next hp =>
      rw [run_discard] at h
      cases hrr : v.run readResults with
      | ok x => rw [hrr] at h; cases h
      | error e' => rw [hrr] at h; cases h; exact .refused _ hp hrr
    · cases h
  have hpub : r'.meeting.status.published = true → ∃ x, v.run readResults = .ok x := by
    intro hp
    simp only [checkResults, hp, if_true, run_discard, bind_eq_ok] at hres
    obtain ⟨x, hx, -⟩ := hres
    exact ⟨x, hx⟩
  refine Does.bind (does_atomicWrite (readable_notVoid hr) hreach (law hpub) lawSync) ?_ ?_
  · rintro ⟨⟩ v' hw
    cases hw
    refine does_readMeeting.mono ?_
    rintro out v' ⟨rfl, hs⟩
    have hread' : (v.marked r').run readRecord = .ok r' := (run_sync readOnly_readRecord).trans hread
    have hshow : (v.marked r').run (showStatus r'.meeting) = .ok r'.meeting := by
      rw [run_showStatus]
      split
      · next hp =>
        have : v.run readResults = (v.marked r').run readResults := by
          rw [show (v.marked r').run readResults = _ from run_sync readOnly_readResults,
            (readResults_mark hr hread ha).2]
        rw [← this]
        obtain ⟨x, hx⟩ := hpub hp
        rw [hx]
      · rfl
    cases hs with
    | shown r₁ m₁ b h₁ h₂ hb =>
      have e₁ : r₁ = r' := by
        have := h₁.symm.trans hread'
        cases this; rfl
      subst e₁
      have e₂ : m₁ = r₁.meeting := by
        have := h₂.symm.trans hshow
        cases this; rfl
      subst e₂
      exact .done b hpub
    | unreadable e h => cases hread'.symm.trans h
    | unshown r₁ e h₁ h₂ =>
      have := h₁.symm.trans hread'
      cases this
      cases hshow.symm.trans h₂
    | failed h => exact .synced h
  · rintro e v' hw
    cases hw with
    | nothing h => exact .nothing h
    | shown h => exact .shown h
    | synced h => exact .synced h

/-- … for a record that is a move from the one on disk. -/
theorem does_updateUnder (hr : v.run readRecord = .ok r) (m : Move v r r') (ha : r'.meeting.attempt = r.meeting.attempt)
    (law : (r'.meeting.status.published = true → ∃ x, v.run readResults = .ok x) → L v (.file (.put marker (.record r'))))
    (lawSync : L (v.put marker (.record r')) (.file (.synced .folder))) :
    Does A L (updateMeeting r') v (Updated A v r') :=
  does_updateTo hr (m.ok (readable_ok hr)) (congrArg Identity.ownerId m.identity) (congrArg Identity.id m.identity)
    (congrArg Identity.createdAt m.identity) ha law lawSync

theorem does_update (hr : v.run readRecord = .ok r) (m : Move v r r') (ha : r'.meeting.attempt = r.meeting.attempt)
    (hact : running v.log ≠ none) : Does A Legal (updateMeeting r') v (Updated A v r') :=
  does_updateUnder hr m ha (fun _ => .moved r r' hr (m.ok (readable_ok hr)) m hact) (.synced _ (readable_reach (m.readable hr)))

/-- What `_save` may leave: what `update_meeting` may, at some time. -/
def Saved (A : Env host) (v : View) (r' : MeetingRecord) : Except Exn (MeetingRecord × Meeting) → View → Prop
  | .ok x, v' => ∃ t b, x = (r'.touch t, { (r'.touch t).meeting with sourceAvailable := b }) ∧
      v' = v.marked (r'.touch t) ∧ (r'.meeting.status.published = true → ∃ y, v.run readResults = .ok y)
  | .error e, v' => ∃ t, Updated A v (r'.touch t) (.error e) v'

theorem does_save (hr : v.run readRecord = .ok r) (m : ∀ t, Move v r (r'.touch t))
    (ha : r'.meeting.attempt = r.meeting.attempt) (hact : running v.log ≠ none) :
    Does A Legal (save r') v (Saved A v r') := by
  refine Does.bind (R := fun out v' => v' = v ∧ ∃ t, out = .ok t) (Does.now fun t _ => ⟨rfl, t, rfl⟩) ?_ ?_
  · rintro t v ⟨rfl, _, ht⟩
    cases ht
    refine Does.bind (does_update hr (m t) ha hact) ?_ fun e v' h => ⟨t, h⟩
    rintro meeting v' h
    cases h with
    | done b hp => exact .ret ⟨t, b, rfl, rfl, hp⟩
  · rintro e v ⟨-, t, ht⟩
    cases ht

end Tirke
