import Tirke.Theorems.Review
/-!
# What a failed edit or approval changes

`update_review` and `approve_review` commit by renaming the new marker into place, and both can still fail
afterwards: the folder is synced, and the meeting is read again. A call that raised has changed nothing its
readers see, exactly when it did not get as far as that rename.
-/

set_option linter.unusedSectionVars false

namespace Tirke

open CrashProg CrashDisk

section
variable [Lib] [Home] {v v' : View} {r r' : MeetingRecord} {c c' : Config} {a : Action} {e : Exn} {rot : Prop}

/-- What `GET /meetings/{id}` and `GET /meetings/{id}/review` tell of the meeting. -/
def View.observed (v : View) : Except Exn (MeetingStatus × Nat × Nat) × Except Exn (TranscriptV1 × InsightsV1) :=
  ((v.run (readRecord.bind fun r => showStatus r.meeting)).map fun m => (m.status, m.revision, m.attempt),
    v.run readReviewedResultsUnlocked)

/-- What readers look at is on disk. -/
def View.settled (v : View) : Prop := ∃ r, v.run readRecord = .ok r ∧ v.Rooted .folder ∧
  ∀ q, reviewedFiles r.meeting.revision q → v.img.dur q = v.img.vol q

/-- Readers see what they saw before, and see it after a power failure if they would have. -/
structure Unchanged (v v' : View) : Prop where
  now : v'.observed = v.observed
  later : v.settled → v'.afterPower.observed = v.observed

/-- `update_review` or `approve_review`. -/
def Action.reviews : Action → Prop
  | .updateReview _ | .approve _ => True
  | _ => False

theorem observed_of_readable (hr : v.run readRecord = .ok r) : v.observed =
    ((v.run (showStatus r.meeting)).map fun m => (m.status, m.revision, m.attempt), v.run (readCurrentLocked r.meeting)) := by
  simp only [View.observed, readReviewedResultsUnlocked, Prog.bind_eq, run_bind, hr, ok_bind]

/-- What is observed depends on the files readers look at. -/
theorem observed_congr (hr : v.run readRecord = .ok r)
    (hl : ∀ q, reviewedFiles r.meeting.revision q → v'.look q = v.look q) : v'.observed = v.observed := by
  have hr' : v'.run readRecord = .ok r :=
    (run_congr readOnly_readRecord fun q hq => hl q (.inl (.inl hq))).trans hr
  rw [observed_of_readable hr, observed_of_readable hr',
    run_congr readOnly_showStatus fun q hq => hl q (.inl hq), run_congr readOnly_readCurrentLocked hl]

theorem folder_of_reviewed {k : Nat} {q : Path} (hq : reviewedFiles k q) : q.1 = .folder := by
  rcases hq with (rfl | rfl | rfl | rfl | rfl) | rfl <;> rfl

theorem not_reviewFiles_of_reviewed {q : Path} (hq : reviewedFiles r.meeting.revision q) : ¬ reviewFiles r q := by
  rcases hq with hq | rfl
  · exact not_reviewFiles hq
  · intro h
    rcases h with h | h | h | h
    · simp at h
    all_goals cases h

/-- A frame around what readers look at. -/
theorem Frame.unchanged {S : Path → Prop} (hf : Frame S v v') (hr : v.run readRecord = .ok r)
    (hS : ∀ q, reviewedFiles r.meeting.revision q → ¬ S q) : Unchanged v v' := by
  refine ⟨observed_congr hr fun q hq => hf.look (hS q hq), ?_⟩
  intro hs
  obtain ⟨r₁, hr₁, hroot, hd⟩ := hs
  cases hr.symm.trans hr₁
  refine observed_congr hr fun q hq => ?_
  have hfolder := folder_of_reviewed hq
  have hlook : v.look q = v.img.vol q := look_of_reach (by rw [hfolder]; exact readable_reach hr)
  rw [look_afterPower (by rw [hfolder]; exact hf.rooted _ hroot), hf.durable (hS q hq) (hd q hq), hf.vol q (hS q hq), hlook]

theorem observed_note {e : Event} : (v.note e).observed = v.observed := by
  have hshow : ReadOnly (fun _ => True) (readRecord.bind fun r => showStatus r.meeting) :=
    ReadOnly.bind (readOnly_readRecord.mono fun _ _ => trivial) fun _ => readOnly_showStatus.mono fun _ _ => trivial
  have hread : ReadOnly (fun _ => True) readReviewedResultsUnlocked :=
    ReadOnly.bind (readOnly_readRecord.mono fun _ _ => trivial) fun _ => readOnly_readCurrentLocked.mono fun _ _ => trivial
  simp only [View.observed, run_note hshow, run_note hread]

theorem Unchanged.of_note {e : Event} (h : Unchanged (v.note e) v') : Unchanged v v' := by
  refine ⟨h.now.trans observed_note, fun hs => ?_⟩
  obtain ⟨r, hr, hroot, hd⟩ := hs
  exact (h.later ⟨r, (run_note readOnly_readRecord).trans hr, ⟨hroot.now, hroot.later⟩, hd⟩).trans observed_note

theorem Unchanged.note {e : Event} (h : Unchanged v v') : Unchanged (v.note e) v' := by
  refine ⟨h.now.trans observed_note.symm, fun hs => ?_⟩
  obtain ⟨r, hr, hroot, hd⟩ := hs
  exact (h.later ⟨r, (run_note readOnly_readRecord).symm.trans hr, ⟨hroot.now, hroot.later⟩, hd⟩).trans observed_note.symm

/-! ## Before the commit -/

theorem not_ok_error {α : Type} {x : Except Exn α} (h : ∀ a, x ≠ .ok a) : ∃ e, x = .error e := by
  cases x with
  | ok a => exact absurd rfl (h a)
  | error e => exact ⟨e, rfl⟩

/-- Without results to review an update changes nothing. -/
theorem does_updateReview_refused {q : ReviewRequest} (hr : v.run readRecord = .ok r)
    (hres : r.meeting.status.published = true → ∀ x, v.run readResults ≠ .ok x) :
    Does anything Legal (updateReview q) v fun _ v' => v' = v := by
  refine does_lifecycleLock (fun r₁ b h _ => ?_) (fun _ _ => rfl) fun _ => rfl
  refine Does.readThen readOnly_readRecord (fun r₁ h => ?_) (fun _ _ => rfl) fun _ => rfl
  cases hr.symm.trans h
  refine Does.bind does_demand ?_ fun e v h => h.1
  rintro ⟨⟩ v ⟨rfl, hs⟩
  refine Does.bind does_demand ?_ fun e v h => h.1
  rintro ⟨⟩ v ⟨rfl, -⟩
  exact Does.readThen readOnly_readResults (fun x hx => absurd hx (hres hs x)) (fun _ _ => rfl) fun _ => rfl

theorem run_readCurrentLocked_results {m : Meeting} {x : TranscriptV1 × InsightsV1}
    (h : v.run (readCurrentLocked m) = .ok x) : ∃ y, v.run readResults = .ok y := by
  simp only [readCurrentLocked, Prog.bind_eq, run_bind, run_demand, demand_bind] at h
  split at h
  · obtain ⟨y, hy, -⟩ := bind_eq_ok.1 h
    exact ⟨y, hy⟩
  · cases h

/-- Nor does an approval. -/
theorem does_approveReview_refused {q : ApprovalRequest} (hr : v.run readRecord = .ok r)
    (hres : r.meeting.status = .reviewRequired → ∀ x, v.run readResults ≠ .ok x) :
    Does anything Legal (approveReview q) v fun _ v' => v' = v := by
  refine does_lifecycleLock (fun r₁ b h _ => ?_) (fun _ _ => rfl) fun _ => rfl
  refine Does.readThen readOnly_readRecord (fun r₁ h => ?_) (fun _ _ => rfl) fun _ => rfl
  cases hr.symm.trans h
  refine Does.bind does_demand ?_ fun e v h => h.1
  rintro ⟨⟩ v ⟨rfl, hs⟩
  refine Does.bind does_demand ?_ fun e v h => h.1
  rintro ⟨⟩ v ⟨rfl, -⟩
  refine Does.readThen readOnly_readCurrentLocked (fun x hx => ?_) (fun _ _ => rfl) fun _ => rfl
  obtain ⟨y, hy⟩ := run_readCurrentLocked_results hx
  exact absurd hy (hres (of_decide_eq_true hs) y)

/-! ## What a failure leaves -/

/-- The next record differs from this one in what readers are told. -/
def Differs (r r' : MeetingRecord) : Prop := r'.meeting.attempt = r.meeting.attempt ∧
  r.meeting.status.published = true ∧ r'.meeting.status.published = true ∧
    (r'.meeting.status, r'.meeting.revision) ≠ (r.meeting.status, r.meeting.revision)

/-- What a call that raised has left: everything as it was, or the new marker. -/
inductive Left (v v' : View) : Prop where
  | same (hw : written v'.log = written v.log) (hu : Unchanged v v') : Left v v'
  | shown (r r' : MeetingRecord) (hr : v.run readRecord = .ok r) (hd : Differs r r')
      (hl : v'.look marker = some (.record r')) (hres : ∃ x, v.run readResults = .ok x)
      (hf : ∀ n ∈ [Name.manifest, .transcript, .insights, .text], v'.look (.folder, n) = v.look (.folder, n))
      (hw : written v'.log ≠ written v.log) : Left v v'

theorem Rewritten.left {S : Path → Prop} {m : Except Exn Meeting} (h : Rewritten anything S v r' m v') (he : m = .error e)
    (hr : v.run readRecord = .ok r) (hS : ∀ q, reviewedFiles r.meeting.revision q → ¬ S q) (hd : Differs r r')
    (hres : ∃ x, v.run readResults = .ok x) : Left v v' := by
  have hshown : ∀ v₁ w : View, Frame S v v₁ → (∀ q, w.look q = (v₁.mark r').look q) →
      written w.log = r' :: written v₁.log → Left v w := by
    intro v₁ w hf hl hwr
    refine .shown r r' hr hd ?_ hres (fun n hn => ?_) ?_
    · rw [hl]
      exact look_put_self (p := marker) (hf.reach.trans (readable_reach hr))
    · rw [hl, look_mark (by rintro hq; cases hq; simp at hn)]
      refine hf.look (hS _ (.inl ?_))
      simp only [List.mem_cons, List.not_mem_nil, or_false] at hn
      rcases hn with rfl | rfl | rfl | rfl <;> simp [resultFiles]
    · rw [hwr, hf.written (hS _ (.inl (.inl rfl)))]
      exact List.cons_ne_self _ _
  cases h with
  | done => cases he
  | untouched e v₁ hf => exact .same (hf.written (hS _ (.inl (.inl rfl)))) (hf.unchanged hr hS)
  | shown v₁ hf => exact hshown v₁ _ hf (fun _ => rfl) rfl
  | synced v₁ hf => exact hshown v₁ _ hf (fun _ => rfl) rfl

theorem Left.unread (h : ∀ r, v.run readRecord ≠ .ok r) : Left v v :=
  .same rfl ⟨rfl, fun hs => by obtain ⟨r, hr, -⟩ := hs; exact absurd hr (h r)⟩

theorem does_failed {A : Action} (ha : A.reviews) (hrun : running v.log = some A) :
    Does anything Legal A.program v fun out v' => ∀ e, out = .error e → Left v v' := by
  have hleft : ∀ {p : Serv Meeting}, Does anything Legal p v (fun out v' => ∀ e, out = .error e → Left v v') →
      Does anything Legal (discard p) v fun out v' => ∀ e, out = .error e → Left v v' := by
    intro p hd
    refine Does.discard (hd.mono ?_)
    rintro (e | m) v' h e' he
    · exact h e rfl
    · cases he
  by_cases hr : ∃ r, v.run readRecord = .ok r
  swap
  · have hnone : ∀ r, v.run readRecord ≠ .ok r := fun r h => hr ⟨r, h⟩
    have hsame : ∀ (out : Except Exn Meeting) (v' : View), (v' = v ∧ ∃ e, out = .error e) →
        ∀ e, out = .error e → Left v v' := by
      rintro out v' ⟨rfl, -⟩ e -
      exact .unread hnone
    cases A with
    | updateReview q => exact hleft ((does_unreadable hnone).mono hsame)
    | approve q => exact hleft ((does_unreadable hnone).mono hsame)
    | _ => exact ha.elim
  obtain ⟨r, hr⟩ := hr
  have hsame : ∀ (out : Except Exn Meeting) (v' : View), v' = v → ∀ e, out = .error e → Left v v' := by
    rintro out v' rfl e -
    exact .same rfl ((Frame.refl (S := fun _ => False) v').unchanged hr fun _ _ h => h)
  cases A with
  | updateReview q =>
    by_cases hres : r.meeting.status.published = true ∧ ∃ x, v.run readResults = .ok x
    · refine hleft ((does_updateReview hr hrun).mono ?_)
      rintro out v' ⟨t, ht⟩ e he
      refine ht.left he hr (fun q => not_reviewFiles_of_reviewed) ⟨rfl, hres.1, rfl, fun h => ?_⟩ hres.2
      exact Nat.succ_ne_self _ (congrArg Prod.snd h)
    · exact hleft ((does_updateReview_refused hr fun hs x hx => hres ⟨hs, x, hx⟩).mono hsame)
  | approve q =>
    by_cases hres : r.meeting.status = .reviewRequired ∧ ∃ x, v.run readResults = .ok x
    · refine hleft ((does_approveReview hr hrun).mono ?_)
      rintro out v' ⟨t, ht⟩ e he
      refine ht.left he hr (fun _ _ h => h) ⟨rfl, by rw [hres.1]; rfl, rfl, fun h => ?_⟩ hres.2
      have hst : MeetingStatus.approved = r.meeting.status := congrArg Prod.fst h
      rw [hres.1] at hst
      cases hst
    · exact hleft ((does_approveReview_refused hr fun hs x hx => hres ⟨hs, x, hx⟩).mono hsame)
  | _ => exact ha.elim

/-- A new marker is seen by readers. -/
theorem Left.unchanged_iff (h : Left v v') (hi : Inv v') : Unchanged v v' ↔ written v'.log = written v.log := by
  cases h with
  | same hw hu => exact ⟨fun _ => hw, fun _ => hu⟩
  | shown r r' hr hd hl hres hf hw =>
    refine ⟨fun hu => ?_, fun h => absurd h hw⟩
    obtain ⟨hatt, hp, hp', hne⟩ := hd
    obtain ⟨r₁, hr₁, hread⟩ := hi.readable hl
    cases hr₁
    obtain ⟨x, hx⟩ := hres
    have hres' : v'.run readResults = .ok x := (readResults_congr hr hread hatt hf).2.trans hx
    have hobs := congrArg Prod.fst hu.now
    rw [observed_of_readable hr, observed_of_readable hread, run_showStatus, run_showStatus, if_pos hp, if_pos hp', hx,
      hres'] at hobs
    have hsame := Except.ok.inj hobs
    exact absurd (congrArg (fun x => (x.1, x.2.1)) hsame) hne

/-- **A failed edit or approval changes nothing, exactly when it did not replace the marker**: when each of its steps, the
one that failed as well, came before that. -/
theorem failed_review_unchanged_iff (h : Reach (Step rot) c) (hc : c.idle) (ha : a.reviews) (hv : a.valid)
    (hs : Performs (c.begin a) c') (he : c'.prog = some (.raise e)) :
    (Unchanged c.world.view c'.world.view ↔ written c'.world.log = written c.world.log) ∧
    (written c'.world.log = written c.world.log ↔
      ∀ c₁, Performs (c.begin a) c₁ → Performs c₁ c' → written c₁.world.log = written c.world.log) := by
  have hg : Good rot c := reach_good (fun _ _ h => h) h
  have hbegin : Reach (Step rot) (c.begin a) := h.trans (.single (step_begin hc hv))
  have hleft : Left (c.begin a).world.view c'.world.view :=
    hs.ends (o := .error e) rfl hg.fit (does_failed ha rfl) he e rfl
  have hg' : Good rot c' := reach_good (fun _ _ h => h) (hbegin.trans hs.run)
  have hnote : (c.begin a).world.view = c.world.view.note (.started a) := rfl
  rw [hnote] at hleft
  have hiff := hleft.unchanged_iff hg'.life.inv
  refine ⟨⟨fun hu => hiff.1 hu.note, fun hw => (hiff.2 hw).of_note⟩, fun hw c₁ h₁ h₂ => ?_, fun hall => hall c' hs .refl⟩
  -- what is written stays written
  have hbefore : written (c.begin a).world.log <:+ written c₁.world.log := (Run.log hbegin h₁.run).filterMap _
  have hafter : written c₁.world.log <:+ written c'.world.log := (Run.log (hbegin.trans h₁.run) h₂.run).filterMap _
  rw [hw] at hafter
  exact hafter.eq_of_length (Nat.le_antisymm hafter.length_le hbefore.length_le)

end

section
attribute [local instance] Sample.lib Sample.home

namespace Sample

/-- Nothing fails but the sync of the folder that follows the marker's rename. -/
def syncFails : World → Op → Choice := fun w o => match o, w.log with
  | .file (.syncDir .folder), .file (.put (.folder, .meeting) _) :: _ => { Choice.calm with fault := some ⟨.text [], fun _ => false⟩ }
  | _, _ => .calm

/-- The results wait for a review. -/
def processed : Config := created.cues [.start .processOnce, .play never (answering (gpu first)), .finish]

/-- The update raised after its marker was in place. -/
def torn : Config :=
  ⟨(host.play never syncFails (Action.updateReview edit).program (processed.begin (.updateReview edit)).world).2,
    some (host.play never syncFails (Action.updateReview edit).program (processed.begin (.updateReview edit)).world).1⟩

theorem reach_processed : Reach (Step False) processed := reach_created.cues (.inr rfl)

theorem performs_torn : Performs (processed.begin (.updateReview edit)) torn := performs_play

theorem torn_raised : torn.prog = some (.raise .osError) := prog_of_raised (by decide +kernel)

end Sample

/-- The update failed, and still its revision is what readers see. -/
theorem failed_review_changes : ¬ ∀ (c c' : Config) (a : Action) (e : Exn), Reach (Step False) c → c.idle → a.reviews → a.valid →
    Performs (c.begin a) c' → c'.prog = some (.raise e) → Unchanged c.world.view c'.world.view := by
  intro h
  have hu := h _ _ (.updateReview Sample.edit) _ Sample.reach_processed rfl trivial (by decide) Sample.performs_torn Sample.torn_raised
  have hobs : (Sample.torn.world.view.observed).1 ≠ (Sample.processed.world.view.observed).1 := by decide +kernel
  exact hobs (congrArg Prod.fst hu.now)

theorem failed_review_unchanged_iff_sample : Unchanged Sample.processed.world.view Sample.torn.world.view ↔
    written Sample.torn.world.log = written Sample.processed.world.log :=
  (failed_review_unchanged_iff Sample.reach_processed rfl (a := .updateReview Sample.edit) trivial (by decide)
    Sample.performs_torn Sample.torn_raised).1

end

end Tirke
