import Tirke.Spec.Publishing
/-!
# `update_review` and `approve_review` obey the law

`Rewritten` is what either writer may leave: the new marker committed, or nothing but the files it prepares,
or, after a fault, a marker that was replaced although the caller is told it was not.
-/

set_option linter.unusedSectionVars false

namespace Tirke

open CrashProg CrashDisk

variable [Lib] [Home] [Weather] {A : Env host} [Forecast A] {S : Path → Prop} {v v' : View} {r r' : MeetingRecord}

inductive Rewritten (A : Env host) (S : Path → Prop) (v : View) (r' : MeetingRecord) :
    Except Exn Meeting → View → Prop where
  | done (v₁ : View) (b : Bool) (hf : Frame S v v₁) :
      Rewritten A S v r' (.ok { r'.meeting with sourceAvailable := b }) (v₁.marked r')
  | untouched (e : Exn) (v₁ : View) (hf : Frame S v v₁) : Rewritten A S v r' (.error e) v₁
  | shown (v₁ : View) (hf : Frame S v v₁) (h : MayFail A) : Rewritten A S v r' (.error .osError) (v₁.mark r')
  | synced (v₁ : View) (hf : Frame S v v₁) (h : MayFail A) : Rewritten A S v r' (.error .osError) (v₁.marked r')

/-- The last step of either writer. -/
theorem does_rewrite {v₁ : View} (hf : Frame S v v₁) (hr : v₁.run readRecord = .ok r) (m : Move v₁ r r')
    (ha : r'.meeting.attempt = r.meeting.attempt) (hact : running v₁.log ≠ none) :
    Does A Legal (updateMeeting r') v₁ (Rewritten A S v r') := by
  refine (does_update hr m ha hact).mono ?_
  rintro out v' hu
  cases hu with
  | done b _ => exact .done v₁ b hf
  | refused e _ _ => exact .untouched e v₁ hf
  | nothing _ => exact .untouched _ v₁ hf
  | shown h => exact .shown v₁ hf h
  | synced h => exact .synced v₁ hf h

/-! ## The PDF cache goes first -/

/-- The two files of a cached revision. -/
def pdfFiles (revision : Nat) (q : Path) : Prop := q = (.folder, .pdf revision) ∨ q = (.folder, .pdfMarker revision)

theorem readOnly_pdfPath {k : Nat} : ReadOnly (· = (Dir.folder, Name.meeting)) (pdfPath k) :=
  ReadOnly.bind readOnly_readRecord.discard fun _ => trivial

theorem run_pdfPath {k : Nat} (hr : v.run readRecord = .ok r) : v.run (pdfPath k) = .ok (.folder, .pdf k) := by
  simp only [pdfPath, Prog.bind_eq, run_bind, run_discard, hr]
  rfl

theorem does_unlinkPdf {n : Name} (hr : v.run readRecord = .ok r)
    (hn : n = .pdf r.meeting.revision ∨ n = .pdfMarker r.meeting.revision) :
    Does A Exports (call (.unlink (Path.entry (.folder, n)) true)) v fun out v' =>
      Frame (· = ((.folder, n) : Path)) v v' ∧ match out with
        | .ok _ => v'.look (.folder, n) = none
        | .error e => e = .osError ∧ MayFail A := by
  refine Does.unlink (p := (.folder, n)) (fun _ => .pdfDropped r n hr hn) (fun _ => ⟨.drop rfl, ?_⟩)
    (fun h => ⟨.refl v, h⟩) fun hf => ⟨.refl v, rfl, hf.mayFail⟩
  exact look_drop_self (v := v)

theorem does_deletePdfCache (hr : v.run readRecord = .ok r) :
    Does A Exports (deletePdfCache r.meeting.revision) v fun out v' => Frame (pdfFiles r.meeting.revision) v v' ∧
      match out with
        | .ok () => v'.look (.folder, .pdf r.meeting.revision) = none ∧
            v'.look (.folder, .pdfMarker r.meeting.revision) = none
        | .error e => e = .osError ∧ MayFail A := by
  refine Does.readThen readOnly_pdfPath (fun path hp => ?_) (fun e h => ?_) fun hf => ⟨.refl v, rfl, hf⟩
  swap
  · rw [run_pdfPath hr] at h; cases h
  rw [run_pdfPath hr] at hp
  cases hp
  refine Does.bind (does_unlinkPdf hr (.inl rfl)) ?_ ?_
  swap
  · rintro e v₁ ⟨hf, he⟩
    exact ⟨hf.mono fun q hq => .inl hq, he⟩
  rintro _ v₁ ⟨hf₁, hl₁⟩
  have hr₁ : v₁.run readRecord = .ok r := (hf₁.run readOnly_readRecord fun q hq => by rw [hq]; exact nofun).trans hr
  refine Does.bind (does_unlinkPdf hr₁ (.inr rfl)) ?_ ?_
  swap
  · rintro e v₂ ⟨hf, he⟩
    exact ⟨(hf₁.mono fun q hq => .inl hq).trans (hf.mono fun q hq => .inr hq), he⟩
  rintro _ v₂ ⟨hf₂, hl₂⟩
  have hf : Frame (pdfFiles r.meeting.revision) v v₂ :=
    (hf₁.mono fun q hq => .inl hq).trans (hf₂.mono fun q hq => .inr hq)
  have hr₂ : v₂.run readRecord = .ok r := (hf₂.run readOnly_readRecord fun q hq => by rw [hq]; exact nofun).trans hr₁
  refine Does.syncDirectory (.inl (readable_notVoid hr₂)) (fun h => .synced _ h)
    (fun _ => ⟨hf.trans (.sync _), ?_, hl₂⟩) (fun h => ?_) fun hf' => ⟨hf, rfl, hf'.mayFail⟩
  · exact (hf₂.look (q := (.folder, .pdf r.meeting.revision)) nofun).trans hl₁
  · rw [readable_reach hr₂] at h; cases h

/-! ## `update_review` -/

/-- The files an update prepares. -/
def reviewFiles (r : MeetingRecord) (q : Path) : Prop :=
  q = (.folder, .snapshot (r.meeting.revision + 1)) ∨ q = (.folder, .review) ∨ pdfFiles r.meeting.revision q

theorem not_reviewFiles {q : Path} (h : resultFiles q) : ¬ reviewFiles r q := by
  rcases h with rfl | rfl | rfl | rfl | rfl <;> rintro (h | h | h | h) <;> cases h

/-- What `update_review` leaves. -/
def ReviewUpdated (A : Env host) (v : View) (r : MeetingRecord) (out : Except Exn Meeting) (v' : View) : Prop :=
  ∃ t, Rewritten A (reviewFiles r) v (r.reviewed t) out v'

theorem ReviewUpdated.untouched {e : Exn} (hf : Frame (reviewFiles r) v v') : ReviewUpdated A v r (.error e) v' :=
  ⟨0, .untouched e v' hf⟩

/-- One of the files an update prepares, and what comes after it. -/
theorem does_prepare {n : Name} {x : Doc} {v₁ : View} {f : Unit → Serv Meeting} {Q : Except Exn Meeting → View → Prop}
    (hf : Frame (reviewFiles r) v v₁) (hr : v₁.run readRecord = .ok r) (hn : reviewFiles r (.folder, n))
    (law : Legal v₁ (.file (.put (.folder, n) x)))
    (ok : ∀ v', Frame (reviewFiles r) v v' → Frame (· = ((.folder, n) : Path)) v₁ v' → v'.look (.folder, n) = some x →
      Does A Legal (f ()) v' Q)
    (error : ∀ e v', Frame (reviewFiles r) v v' → Q (.error e) v') :
    Does A Legal ((discard readRecord).bind fun _ => (atomicWrite (.folder, n) x).bind f) v₁ Q := by
  refine Does.readThen readOnly_readRecord.discard (fun _ _ => ?_) (fun e _ => error e _ hf) fun _ => error _ _ hf
  have hreach := readable_reach hr
  refine Does.bind (does_atomicWrite (p := (.folder, n)) (readable_notVoid hr) hreach law (.synced _ hreach)) ?_
    fun e v' hw => error e v' (hf.trans (hw.frame hn))
  rintro ⟨⟩ v' hw
  refine ok v' (hf.trans (hw.frame hn)) (hw.frame rfl) ?_
  cases hw
  exact look_put_self (p := (.folder, n)) hreach

theorem does_dropApproved {v₁ : View} (hr : v₁.run readRecord = .ok r) :
    Does A Legal (dropApproved r.meeting) v₁ fun out v' => Frame (pdfFiles r.meeting.revision) v₁ v' ∧
      (out = .ok () → r.meeting.status = .approved → v'.look (.folder, .pdf r.meeting.revision) = none ∧
        v'.look (.folder, .pdfMarker r.meeting.revision) = none) := by
  unfold dropApproved
  split
  · refine ((does_deletePdfCache hr).lawful fun _ _ => Exports.legal).mono ?_
    rintro (e | ⟨⟩) v' ⟨hf, h⟩
    · exact ⟨hf, nofun⟩
    · exact ⟨hf, fun _ _ => h⟩
  · next h => exact .ret ⟨.refl _, fun _ h' => absurd h' h⟩

/-- **`update_review` obeys the law**, and this is all it may leave. -/
theorem does_updateReview {q : ReviewRequest} (hr : v.run readRecord = .ok r)
    (hq : running v.log = some (.updateReview q)) : Does A Legal (updateReview q) v (ReviewUpdated A v r) := by
  refine does_lifecycleLock (fun r₁ b h _ => ?_) (fun _ _ => .untouched (.refl _)) fun _ => .untouched (.refl _)
  rw [hr] at h
  cases h
  refine Does.readThen readOnly_readRecord (fun r₁ h => ?_) (fun _ _ => .untouched (.refl _)) fun _ => .untouched (.refl _)
  rw [hr] at h
  cases h
  refine Does.bind does_demand ?_ fun e v ⟨h, _⟩ => h ▸ .untouched (.refl _)
  rintro ⟨⟩ v ⟨rfl, hs⟩
  refine Does.bind does_demand ?_ fun e v ⟨h, _⟩ => h ▸ .untouched (.refl _)
  rintro ⟨⟩ v ⟨rfl, hb⟩
  replace hb : q.baseRevision = r.meeting.revision := by simpa using hb
  refine Does.readThen readOnly_readResults (fun x hx => ?_) (fun _ _ => .untouched (.refl _)) fun _ => .untouched (.refl _)
  obtain ⟨original, i⟩ := x
  refine Does.bind (R := fun out v' => v' = v ∧ (out = .ok () → ∃ res,
    overlay original (q.snapshot Home.meetingId (r.meeting.revision + 1)) = .ok res)) ?_ ?_
      fun e v ⟨h, _⟩ => h ▸ .untouched (.refl _)
  · cases hov : overlay original (q.snapshot Home.meetingId (r.meeting.revision + 1)) with
    | ok res => exact .ret ⟨rfl, fun _ => ⟨res, rfl⟩⟩
    | error e => exact .raise ⟨rfl, nofun⟩
  rintro ⟨⟩ v ⟨rfl, hov⟩
  obtain ⟨res, hov⟩ := hov rfl
  have hstay : ∀ v₁, Frame (reviewFiles r) v v₁ → v₁.run readRecord = .ok r ∧ v₁.run readResults = v.run readResults ∧
      running v₁.log = some (.updateReview q) := fun v₁ hf =>
    ⟨(hf.run readOnly_readRecord fun q hq => hq ▸ not_reviewFiles (.inl rfl)).trans hr,
      hf.run readOnly_readResults fun _ => not_reviewFiles, hf.log.running.trans hq⟩
  -- the numbered snapshot
  refine does_prepare (.refl v) hr (.inl rfl) (.snapshot r _ hr hs) (fun v₁ hf₁ _ hsnap₁ => ?_)
    fun e v' h => .untouched h
  -- the convenience copy
  refine does_prepare hf₁ (hstay v₁ hf₁).1 (.inr (.inl rfl)) (.review _) (fun v₂ hf₂ hstep _ => ?_)
    fun e v' h => .untouched h
  have hsnap₂ := (hstep.look (q := (.folder, .snapshot (r.meeting.revision + 1))) nofun).trans hsnap₁
  -- the cache of the approved revision
  refine Does.bind (does_dropApproved (hstay v₂ hf₂).1) ?_ fun e v₃ h =>
    .untouched (hf₂.trans (h.1.mono fun q hq => .inr (.inr hq)))
  rintro ⟨⟩ v₃ ⟨hf, hgone⟩
  have hsnap₃ := (hf.look (q := (.folder, .snapshot (r.meeting.revision + 1))) (by rintro (h | h) <;> cases h)).trans hsnap₂
  have hf₃ : Frame (reviewFiles r) v v₃ := hf₂.trans (hf.mono fun q hq => .inr (.inr hq))
  obtain ⟨hr₃, hres₃, hrun₃⟩ := hstay v₃ hf₃
  refine Does.bind (R := fun out v' => v' = v₃ ∧ ∃ t, out = .ok t) (Does.now fun t _ => ⟨rfl, t, rfl⟩) ?_ ?_
  swap
  · rintro e v' ⟨-, t, ht⟩
    cases ht
  rintro t v₃ ⟨rfl, _, ht⟩
  cases ht
  refine (does_rewrite hf₃ hr₃ (.reviewed q original i res t hrun₃ hs hb (hres₃.trans hx) hov hsnap₃ (hgone rfl)) rfl
    (by rw [hrun₃]; exact nofun)).mono fun out v' h => ⟨t, h⟩

/-! ## `approve_review` -/

/-- The files a reader of the reviewed results looks at. -/
def reviewedFiles (revision : Nat) (q : Path) : Prop := resultFiles q ∨ q = (.folder, .snapshot revision)

theorem readOnly_readSnapshot {t : TranscriptV1} {k : Nat} : ReadOnly (reviewedFiles k) (readSnapshot t k) := by
  unfold readSnapshot
  refine ReadOnly.bind (readOnly_readRecord.discard.mono fun q hq => .inl (.inl hq)) fun _ => ?_
  refine ReadOnly.bind (readOnly_read (.inr rfl)) fun _ => ReadOnly.bind (readOnly_parse _ _ _) fun _ => ?_
  exact ReadOnly.bind (readOnly_demand _ _) fun _ => readOnly_ofExcept _

theorem readOnly_readCurrentLocked {m : Meeting} : ReadOnly (reviewedFiles m.revision) (readCurrentLocked m) := by
  unfold readCurrentLocked
  refine ReadOnly.bind (readOnly_demand _ _) fun _ => ?_
  refine ReadOnly.bind (readOnly_readResults.mono fun q hq => .inl hq) fun x => ?_
  obtain ⟨original, i⟩ := x
  show ReadOnly _ (if m.revision = 0 then _ else _)
  split
  · trivial
  · exact ReadOnly.handle readOnly_readSnapshot (fun _ => trivial) rfl

/-- What `approve_review` leaves. -/
def ReviewApproved (A : Env host) (v : View) (r : MeetingRecord) (out : Except Exn Meeting) (v' : View) : Prop :=
  ∃ t, Rewritten A (fun _ => False) v (r.approved t) out v'

theorem ReviewApproved.untouched {e : Exn} : ReviewApproved A v r (.error e) v := ⟨0, .untouched e v (.refl v)⟩

/-- **`approve_review` obeys the law**, and this is all it may leave. -/
theorem does_approveReview {q : ApprovalRequest} (hr : v.run readRecord = .ok r)
    (hq : running v.log = some (.approve q)) : Does A Legal (approveReview q) v (ReviewApproved A v r) := by
  refine does_lifecycleLock (fun r₁ b h _ => ?_) (fun _ _ => .untouched) fun _ => .untouched
  rw [hr] at h
  cases h
  refine Does.readThen readOnly_readRecord (fun r₁ h => ?_) (fun _ _ => .untouched) fun _ => .untouched
  rw [hr] at h
  cases h
  refine Does.bind does_demand ?_ fun e v ⟨h, _⟩ => h ▸ .untouched
  rintro ⟨⟩ v ⟨rfl, hs⟩
  replace hs : r.meeting.status = .reviewRequired := by simpa using hs
  refine Does.bind does_demand ?_ fun e v ⟨h, _⟩ => h ▸ .untouched
  rintro ⟨⟩ v ⟨rfl, hb⟩
  replace hb : q.baseRevision = r.meeting.revision := by simpa using hb
  refine Does.readThen readOnly_readCurrentLocked (fun x hx => ?_) (fun _ _ => .untouched) fun _ => .untouched
  obtain ⟨transcript, insights⟩ := x
  refine Does.bind does_demand ?_ fun e v ⟨h, _⟩ => h ▸ .untouched
  rintro ⟨⟩ v ⟨rfl, hu⟩
  refine Does.bind does_demand ?_ fun e v ⟨h, _⟩ => h ▸ .untouched
  rintro ⟨⟩ v ⟨rfl, he⟩
  replace hu : ∀ s ∈ transcript.speakers, s.identityStatus ≠ .unreviewed := by simpa using hu
  refine Does.bind (R := fun out v' => v' = v ∧ ∃ t, out = .ok t) (Does.now fun t _ => ⟨rfl, t, rfl⟩) ?_ ?_
  swap
  · rintro e v' ⟨-, t, ht⟩
    cases ht
  rintro t v ⟨rfl, _, ht⟩
  cases ht
  exact (does_rewrite (.refl v) hr (.approved q transcript insights t hq hs hb hx hu he) rfl
    (by rw [hq]; exact nofun)).mono fun out v' h => ⟨t, h⟩

end Tirke
