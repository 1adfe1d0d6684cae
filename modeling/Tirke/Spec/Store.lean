import Tirke.Spec.Writing
/-!
# The readers of the store, and `update_meeting`

`readRecord_ok`, `readManifest_ok` and `readResults_ok` say when a reader succeeds, in terms of the
documents at its paths. `Updated` is what `update_meeting` may leave when the attempt stays the same.
-/

set_option linter.unusedSectionVars false

namespace Tirke

open CrashProg CrashDisk

variable [Lib] [Home] {v v' : View} {r r' : MeetingRecord}

/-! ## Readers -/

/-- The files `read_results` looks at. -/
def resultFiles (q : Path) : Prop :=
  q = (.folder, .meeting) ∨ q = (.folder, .manifest) ∨ q = (.folder, .transcript) ∨ q = (.folder, .insights) ∨
    q = (.folder, .text)

theorem readOnly_readRecord : ReadOnly (· = (Dir.folder, Name.meeting)) readRecord := by
  unfold readRecord
  refine ReadOnly.bind (ReadOnly.missingAs (readOnly_read (S := (· = _)) rfl) _) fun _ => ?_
  exact ReadOnly.bind (readOnly_parse _ _ _) fun _ => ReadOnly.bind (readOnly_demand _ _) fun _ => trivial

theorem readOnly_readManifest : ReadOnly resultFiles readManifest := by
  unfold readManifest
  refine ReadOnly.bind (readOnly_readRecord.mono fun _ h => .inl h) fun _ => ?_
  refine ReadOnly.bind (ReadOnly.missingAs (readOnly_read (.inr (.inl rfl))) _) fun _ => ?_
  refine ReadOnly.bind (readOnly_parse _ _ _) fun _ => ReadOnly.bind (readOnly_demand _ _) fun _ => ?_
  exact ReadOnly.bind (readOnly_demand _ _) fun _ => trivial

theorem readOnly_readArtifact {n : Name} {h : Sha256} (hn : resultFiles (.folder, n)) :
    ReadOnly resultFiles (readArtifact n h) := by
  unfold readArtifact
  exact ReadOnly.bind (ReadOnly.missingAs (readOnly_read hn) _) fun _ =>
    ReadOnly.bind (readOnly_demand _ _) fun _ => trivial

theorem readOnly_readResults : ReadOnly resultFiles readResults := by
  unfold readResults
  refine ReadOnly.bind readOnly_readManifest fun _ => ?_
  refine ReadOnly.bind (readOnly_readArtifact (.inr (.inr (.inl rfl)))) fun _ => ?_
  refine ReadOnly.bind (readOnly_readArtifact (.inr (.inr (.inr (.inl rfl))))) fun _ => ?_
  refine ReadOnly.bind (readOnly_readArtifact (.inr (.inr (.inr (.inr rfl))))) fun _ => ?_
  refine ReadOnly.bind (readOnly_parse _ _ _) fun _ => ReadOnly.bind (readOnly_parse _ _ _) fun _ => ?_
  exact ReadOnly.bind (readOnly_demand _ _) fun _ => ReadOnly.bind (readOnly_demand _ _) fun _ => trivial

@[simp] theorem run_missingAs {p : Path} {e : Exn} :
    v.run (missingAs (read p) e) = match v.look p with | some x => .ok x | none => .error e := by
  unfold missingAs
  rw [run_handle (readOnly_read (S := (· = p)) rfl), run_read]
  cases v.look p <;> rfl

theorem run_readRecord : v.run readRecord = match v.look (.folder, .meeting) with
    | none => .error .meetingNotFound
    | some d => match d.asRecord with
      | none => .error (.integrity "Invalid meeting state")
      | some r => if r.ownerId = Home.ownerId ∧ r.meeting.id = Home.meetingId then .ok r
        else .error .meetingNotFound := by
  simp only [readRecord, Prog.bind_eq, run_bind, run_missingAs, run_parse, run_demand]
  cases v.look (.folder, .meeting) with
  | none => rfl
  | some d =>
    simp only [ok_bind, demand_bind, Bool.and_eq_true, decide_eq_true_eq]
    cases d.asRecord <;> rfl

theorem ite_some_iff {α : Type} {p : α → Bool} {a a' : α} :
    (if p a then some a else none) = some a' ↔ a = a' ∧ p a' = true := by
  by_cases h : p a = true
  · rw [if_pos h, Option.some.injEq]
    constructor
    · rintro rfl; exact ⟨rfl, h⟩
    · exact And.left
  · rw [if_neg h]
    constructor
    · intro e; cases e
    · rintro ⟨rfl, h'⟩; exact absurd h' h

theorem asRecord_eq_some {d : Doc} : d.asRecord = some r ↔ d = .record r ∧ r.ok = true := by
  cases d with
  | record => simp only [Doc.asRecord, ite_some_iff (p := MeetingRecord.ok), Doc.record.injEq]
  | _ => simp [Doc.asRecord]

theorem asManifest_eq_some {d : Doc} {m : ReadyManifest} : d.asManifest = some m ↔ d = .manifest m ∧ m.valid = true := by
  cases d with
  | manifest => simp only [Doc.asManifest, ite_some_iff (p := ReadyManifest.valid), Doc.manifest.injEq]
  | _ => simp [Doc.asManifest]

theorem asTranscript_eq_some {d : Doc} {t : TranscriptV1} : d.asTranscript = some t ↔ d = .transcript t ∧ t.valid = true := by
  cases d with
  | transcript => simp only [Doc.asTranscript, ite_some_iff (p := TranscriptV1.valid), Doc.transcript.injEq]
  | _ => simp [Doc.asTranscript]

theorem asInsights_eq_some {d : Doc} {i : InsightsV1} : d.asInsights = some i ↔ d = .insights i ∧ i.valid = true := by
  cases d with
  | insights => simp only [Doc.asInsights, ite_some_iff (p := InsightsV1.valid), Doc.insights.injEq]
  | _ => simp [Doc.asInsights]

theorem asSnapshot_eq_some {d : Doc} {s : ReviewSnapshot} : d.asSnapshot = some s ↔ d = .snapshot s ∧ s.valid = true := by
  cases d with
  | snapshot => simp only [Doc.asSnapshot, ite_some_iff (p := ReviewSnapshot.valid), Doc.snapshot.injEq]
  | _ => simp [Doc.asSnapshot]

theorem missingAs_ok {p : Path} {e : Exn} {d : Doc} : v.run (missingAs (read p) e) = .ok d ↔ v.look p = some d := by
  rw [run_missingAs]; cases v.look p <;> simp

theorem readRecord_ok : v.run readRecord = .ok r ↔ v.look (.folder, .meeting) = some (.record r) ∧ r.ok = true ∧
    r.ownerId = Home.ownerId ∧ r.meeting.id = Home.meetingId := by
  simp only [readRecord, Prog.bind_eq, run_bind, bind_eq_ok, missingAs_ok, run_parse_ok, run_demand_ok,
    Prog.pure_eq, run_ret, Except.ok.injEq, asRecord_eq_some, Bool.and_eq_true, decide_eq_true_eq]
  constructor
  · rintro ⟨d, hd, r', ⟨rfl, hok⟩, -, hid, rfl⟩
    exact ⟨hd, hok, hid⟩
  · rintro ⟨hd, hok, hid⟩
    exact ⟨_, hd, r, ⟨rfl, hok⟩, (), hid, rfl⟩

/-- A readable record: the folder is in place and its creation was committed. -/
theorem readable_look (h : v.run readRecord = .ok r) : v.look (.folder, .meeting) = some (.record r) :=
  (readRecord_ok.1 h).1

theorem readable_ok (h : v.run readRecord = .ok r) : r.ok = true := (readRecord_ok.1 h).2.1

theorem readable_reach (h : v.run readRecord = .ok r) : v.reach .folder = true :=
  reach_of_look (readable_look h)

theorem readable_notVoid (h : v.run readRecord = .ok r) : ¬ v.Void := not_void_of_look (readable_look h)

theorem run_readManifest (h : v.run readRecord = .ok r) :
    v.run readManifest = match v.look (.folder, .manifest) with
      | none => .error .notReady
      | some d => match d.asManifest with
        | none => .error (.integrity "Invalid ready manifest")
        | some m => if m.ownerId = Home.ownerId ∧ m.meetingId = Home.meetingId then
            if m.attempt = r.meeting.attempt then .ok m else .error .notReady
          else .error (.integrity "Manifest identity mismatch") := by
  simp only [readManifest, Prog.bind_eq, run_bind, h, run_missingAs, run_parse, run_demand]
  cases v.look (.folder, .manifest) with
  | none => rfl
  | some d =>
    simp only [ok_bind, demand_bind, Bool.and_eq_true, decide_eq_true_eq]
    cases d.asManifest <;> rfl

theorem readManifest_ok {m : ReadyManifest} : v.run readManifest = .ok m ↔ ∃ r, v.run readRecord = .ok r ∧
    v.look (.folder, .manifest) = some (.manifest m) ∧ m.valid = true ∧ m.ownerId = Home.ownerId ∧
    m.meetingId = Home.meetingId ∧ m.attempt = r.meeting.attempt := by
  simp only [readManifest, Prog.bind_eq, run_bind, bind_eq_ok, missingAs_ok, run_parse_ok, run_demand_ok,
    Prog.pure_eq, run_ret, Except.ok.injEq, asManifest_eq_some, Bool.and_eq_true, decide_eq_true_eq]
  constructor
  · rintro ⟨r, hr, d, hd, m', ⟨rfl, hm⟩, -, ⟨ho, hi⟩, -, ha, rfl⟩
    exact ⟨r, hr, hd, hm, ho, hi, ha⟩
  · rintro ⟨r, hr, hd, hm, ho, hi, ha⟩
    exact ⟨r, hr, _, hd, m, ⟨rfl, hm⟩, (), ⟨ho, hi⟩, (), ha, rfl⟩

theorem readArtifact_ok {n : Name} {h : Sha256} {d : Doc} :
    v.run (readArtifact n h) = .ok d ↔ v.look (.folder, n) = some d ∧ Lib.sha256 d = h := by
  simp only [readArtifact, Prog.bind_eq, run_bind, bind_eq_ok, missingAs_ok, run_demand_ok, decide_eq_true_eq,
    Prog.pure_eq, run_ret, Except.ok.injEq]
  constructor
  · rintro ⟨d', hd, -, hh, rfl⟩; exact ⟨hd, hh⟩
  · rintro ⟨hd, hh⟩; exact ⟨d, hd, (), hh, rfl⟩

theorem bundle_valid {m : ReadyManifest} {t : TranscriptV1} {i : InsightsV1} (h : (m.bundle t i).valid = true) :
    t.valid = true ∧ i.valid = true := by
  simp only [ResultBundleV1.valid, ReadyManifest.bundle, Bool.and_eq_true] at h
  obtain ⟨⟨⟨⟨⟨⟨⟨⟨ht, hi⟩, -⟩, -⟩, -⟩, -⟩, -⟩, -⟩, -⟩ := h
  exact ⟨ht, hi⟩

/-- **When the committed results are readable.** -/
theorem readResults_ok {t : TranscriptV1} {i : InsightsV1} : v.run readResults = .ok (t, i) ↔
    ∃ m x, v.run readManifest = .ok m ∧ v.look (.folder, .transcript) = some (.transcript t) ∧
      v.look (.folder, .insights) = some (.insights i) ∧ v.look (.folder, .text) = some x ∧
      Lib.sha256 (.transcript t) = m.artifacts.transcriptJson ∧ Lib.sha256 (.insights i) = m.artifacts.insightsJson ∧
      Lib.sha256 x = m.artifacts.transcriptTxt ∧ (m.bundle t i).valid = true ∧ t.meetingId = Home.meetingId := by
  simp only [readResults, Prog.bind_eq, run_bind, bind_eq_ok, readArtifact_ok, run_parse_ok, run_demand_ok,
    decide_eq_true_eq, Prog.pure_eq, run_ret, Except.ok.injEq, Prod.mk.injEq, asTranscript_eq_some,
    asInsights_eq_some]
  constructor
  · rintro ⟨m, hm, d₁, ⟨h₁, s₁⟩, d₂, ⟨h₂, s₂⟩, d₃, ⟨h₃, s₃⟩, t', ⟨rfl, -⟩, i', ⟨rfl, -⟩, -, hb, -, hid, rfl, rfl⟩
    exact ⟨m, d₃, hm, h₁, h₂, h₃, s₁, s₂, s₃, hb, hid⟩
  · rintro ⟨m, x, hm, h₁, h₂, h₃, s₁, s₂, s₃, hb, hid⟩
    have hv := bundle_valid hb
    exact ⟨m, hm, _, ⟨h₁, s₁⟩, _, ⟨h₂, s₂⟩, x, ⟨h₃, s₃⟩, t, ⟨rfl, hv.1⟩, i, ⟨rfl, hv.2⟩, (), hb, (), hid, rfl, rfl⟩

/-- What reading the stored results raises. -/
def Exn.stored : Exn → Prop
  | .meetingNotFound | .notReady | .integrity _ => True
  | _ => False

theorem missingAs_error {p : Path} {e e' : Exn} (h : v.run (missingAs (read p) e) = .error e') : e' = e := by
  rw [run_missingAs] at h
  cases hl : v.look p with
  | some x => rw [hl] at h; cases h
  | none => rw [hl] at h; cases h; rfl

theorem parse_error {α : Type} {as : Doc → Option α} {d : Doc} {e e' : Exn} (h : v.run (parse as d e) = .error e') :
    e' = e := by
  unfold parse at h
  split at h <;> cases h
  rfl

theorem demand_error {b : Bool} {e e' : Exn} (h : v.run (demand b e) = .error e') : e' = e := by
  unfold demand at h
  split at h <;> cases h
  rfl

theorem readManifest_error {e : Exn} (h : v.run readManifest = .error e) : e.stored := by
  simp only [readManifest, readRecord, Prog.bind_eq, run_bind, bind_eq_error, Prog.pure_eq, run_ret] at h
  rcases h with (h | ⟨_, _, h | ⟨_, _, h | ⟨_, _, h⟩⟩⟩) | ⟨_, _, h | ⟨_, _, h | ⟨_, _, h | ⟨_, _, h | ⟨_, _, h⟩⟩⟩⟩⟩
  · rw [missingAs_error h]; trivial
  · rw [parse_error h]; trivial
  · rw [demand_error h]; trivial
  · cases h
  · rw [missingAs_error h]; trivial
  · rw [parse_error h]; trivial
  · rw [demand_error h]; trivial
  · rw [demand_error h]; trivial
  · cases h

theorem readArtifact_error {n : Name} {hash : Sha256} {e : Exn} (h : v.run (readArtifact n hash) = .error e) :
    e.stored := by
  simp only [readArtifact, Prog.bind_eq, run_bind, bind_eq_error, Prog.pure_eq, run_ret] at h
  rcases h with h | ⟨_, _, h | ⟨_, _, h⟩⟩
  · rw [missingAs_error h]; trivial
  · rw [demand_error h]; trivial
  · cases h

theorem readResults_error {e : Exn} (h : v.run readResults = .error e) : e.stored := by
  simp only [readResults, Prog.bind_eq, run_bind, bind_eq_error, Prog.pure_eq, run_ret] at h
  rcases h with h | ⟨_, _, h | ⟨_, _, h | ⟨_, _, h | ⟨_, _, h | ⟨_, _, h | ⟨_, _, h | ⟨_, _, h | ⟨_, _, h⟩⟩⟩⟩⟩⟩⟩⟩
  · exact readManifest_error h
  · exact readArtifact_error h
  · exact readArtifact_error h
  · exact readArtifact_error h
  · rw [parse_error h]; trivial
  · rw [parse_error h]; trivial
  · rw [demand_error h]; trivial
  · rw [demand_error h]; trivial
  · cases h

/-! ## The lifecycle lock -/

/-- **`with store.lifecycle_lock(…)`**: the body runs with the record readable, or not at all. -/
theorem does_lifecycleLock {A : Env host} {L : Law} {α : Type} {blocking : Bool} {body : Bool → Serv α}
    {Q : Except Exn α → View → Prop}
    (ok : ∀ r b, v.run readRecord = .ok r → b = true ∨ blocking = false ∧ MayBlock A → Does A L (body b) v Q)
    (unreadable : ∀ e, v.run readRecord = .error e → Q (.error e) v) (fault : MayFail A → Q (.error .osError) v) :
    Does A L (lifecycleLock blocking body) v Q := by
  refine Does.readThen readOnly_readRecord.discard (fun _ h => ?_) (fun e h => ?_) fault
  swap
  · rw [run_discard] at h
    cases hr : v.run readRecord with
    | ok r => rw [hr] at h; cases h
    | error e' => rw [hr] at h; cases h; exact unreadable _ hr
  rw [run_discard, bind_eq_ok] at h
  obtain ⟨r, hr, -⟩ := h
  refine Does.bind (R := fun out v' => v' = v ∧ (out = .ok () ∨ MayFail A ∧ out = .error .osError)) ?_ ?_ ?_
  · refine Does.handle (R := fun out v' => v' = v ∧ (out = .ok () ∨ MayFail A ∧ out = .error .osError))
      (Does.openLock (fun _ => ⟨rfl, .inl rfl⟩) (fun h => ?_) fun hf => ⟨rfl, .inr ⟨hf, rfl⟩⟩) (fun _ _ h => h) ?_
    · rw [readable_reach hr] at h; cases h
    · rintro e v ⟨rfl, h | ⟨hf, h⟩⟩
      · cases h
      · cases h; exact .raise ⟨rfl, .inr ⟨hf, rfl⟩⟩
  · rintro ⟨⟩ v ⟨rfl, -⟩
    refine Does.bind (R := fun out v' => v' = v ∧ ∃ b, out = .ok b ∧ (b = true ∨ blocking = false ∧ MayBlock A))
      (Does.flock ⟨rfl, true, rfl, .inl rfl⟩ fun h hb => ⟨rfl, false, rfl, .inr ⟨h, hb⟩⟩) ?_ ?_
    · rintro b v ⟨rfl, _, hb, hblock⟩
      cases hb
      exact ok r b hr hblock
    · rintro e v ⟨-, b, h, -⟩
      cases h
  · rintro e v ⟨rfl, h | ⟨hf, h⟩⟩
    · cases h
    · cases h; exact fault hf

end Tirke
