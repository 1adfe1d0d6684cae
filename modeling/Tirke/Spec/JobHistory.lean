import Tirke.Services.CoordinatorRuntime
import Tirke.Spec.Records
/-!
# A job for every attempt

`valid_job_history` forbids duplicates and future attempts; that the attempt in progress has a job at all is kept by
the writers. `GapFree` is what they keep. A service whose reads of the marker are gap-free (`Recalls`) returns, or
raises something else than what a gap would make it raise (`Whole`), whatever else its operations reply.

| here | there |
| --- | --- |
| `Exn.intact` | neither the `StopIteration` of `next(…)` (`coordinator.py:126`, `:211`) nor the `ValidationError` of `valid_job_history` (`meeting.py:154`) |
| `JobRecord.Kept` | what every assignment to a job leaves of it |
| `whole_f` | the method `f` |
-/

set_option linter.unusedSectionVars false

namespace Tirke

open CrashProg CrashDisk

variable [Lib] [Home] {r r' : MeetingRecord} {j j' : JobRecord}

/-! ## Histories -/

/-- A job with a result has an identity. -/
def JobRecord.Bound (j : JobRecord) : Prop := j.resultHash ≠ none → j.jobId ≠ none

/-- One job for each attempt up to the current one, in order. -/
structure MeetingRecord.GapFree (r : MeetingRecord) : Prop where
  attempts : r.jobs.map (·.attempt) = List.range' 1 r.meeting.attempt
  started : 1 ≤ r.meeting.attempt
  bound : ∀ j ∈ r.jobs, j.Bound

structure JobRecord.Kept (j j' : JobRecord) : Prop where
  attempt : j'.attempt = j.attempt
  bound : j.Bound → j'.Bound

theorem JobRecord.Kept.refl (j : JobRecord) : j.Kept j := ⟨rfl, fun h => h⟩

theorem kept_jobs {js js' : List JobRecord} (h : List.Forall₂ JobRecord.Kept js js') :
    js'.map (·.attempt) = js.map (·.attempt) ∧ ((∀ j ∈ js, j.Bound) → ∀ j ∈ js', j.Bound) := by
  induction h with
  | nil => exact ⟨rfl, fun _ => nofun⟩
  | @cons j j' js js' hj _ ih =>
    refine ⟨by rw [List.map_cons, List.map_cons, hj.attempt, ih.1], fun hb x hx => ?_⟩
    rcases List.mem_cons.1 hx with rfl | hx
    · exact hj.bound (hb j List.mem_cons_self)
    · exact ih.2 (fun y hy => hb y (List.mem_cons_of_mem _ hy)) x hx

namespace MeetingRecord.GapFree

theorem of_jobs (h : r.GapFree) (ha : r'.meeting.attempt = r.meeting.attempt)
    (hf : List.Forall₂ JobRecord.Kept r.jobs r'.jobs) : r'.GapFree := by
  obtain ⟨hattempts, hbound⟩ := kept_jobs hf
  exact ⟨by rw [hattempts, h.attempts, ha], ha ▸ h.started, hbound h.bound⟩

/-- Writes that leave the attempt and the jobs alone. -/
theorem of_eq (h : r.GapFree) (ha : r'.meeting.attempt = r.meeting.attempt) (hj : r'.jobs = r.jobs) : r'.GapFree :=
  h.of_jobs ha (hj ▸ List.forall₂_same.2 fun j _ => .refl j)

theorem setJob {f : JobRecord → JobRecord} (h : r.GapFree) (hf : ∀ j : JobRecord, j.Kept (f j)) : (r.setJob f).GapFree := by
  refine h.of_jobs rfl (List.forall₂_map_right_iff.2 (List.forall₂_same.2 fun j _ => ?_))
  split
  · exact hf j
  · exact .refl j

/-- **The attempt in progress has a job.** -/
theorem job (h : r.GapFree) : ∃ job, r.job = some job := by
  have hmem : r.meeting.attempt ∈ r.jobs.map (·.attempt) := by
    rw [h.attempts, List.mem_range'_1]
    have := h.started
    omega
  obtain ⟨j, hj, ha⟩ := List.mem_map.1 hmem
  refine Option.isSome_iff_exists.1 (List.find?_isSome.2 ⟨j, hj, ?_⟩)
  simpa using ha

theorem validJobHistory (h : r.GapFree) : r.validJobHistory = true := by
  obtain ⟨hattempts, hstarted, -⟩ := h
  have hnonempty : r.jobs ≠ [] := by
    intro hnil
    rw [hnil] at hattempts
    have hlen := congrArg List.length hattempts
    simp only [List.map_nil, List.length_nil, List.length_range'] at hlen
    omega
  simp only [MeetingRecord.validJobHistory, Bool.and_eq_true, Bool.not_eq_true', List.isEmpty_eq_false_iff,
    decide_eq_true_eq, List.all_eq_true]
  refine ⟨⟨hnonempty, ?_⟩, fun j hj => ?_⟩
  · rw [hattempts]
    exact List.nodup_range'
  · have hmem : j.attempt ∈ r.jobs.map (·.attempt) := List.mem_map_of_mem hj
    rw [hattempts, List.mem_range'_1] at hmem
    omega

/-- A retry appends the next attempt's job to those there are. -/
theorem retried (h : r.GapFree) (t : Time) : (r.retried t).GapFree := by
  refine ⟨?_, Nat.le_add_left 1 _, fun j hj => ?_⟩
  · show (r.jobs ++ [JobRecord.new (r.meeting.attempt + 1) (some false)]).map (·.attempt) =
      List.range' 1 (r.meeting.attempt + 1)
    rw [List.map_append, h.attempts, List.range'_concat]
    simp [JobRecord.new, Nat.add_comm]
  · rcases List.mem_append.1 hj with hj | hj
    · exact h.bound j hj
    · rw [List.mem_singleton.1 hj]
      exact fun hr => absurd rfl hr

end MeetingRecord.GapFree

/-- A creation writes the one job of attempt 1, whatever it says of its submission. -/
theorem gapFree_first {started : Option Bool} (ha : r.meeting.attempt = 1) (hj : r.jobs = [.new 1 started]) : r.GapFree := by
  refine ⟨by rw [hj, ha]; rfl, ha ▸ Nat.le_refl _, fun j hm => ?_⟩
  rw [hj, List.mem_singleton] at hm
  rw [hm]
  exact fun hr => absurd rfl hr

namespace JobRecord

theorem kept_polled {remote : JobV1} : j.Kept (j.polled remote) := ⟨rfl, fun _ _ => nofun⟩

theorem kept_published {b : ResultBundleV1} : j.Kept (j.published b) := ⟨rfl, fun _ _ => nofun⟩

theorem kept_acked {receipt : AckV1} : j.Kept (j.acked receipt) := ⟨rfl, fun h => h⟩

theorem kept_reconciled {remote : JobV1} : j.Kept (j.reconciled remote) := ⟨rfl, fun h => h⟩

theorem kept_flagged : j.Kept { j with submitStarted := some true } := ⟨rfl, fun h => h⟩

theorem kept_expired : j.Kept j.expired := by
  unfold JobRecord.expired
  split
  · exact ⟨rfl, fun h => h⟩
  · exact .refl j

end JobRecord

theorem MeetingRecord.GapFree.expired (h : r.GapFree) (t : Time) : (r.expired t).GapFree :=
  h.of_jobs rfl (List.forall₂_map_right_iff.2 (List.forall₂_same.2 fun _ _ => JobRecord.kept_expired))

/-! ## Programs that read gap-free markers -/

/-- A reply that is not a marker with a gap. -/
def Recalls : (o : Op) → o.Reply → Prop
  | .file (.read e), .ok x => e = Path.entry (.folder, .meeting) → ∀ r, x.asRecord = some r →
      r.ownerId = Home.ownerId → r.meeting.id = Home.meetingId → r.GapFree
  | _, _ => True

/-- What no gap is needed for. -/
def Exn.intact : Exn → Bool
  | .runtimeError | .jobHistory => false
  | _ => true

abbrev Returns {α : Type} (Q : α → Prop) (p : Serv α) : Prop := Ends Recalls Q (fun e => e.intact = true) p

abbrev Whole {α : Type} (p : Serv α) : Prop := Returns (fun _ => True) p

/-- Inside `_advance`, where the record is held while an exception passes. -/
abbrev ReturnsHeld {α : Type} (Q : α → Prop) (p : Held α) : Prop :=
  Ends Recalls Q (fun x => x.1.intact = true ∧ x.2.GapFree) p

section
variable {α β : Type} {Q : α → Prop} {p : Serv α} {e : Exn}

theorem Whole.of_returns (h : Returns Q p) : Whole p := h.mono fun _ _ => trivial

theorem Whole.bind {f : α → Serv β} {P : β → Prop} (h : Whole p) (hf : ∀ a, Returns P (f a)) : Returns P (p.bind f) :=
  Ends.bind h fun a _ => hf a

theorem Whole.discard (h : Whole p) : Whole (discard p) := h.bind fun _ => trivial

theorem whole_held (h : Returns Q p) (hr : r.GapFree) : ReturnsHeld Q (held r p) := Ends.handle h fun _ he => ⟨he, hr⟩

theorem intact_ofErrno (e : Errno) : (Exn.ofErrno e).intact = true := by cases e <;> rfl

theorem whole_call (o : FileCall) : Whole (call o) := by
  intro a _
  cases a with
  | ok x => exact trivial
  | error e => exact intact_ofErrno e

theorem whole_demand {b : Bool} (h : e.intact = true) : Returns (fun _ => b = true) (demand b e) := by
  unfold demand
  split
  · next hb => exact hb
  · exact h

theorem whole_missingAs (h : Returns Q p) (he : e.intact = true) : Returns Q (missingAs p e) := by
  refine h.handle fun x hx => ?_
  show (if x = .fileNotFound then e else x).intact = true
  split
  · exact he
  · exact hx

theorem whole_parse {as : Doc → Option α} {d : Doc} (he : e.intact = true) : Returns (fun a => as d = some a) (parse as d e) := by
  unfold parse
  cases h : as d with
  | some a => exact rfl
  | none => exact he

theorem whole_ofExcept {x : Except Exn α} (h : ∀ e, x = .error e → e.intact = true) : Whole (.ofExcept x) := by
  cases x with
  | ok a => exact trivial
  | error e => exact h e rfl

end

/-! ## `app/services/artifact_store.py` -/

section
variable {p : Path} {d : Dir} {n : Name} {data : Doc} {m : Meeting} {b : ResultBundleV1}

theorem whole_read : Whole (read p) := whole_call _

theorem whole_exists : Whole (exists? p) := whole_call _

theorem whole_syncDirectory : Whole (syncDirectory d) := whole_call _

theorem whole_syncFile : Whole (syncFile p) := whole_call _

theorem whole_mkdirParents {ds : List Dir} : Whole (mkdirParents ds) := by
  induction ds with
  | nil => exact trivial
  | cons d ds ih =>
    refine (whole_call _).handle fun e he => ?_
    split
    · exact ih.bind fun _ => whole_call _
    · exact he

theorem whole_syncAll {ds : List Dir} : Whole (syncAll ds) := by
  induction ds with
  | nil => exact trivial
  | cons d ds ih => exact whole_syncDirectory.bind fun _ => ih

theorem whole_makeDirectory : Whole (makeDirectory d) := whole_mkdirParents.bind fun _ => whole_syncAll

theorem whole_sameContent {message : String} : Whole (sameContent p data (.integrity message)) :=
  whole_read.bind fun _ => Ends.mono (whole_demand rfl) fun _ _ => trivial

theorem whole_linkOriginal {t : Dir × Entry Name} : Whole (linkOriginal t p data) := by
  refine Ends.handle (whole_call _) fun e he => ?_
  cases e with
  | fileExists => exact whole_sameContent.bind fun _ => whole_syncFile
  | _ => exact he

theorem whole_showTemporary {t : Dir × Entry Name} {immutable : Bool} : Whole (showTemporary t p data immutable) := by
  cases immutable with
  | true => exact whole_linkOriginal
  | false => exact whole_call _

theorem whole_writeTemporary {immutable : Bool} : Whole (writeTemporary p data immutable) := by
  refine (whole_call _).bind fun k => Ends.ensuring ?_ (whole_call _)
  exact (whole_call _).bind fun _ => (whole_call _).bind fun _ => whole_showTemporary.bind fun _ => whole_syncDirectory

theorem whole_atomicWrite : Whole (atomicWrite p data) := whole_writeTemporary

theorem whole_writeOriginal : Whole (writeOriginal p data) := by
  refine whole_exists.bind fun b => ?_
  split
  · exact whole_sameContent.bind fun _ => whole_syncFile.bind fun _ => whole_syncDirectory
  · exact whole_writeTemporary

/-- The one read that has to recall. -/
theorem returns_readRecord : Returns MeetingRecord.GapFree readRecord := by
  have hread : Returns (fun x => ∀ r, x.asRecord = some r → r.ownerId = Home.ownerId → r.meeting.id = Home.meetingId →
      r.GapFree) (read (.folder, .meeting)) := by
    intro a ha
    cases a with
    | ok x => exact ha rfl
    | error e => exact intact_ofErrno e
  refine Ends.bind (whole_missingAs hread rfl) fun x hx => ?_
  refine Ends.bind (whole_parse rfl) fun r hr => ?_
  refine Ends.bind (whole_demand rfl) fun _ hid => ?_
  simp only [Bool.and_eq_true, decide_eq_true_eq] at hid
  exact hx r hr hid.1 hid.2

theorem whole_readRecord : Whole readRecord := .of_returns returns_readRecord

theorem whole_readManifest : Whole readManifest :=
  whole_readRecord.bind fun _ => Ends.bind (whole_missingAs whole_read rfl) fun _ _ =>
    Ends.bind (whole_parse rfl) fun _ _ => Ends.bind (whole_demand rfl) fun _ _ =>
      Ends.bind (whole_demand rfl) fun _ _ => trivial

theorem whole_readArtifact {expected : Sha256} : Whole (readArtifact n expected) :=
  Ends.bind (whole_missingAs whole_read rfl) fun _ _ => Ends.bind (whole_demand rfl) fun _ _ => trivial

theorem whole_readResults : Whole readResults :=
  whole_readManifest.bind fun _ => whole_readArtifact.bind fun _ => whole_readArtifact.bind fun _ =>
    whole_readArtifact.bind fun _ => Ends.bind (whole_parse rfl) fun _ _ => Ends.bind (whole_parse rfl) fun _ _ =>
      Ends.bind (whole_demand rfl) fun _ _ => Ends.bind (whole_demand rfl) fun _ _ => trivial

theorem whole_showStatus : Whole (showStatus m) := by
  unfold showStatus
  split
  · refine Ends.handle (whole_readResults.discard.bind fun _ => trivial) fun e he => ?_
    split
    · exact trivial
    · exact he
  · exact trivial

theorem whole_now : Whole now := fun _ _ => trivial

theorem whole_sourceAvailable : Whole (sourceAvailable m) := by
  refine whole_exists.bind fun isFile => ?_
  split
  · exact whole_now.bind fun _ => trivial
  · exact trivial

theorem whole_readMeeting : Whole readMeeting :=
  whole_readRecord.bind fun _ => whole_showStatus.bind fun _ => whole_sourceAvailable.bind fun _ => trivial

theorem whole_copyAudio {chunks : List Bytes} {written : Bytes} : Whole (copyAudio written chunks) := by
  induction chunks generalizing written with
  | nil => exact trivial
  | cons chunk chunks ih =>
    unfold copyAudio
    split
    · exact trivial
    · exact (whole_call _).bind fun _ => ih

theorem whole_withdraw {α : Type} {e : Exn} (he : e.intact = true) : Whole (withdraw e : Serv α) :=
  (whole_call _).bind fun _ => whole_syncDirectory.bind fun _ => whole_syncDirectory.bind fun _ => he

theorem whole_createMeeting {metadata : MeetingMetadata} {chunks : List Bytes} {kind : PublicSourceKind}
    {extension : Option AudioExtension} {hours : Nat} : Whole (createMeeting metadata chunks kind extension hours) := by
  refine Ends.bind (whole_demand rfl) fun _ _ => Ends.bind (whole_demand rfl) fun _ _ => ?_
  refine whole_makeDirectory.bind fun _ => whole_now.bind fun t => (whole_call _).bind fun _ => ?_
  refine whole_copyAudio.bind fun audio => (whole_call _).bind fun _ => Whole.bind ?_ fun _ => trivial
  exact Ends.handle (whole_atomicWrite.bind fun _ => whole_syncDirectory) fun e he => whole_withdraw he

theorem whole_archiveOriginal {k : Nat} : Whole (archiveOriginal k n) := by
  refine whole_exists.bind fun b => ?_
  split
  · exact whole_read.bind fun _ => whole_writeOriginal.bind fun _ => (whole_call _).bind fun _ => whole_syncDirectory
  · exact trivial

theorem whole_archiveOriginals {k : Nat} {ns : List Name} : Whole (archiveOriginals k ns) := by
  induction ns with
  | nil => exact trivial
  | cons n ns ih => exact whole_archiveOriginal.bind fun _ => ih

theorem whole_archiveBefore : Whole (archiveBefore r r') := by
  unfold archiveBefore
  split
  · exact trivial
  · exact Ends.bind (whole_demand rfl) fun _ _ => whole_makeDirectory.bind fun _ =>
      whole_writeOriginal.bind fun _ => whole_archiveOriginals.bind fun _ => whole_syncDirectory

theorem whole_checkResults : Whole (checkResults r) := by
  unfold checkResults
  split
  · exact whole_readResults.discard
  · exact trivial

/-- A gap-free record is not refused for its jobs. -/
theorem intact_invalid (h : r.GapFree) (hok : r.ok = false) : r.invalid.intact = true := by
  unfold MeetingRecord.invalid
  split
  · next hfields =>
    simp only [MeetingRecord.ok, MeetingRecord.valid, hfields, h.validJobHistory, Bool.and_true] at hok
    cases hok
  · rfl

/-- **`update_meeting` finds the history of a gap-free record consistent.** -/
theorem whole_updateMeeting (h : r.GapFree) : Whole (updateMeeting r) := by
  have hdemand : Whole (demand r.ok r.invalid) := by
    unfold demand
    split
    · exact trivial
    · next hok => exact intact_invalid h (by simpa using hok)
  exact hdemand.bind fun _ => whole_readRecord.bind fun _ => Ends.bind (whole_demand rfl) fun _ _ =>
    whole_archiveBefore.bind fun _ => whole_checkResults.bind fun _ => whole_atomicWrite.bind fun _ => whole_readMeeting

theorem whole_uploadPath : Whole uploadPath :=
  whole_readMeeting.bind fun _ => Ends.bind (whole_demand rfl) fun _ _ => trivial

theorem whole_deleteUpload : Whole deleteUpload :=
  whole_readRecord.discard.bind fun _ => (whole_call _).bind fun _ => whole_syncDirectory

theorem whole_lifecycleLock {α : Type} {blocking : Bool} {body : Bool → Serv α} (h : ∀ b, Whole (body b)) :
    Whole (lifecycleLock blocking body) :=
  whole_readRecord.discard.bind fun _ => Ends.bind (whole_missingAs (whole_call _) rfl) fun _ _ =>
    Whole.bind (fun _ _ => trivial) h

theorem whole_deleteMeeting {suffix : UUID} : Whole (deleteMeeting suffix) := by
  refine (whole_call _).bind fun _ => whole_readRecord.discard.bind fun _ => (whole_call _).bind fun _ => ?_
  refine Whole.bind (whole_syncDirectory.handle fun e he => ?_) fun _ => ?_
  · exact (whole_call _).bind fun _ => whole_syncDirectory.bind fun _ => he
  · refine Ends.handle ((whole_call _).bind fun _ => whole_syncDirectory) fun e he => ?_
    split
    · exact trivial
    · exact he

theorem whole_writeArtifacts {l : List (Name × Doc)} : Whole (writeArtifacts l) := by
  induction l with
  | nil => exact trivial
  | cons x l ih =>
    obtain ⟨n, data⟩ := x
    unfold writeArtifacts
    exact whole_writeOriginal.bind fun _ => whole_read.bind fun stored => Ends.bind (whole_demand rfl) fun _ _ => ih

theorem whole_syncFiles {ns : List Name} : Whole (syncFiles ns) := by
  induction ns with
  | nil => exact trivial
  | cons n ns ih => exact whole_syncFile.bind fun _ => ih

theorem whole_republish : Whole (republish b) :=
  whole_readManifest.bind fun _ => Ends.bind (whole_demand rfl) fun _ _ => whole_readResults.discard.bind fun _ =>
    whole_syncFiles.bind fun _ => whole_makeDirectory.bind fun _ => trivial

theorem whole_publishFirst : Whole (publishFirst r b) :=
  whole_writeArtifacts.bind fun _ => whole_now.bind fun _ => whole_atomicWrite.bind fun _ =>
    whole_writeOriginal.bind fun _ => trivial

theorem whole_publishResults : Whole (publishResults b) := by
  refine Ends.bind (whole_demand rfl) fun _ _ => whole_readRecord.bind fun r => ?_
  refine Ends.bind (whole_demand rfl) fun _ _ => Ends.bind (whole_demand rfl) fun _ _ => ?_
  refine whole_exists.bind fun b => ?_
  split
  · exact whole_republish
  · exact whole_publishFirst

theorem whole_readPdfCache {revision : Nat} : Whole (readPdfCache revision) :=
  Whole.bind (whole_readRecord.discard.bind fun _ => trivial) fun _ => whole_read.bind fun _ =>
    Ends.bind (whole_missingAs whole_read rfl) fun _ _ => Ends.bind (whole_demand rfl) fun _ _ => trivial

theorem whole_writePdfCache {revision : Nat} : Whole (writePdfCache revision data) :=
  Whole.bind (whole_readRecord.discard.bind fun _ => trivial) fun _ => whole_writeOriginal.bind fun _ => whole_writeOriginal

theorem whole_deletePdfCache {revision : Nat} : Whole (deletePdfCache revision) :=
  Whole.bind (whole_readRecord.discard.bind fun _ => trivial) fun _ => (whole_call _).bind fun _ =>
    (whole_call _).bind fun _ => whole_syncDirectory

end

end Tirke
