import Tirke.Obeys.JobHistory
import Tirke.Runs.Uses
import Tirke.Runs.Written
/-!
# A job for every attempt, in every record there ever was

A reply of the disk is a record that was written, what was written is gap-free, and a use that is shown gap-free
records writes gap-free records: the three are one induction over runs.
-/

set_option linter.unusedSectionVars false

namespace Tirke

open CrashProg CrashDisk

section
variable [Lib] [Home] {v v' : View} {r r' : MeetingRecord} {j j' : JobRecord} {e : Event} {c c' : Config} {rot : Prop}

/-! ## Writes -/

/-- Every `meeting.json` that was put in place, in the folder or in the archive of an attempt. -/
def Event.record : Event → Option MeetingRecord
  | .file (.put (_, .meeting) (.record r)) => some r
  | _ => none

def records (log : List Event) : List MeetingRecord := log.filterMap Event.record

theorem record_of_marked (h : e.marked = some r) : e.record = some r := by
  unfold Event.marked at h
  split at h
  · exact h
  · cases h

theorem mem_records_of_written {log : List Event} (h : r ∈ written log) : r ∈ records log := by
  obtain ⟨e, he, hr⟩ := List.mem_filterMap.1 h
  exact List.mem_filterMap.2 ⟨e, he, record_of_marked hr⟩

theorem records_legacy {audio : Bytes} {answers : List Response} : records (legacyLog r audio answers) = [r] := by
  induction answers with
  | nil => rfl
  | cons a answers ih => exact ih

theorem JobMoved.keeps (h : JobMoved v r r' j j') : j.Kept j' := by
  cases h with
  | kept => exact .refl j
  | reconciled => exact JobRecord.kept_reconciled
  | flagged => exact JobRecord.kept_flagged
  | polled => exact JobRecord.kept_polled
  | published => exact JobRecord.kept_published
  | acked => exact JobRecord.kept_acked
  | expired => exact JobRecord.kept_expired

/-- **A move leaves no gap.** -/
theorem Move.gapFree (m : Move v r r') (hok : r.ok = true) (h : r.GapFree) : r'.GapFree := by
  rcases m.attempt_or with ha | ⟨t, rfl, -⟩
  · rcases m.jobs hok with hf | ⟨-, hne⟩
    · exact h.of_jobs ha (hf.imp fun _ _ hj => hj.keeps)
    · omega
  · exact h.retried t

/-- A new record, as `create_meeting` makes it. -/
theorem ok_new {metadata : MeetingMetadata} {t : Time} {kind : PublicSourceKind} {hours : Nat} {audio : Bytes}
    {extension : Option AudioExtension} (hm : metadata.valid Lib.validTimezone = true) :
    (MeetingRecord.new (Meeting.new metadata t kind hours) audio extension).ok = true := by
  refine ok_iff.2 ⟨meeting_valid_iff.2 ⟨hm, Nat.le_refl _, ?_, rfl, rfl⟩, nofun, ?_, ?_⟩
  · cases kind <;> rfl
  · simp [MeetingRecord.attempts, MeetingRecord.new]
  · simp [MeetingRecord.attempts, MeetingRecord.new, JobRecord.new, Meeting.new]

/-- Whatever record is put in place comes from one that is, or is a new meeting's. -/
theorem Legal.record_gapFree (h : Legal v e) (hi : Inv v) (hall : ∀ r ∈ records v.log, r.GapFree ∧ r.ok = true)
    (he : e.record = some r') : r'.GapFree ∧ r'.ok = true := by
  have hread : ∀ {r}, v.run readRecord = .ok r → r.GapFree ∧ r.ok = true := fun hr =>
    hall _ (mem_records_of_written (hi.written hr))
  cases h with
  | moved r r₁ hr hok hm =>
    cases he
    exact ⟨hm.gapFree (readable_ok hr) (hread hr).1, hok⟩
  | born metadata t kind hours audio extension hm =>
    cases he
    exact ⟨gapFree_first rfl rfl, ok_new hm⟩
  | archived r n x hr hs hx hn hname =>
    obtain rfl | hname := hname
    · obtain ⟨r₁, rfl, hr₁⟩ := hi.readable hx
      cases he
      exact hread hr₁
    · simp only [originals, List.mem_cons, List.not_mem_nil, or_false] at hname
      rcases hname with rfl | rfl | rfl | rfl <;> cases he
  | artifact r b n x hp hs hx => rcases artifact_name hx with rfl | rfl | rfl <;> cases he
  | _ => cases he

/-! ## Reads -/

/-- A reply of the disk is what the marker holds. -/
theorem recalls_act {w : World} {o : Op} {ch : Choice} (h : ∀ r, w.view.run readRecord = .ok r → r.GapFree) :
    Recalls o (w.act o ch).1 := by
  unfold Recalls
  split
  swap
  · trivial
  next entry x heq =>
  intro hentry r hx ho hid
  subst hentry
  refine h r (readRecord_ok.2 ⟨?_, (asRecord_eq_some.1 hx).2, ho, hid⟩)
  obtain ⟨rfl, -⟩ := asRecord_eq_some.1 hx
  rw [look_view]
  have hact : (w.disk.act (.read (Path.entry (.folder, .meeting))) ch.fault).1 = .ok (.record r) := heq
  cases hf : ch.fault with
  | some f =>
    rw [hf] at hact
    cases hact
  | none =>
    rw [hf] at hact
    simp only [Disk.act, Disk.step] at hact
    cases hl : w.disk.lookup (Path.entry (.folder, .meeting)) with
    | none => rw [hl] at hact; cases hact
    | some i =>
      rw [hl] at hact
      exact congrArg some (Except.ok.inj hact)

/-! ## Runs -/

/-- What the induction carries. -/
structure Historic (c : Config) : Prop where
  records : ∀ r ∈ records c.world.log, r.GapFree ∧ r.ok = true
  finished : ∀ e, .finished (some e) ∈ c.world.log → e.intact = true
  prog : ∀ p, c.prog = some p → Whole p

theorem Historic.readable (h : Historic c) (hi : Inv c.world.view) (hr : c.world.view.run readRecord = .ok r) :
    r ∈ Tirke.records c.world.log ∧ r.GapFree :=
  have hmem := mem_records_of_written (hi.written hr)
  ⟨hmem, (h.records r hmem).1⟩

theorem Initial.historic (h : Initial c) : Historic c := by
  cases h with
  | created w metadata chunks kind extension hours hb ha =>
    have hlog : w.log = [] := hb.log
    refine ⟨?_, ?_, fun p hp => ?_⟩
    · rw [show Config.world _ = w from rfl, hlog]
      simp [Tirke.records]
    · rw [show Config.world _ = w from rfl, hlog]
      simp
    · have hcreate : Whole (createMeeting metadata chunks kind extension hours) := whole_createMeeting
      cases hp
      exact hcreate.discard
  | legacy w r audio hl ht =>
    obtain ⟨answers, hlog⟩ := hl.log
    obtain ⟨metadata, t, kind, hours, extension, hm, hrec⟩ := hl.isNew
    have hlog' : w.log = legacyLog r audio answers := hlog
    refine ⟨fun r' hr' => ?_, fun e he => ?_, nofun⟩
    · have hr : r' = r := by
        rw [show Config.world _ = w from rfl, hlog', records_legacy] at hr'
        exact List.mem_singleton.1 hr'
      have hfile : w.view.files .meeting = some (.record r) := congrFun hl.files.1 (.folder, .meeting)
      have hlive : w.view.inPlay := inPlay_of_live (live_of_reach hl.rooted.now (by simp [Dir.chain]))
      obtain ⟨k, h', -, hk, hok, -⟩ := (Inv.legacy hl).genuine.now hlive _ hfile
      cases hk
      rw [hr, hrec]
      exact ⟨gapFree_first rfl rfl, hrec ▸ hok⟩
    · rw [show Config.world _ = w from rfl, hlog'] at he
      simp [legacyLog] at he

/-- One step of a run keeps what the induction carries. -/
theorem Historic.step (h : Historic c) (hg : Good rot c) (hs : Step rot c c') : Historic c' := by
  have hi := hg.life.inv
  have hrecords : ∀ r ∈ Tirke.records c'.world.log, r.GapFree ∧ r.ok = true := by
    rcases hs.happens hg with he | hh
    · rw [show c'.world.log = c.world.log from congrArg View.log he]
      exact h.records
    generalize hv : c'.world.view = v₂ at hh
    have hlog : c'.world.log = v₂.log := congrArg View.log hv
    rw [hlog]
    cases hh with
    | lawful e hl =>
      rw [after_log]
      intro r hr
      cases hm : e.record with
      | none =>
        rw [Tirke.records, List.filterMap_cons_none hm] at hr
        exact h.records r hr
      | some r' =>
        rw [Tirke.records, List.filterMap_cons_some hm] at hr
        rcases List.mem_cons.1 hr with rfl | hr
        · exact hl.record_gapFree hi h.records hm
        · exact h.records r hr
    | bounds e he =>
      have hm : e.record = none := by
        cases e with
        | file _ => exact he.elim
        | _ => rfl
      intro r hr
      refine h.records r ?_
      rwa [show (View.note c.world.view e).log = e :: c.world.log from rfl, Tirke.records, List.filterMap_cons_none hm] at hr
    | power => exact h.records
    | damaged n d => exact h.records
  refine ⟨hrecords, ?_, ?_⟩
  · intro e he
    cases hs with
    | op w o k ch =>
      have hlog : (w.act o ch).2.log = w.log ∨ ∃ e', Legal w.view e' ∧ (w.act o ch).2.log = e' :: w.log := by
        rcases (guarded_act hg.fit (hg.obeys _ rfl).1 ch).2 with hv | ⟨e', hl, hv⟩
        · exact .inl (congrArg View.log hv)
        · exact .inr ⟨e', hl, (congrArg View.log hv).trans after_log⟩
      rcases hlog with hlog | ⟨e', hl, hlog⟩
      · exact h.finished e (hlog ▸ he)
      · rw [show Config.world _ = (w.act o ch).2 from rfl, hlog] at he
        rcases List.mem_cons.1 he with rfl | he
        · cases hl
        · exact h.finished e he
    | raised w x =>
      rcases List.mem_cons.1 he with hx | he
      · cases hx
        exact h.prog _ rfl
      · exact h.finished e he
    | waited w t busy => exact h.finished e he
    | start | returned | killed | power | damaged =>
      rcases List.mem_cons.1 he with hx | he
      · cases hx
      · exact h.finished e he
  · intro p hp
    cases hs with
    | start w a ha =>
      cases hp
      exact whole_action a
    | op w o k ch =>
      cases hp
      exact h.prog _ rfl _ (recalls_act fun r hr => (h.readable hi hr).2)
    | returned | raised | killed | power | waited | damaged => cases hp

theorem Reach.historic (h : Reach (Step rot) c) : Historic c := by
  obtain ⟨c₀, h₀, hs⟩ := h
  induction hs with
  | refl => exact h₀.historic
  | tail hs hstep ih => exact ih.step (reach_good (fun _ _ h => h) ⟨c₀, h₀, hs⟩) hstep

/-- **The job history is gap-free.** In every run, every record put in place has one job for each attempt up to its
own, in order, a job with a result has an identity, and validating the record again accepts it; the record that shows
is one of these, so it has a current job. Every reply of the disk is such a record, and on such replies neither
`process_once` nor what it calls, nor any other use, raises `StopIteration` or the `ValidationError` of the history,
so no use of the meeting ends with one. -/
theorem job_history_gap_free (h : Reach (Step rot) c) :
    (∀ r ∈ records c.world.log, r.jobs.map (·.attempt) = List.range' 1 r.meeting.attempt ∧
      (∀ j ∈ r.jobs, j.resultHash ≠ none → j.jobId ≠ none) ∧ (Doc.record r).asRecord = some r) ∧
    (∀ r, c.world.view.run readRecord = .ok r → r ∈ records c.world.log ∧ ∃ job, r.job = some job) ∧
    (∀ o k ch, c.prog = some (.op o k) → Recalls o (c.world.act o ch).1) ∧
    (∀ e, .finished (some e) ∈ c.world.log → e ≠ .runtimeError ∧ e ≠ .jobHistory) ∧
    (∀ r : MeetingRecord, r.GapFree → ReturnsHeld (fun _ => True) (advance r) ∧ Whole (cleanup r) ∧ Whole (updateMeeting r)) ∧
    Whole processOnce ∧ ∀ a : Action, Whole a.program := by
  have hh := h.historic
  refine ⟨fun r hr => ?_, fun r hr => ?_, fun o k ch _ => ?_, fun e he => ?_, fun r hr => ?_, whole_processOnce, whole_action⟩
  · obtain ⟨hgap, hok⟩ := hh.records r hr
    exact ⟨hgap.attempts, hgap.bound, asRecord_eq_some.2 ⟨rfl, hok⟩⟩
  · obtain ⟨hmem, hgap⟩ := hh.readable h.inv hr
    exact ⟨hmem, hgap.job⟩
  · exact recalls_act fun r hr => (hh.readable h.inv hr).2
  · have hi := hh.finished e he
    constructor
    · rintro rfl
      cases hi
    · rintro rfl
      cases hi
  · exact ⟨whole_advance hr, whole_cleanup hr, whole_updateMeeting hr⟩

end

attribute [local instance] Sample.lib Sample.home

namespace Sample

/-- The first attempt has failed, the second one is done. -/
def retried : Config := failed.cues [.start .retry, .play never fun _ _ => .calm, .finish,
  .start .processOnce, .play never (answering (remaking failedJob)), .finish]

theorem reach_retried : Reach (Step False) retried := reach_failed.cues (.inr rfl)

theorem read_retried : retried.world.view.run readRecord = .ok (recordOf retried) ∧
    (recordOf retried).meeting.attempt = 2 ∧ (recordOf retried).jobs.map (·.jobId) = [some 9, some 11] := by decide +kernel

end Sample

theorem job_history_gap_free_retried : (Sample.recordOf Sample.retried).jobs.map (·.attempt) = [1, 2] ∧
    ∃ job, (Sample.recordOf Sample.retried).job = some job := by
  obtain ⟨hr, hatt, -⟩ := Sample.read_retried
  obtain ⟨hrecords, hshown, -⟩ := job_history_gap_free Sample.reach_retried
  obtain ⟨hmem, hjob⟩ := hshown _ hr
  refine ⟨?_, hjob⟩
  rw [(hrecords _ hmem).1, hatt]
  rfl

end Tirke
