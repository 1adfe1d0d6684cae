import Tirke.Obeys.Processing
import Tirke.Services.CoordinatorRuntime
/-!
# A coordinator step obeys the law

`Due v` is the condition of `tick` for a meeting, evaluated on a view. A visit never raises, and it calls
`process_once` whenever the meeting is due, its lock is free and no system call fails (`does_visit`).
-/

namespace Tirke

open CrashProg CrashDisk

variable [Lib] [Home] [Weather] {A : Env host} [Forecast A] {v v' : View} {r : MeetingRecord}

/-- A job the GPU knows and whose copy is not confirmed removed. -/
def MeetingRecord.unconfirmed (r : MeetingRecord) : Bool :=
  r.jobs.any fun j => j.jobId.isSome && j.cleanupStatus = .pending

/-- `read_meeting` shows a meeting that `tick` calls `process_once` for. -/
def Due (v : View) : Prop := ∃ r m, v.run readRecord = .ok r ∧ v.run (showStatus r.meeting) = .ok m ∧
  m.due (decide (m.status = .failed) && r.unconfirmed) = true

omit [Forecast A] in
theorem does_pendingFailedJob {m : Meeting} (hr : v.run readRecord = .ok r) :
    Does A Legal (pendingFailedJob m) v fun out v' => v' = v ∧
      (out = .ok (decide (m.status = .failed) && r.unconfirmed) ∨ MayFail A) := by
  unfold pendingFailedJob
  split
  · next hs =>
    refine Does.readThen readOnly_readRecord (fun r₁ h => ?_) (fun e h => ?_) fun hf => ⟨rfl, .inr hf⟩
    · rw [hr] at h
      cases h
      exact .ret ⟨rfl, .inl (by simp only [hs, decide_true, Bool.true_and]; rfl)⟩
    · rw [hr] at h
      cases h
  · next hs => exact .ret ⟨rfl, .inl (by simp only [hs, decide_false, Bool.false_and])⟩

/-- What a visit did: the step, unless the meeting is not due or something kept the visitor away. -/
def Visited (A : Env host) (v : View) (called : Bool) : Prop := Due v → called = true ∨ MayFail A ∨ MayBlock A

theorem does_meetingStep (h : ∀ r, v.run readRecord = .ok r → Ready v r) :
    Does A Legal meetingStep v fun out _ => match out with
      | .ok o => Visited A v o.isSome
      | .error _ => Visited A v false := by
  have hfault : MayFail A → Visited A v false := fun hf _ => .inr (.inl hf)
  refine does_lifecycleLock (fun r b hr hb => ?_) (fun e he => ?_) hfault
  swap
  · rintro ⟨r, m, hr, -⟩
    rw [he] at hr
    cases hr
  cases b with
  | false => exact .ret fun _ => .inr (.inr (hb.resolve_left nofun).2)
  | true =>
  refine Does.bind does_readMeeting ?_ ?_
  swap
  · rintro e v ⟨rfl, hs⟩ ⟨r₁, m, hr₁, hm, -⟩
    cases hs with
    | unreadable _ h => rw [hr₁] at h; cases h
    | unshown r₂ _ h h' =>
      rw [hr₁] at h
      cases h
      rw [hm] at h'
      cases h'
    | failed hf => exact .inr (.inl hf)
  rintro shown v ⟨rfl, hs⟩
  cases hs with
  | shown r₁ m b hr₁ hm hb =>
  rw [hr] at hr₁
  cases hr₁
  refine Does.bind (does_pendingFailedJob hr) ?_ ?_
  swap
  · rintro e v ⟨rfl, h | hf⟩
    · cases h
    · exact hfault hf
  rintro p v ⟨rfl, hp⟩
  split
  · refine Does.bind (Does.attempt (Q := fun out _ => ∃ o, out = .ok o)
      ((does_processOnce h).mono fun out _ _ => ⟨out, rfl⟩)) (fun out v' _ => ?_) fun e _ ho => ?_
    · exact .ret fun _ => .inl rfl
    · obtain ⟨o, ho⟩ := ho
      cases ho
  · next hno =>
    refine .ret ?_
    rintro ⟨r₁, m₁, hr₁, hm₁, hdue⟩
    rw [hr] at hr₁
    cases hr₁
    rw [hm] at hm₁
    cases hm₁
    rcases hp with hp | hf
    · cases hp
      exact absurd hdue hno
    · exact .inr (.inl hf)

/-- **A visit obeys the law.** -/
theorem does_visit (h : ∀ r, v.run readRecord = .ok r → Ready v r) :
    Does A Legal visit v fun out _ => ∃ o : Option (Except Exn Meeting), out = .ok o ∧ Visited A v o.isSome := by
  refine Does.handle (does_meetingStep h) (fun o _ ho => ⟨o, rfl, ho⟩) fun e _ he => ?_
  exact .ret ⟨none, rfl, he⟩

end Tirke
