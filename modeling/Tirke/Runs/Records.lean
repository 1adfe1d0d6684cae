import Tirke.Runs.Ground
import Tirke.Spec.Publishing
/-!
# How the record evolves

`Move.jobs` says job by job what a move does, and `Evolves` is what any number of moves keep. `Genuine` is the
invariant that both copies of the marker are records of this meeting, each the last of a history of moves.
-/

set_option linter.unusedSectionVars false

namespace Tirke

open CrashProg CrashDisk

variable [Lib] [Home] [Weather] {v v' : View} {r r' : MeetingRecord} {j j' : JobRecord} {rot : Prop}

/-! ## Jobs -/

/-- How a move from `r` to `r'` leaves one job. -/
inductive JobMoved (v : View) (r r' : MeetingRecord) (j : JobRecord) : JobRecord → Prop where
  | kept : JobMoved v r r' j j
  | reconciled (id : UUID) (remote : JobV1) (hid : j.jobId = some id) (ht : told v.log (.getJob id) remote)
      (hr : remote.jobId = id) : JobMoved v r r' j (j.reconciled remote)
  | flagged (hj : r.job = some j) (hid : j.jobId = none) : JobMoved v r r' j { j with submitStarted := some true }
  | polled (remote : JobV1) (hj : r.job = some j) (hh : Heard v.log r j remote) : JobMoved v r r' j (j.polled remote)
  | published (b : ResultBundleV1) (hj : r.job = some j) (hid : j.jobId = some b.jobId)
      (hm : v.look (.folder, .manifest) = none) : JobMoved v r r' j (j.published b)
  | acked (id : UUID) (resultHash : Sha256) (receipt : AckV1) (hj : r.job = some j) (hid : j.jobId = some id)
      (hh : j.resultHash = some resultHash) (ha : acknowledged v.log id resultHash receipt) :
      JobMoved v r r' j (j.acked receipt)
  | expired (hl : r'.localCleanupStatus ≠ .pending) : JobMoved v r r' j j.expired

theorem JobMoved.attempt (h : JobMoved v r r' j j') : j'.attempt = j.attempt := by
  cases h with
  | expired _ => unfold JobRecord.expired; split <;> rfl
  | _ => rfl

/-- An identity, once known, stays. -/
theorem JobMoved.jobId {id : UUID} (h : JobMoved v r r' j j') (hid : j.jobId = some id) : j'.jobId = some id := by
  cases h with
  | kept | reconciled _ _ _ _ _ | flagged _ _ | acked _ _ _ _ _ _ _ => exact hid
  | polled remote hj hh =>
    cases hh with
    | polled hid' _ => exact hid'.symm.trans hid
    | looked hn _ | submitted hn _ _ _ _ => rw [hid] at hn; cases hn
  | published b hj hid' _ => exact hid'.symm.trans hid
  | expired _ => unfold JobRecord.expired; split <;> exact hid

/-- Attempts are unique, so the record's current job is the one with its attempt. -/
theorem job_unique (h : r.ok = true) {job : JobRecord} (hj : r.job = some job) (hm : j ∈ r.jobs)
    (ha : j.attempt = r.meeting.attempt) : j = job := by
  have hnd : (r.jobs.map (·.attempt)).Nodup := (ok_iff.1 h).2.2.1
  exact List.inj_on_of_nodup_map hnd hm (job_mem hj) (ha.trans (job_attempt hj).symm)

theorem forall₂_map {α : Type} {R : α → α → Prop} {f : α → α} {l : List α} (h : ∀ a ∈ l, R a (f a)) :
    List.Forall₂ R l (l.map f) :=
  List.forall₂_map_right_iff.2 (List.forall₂_same.2 h)

theorem forall₂_setJob (h : r.ok = true) {job : JobRecord} (hj : r.job = some job) {f : JobRecord → JobRecord}
    {R : JobRecord → JobRecord → Prop} (hk : ∀ j, R j j) (hf : R job (f job)) : List.Forall₂ R r.jobs (r.setJob f).jobs := by
  refine forall₂_map fun j hm => ?_
  split
  · next ha => rw [job_unique h hj hm ha]; exact hf
  · exact hk j

/-- **A move, job by job**: a retry adds one, everything else works on those there are. -/
theorem Move.jobs (m : Move v r r') (h : r.ok = true) : List.Forall₂ (JobMoved v r r') r.jobs r'.jobs ∨
    (r'.jobs = r.jobs ++ [.new (r.meeting.attempt + 1) (some false)] ∧
      r'.meeting.attempt = r.meeting.attempt + 1) := by
  have hkept : List.Forall₂ (JobMoved v r r') r.jobs r.jobs := List.forall₂_same.2 fun _ _ => .kept
  have hset : ∀ {job : JobRecord} {f : JobRecord → JobRecord}, r.job = some job → JobMoved v r r' job (f job) →
      List.Forall₂ (JobMoved v r r') r.jobs (r.setJob f).jobs := fun hj hf => forall₂_setJob h hj (fun _ => .kept) hf
  cases m with
  | reconciled jobs t hf =>
    refine .inl (hf.imp fun j j' hj => ?_)
    cases hj with
    | kept => exact .kept
    | confirmed id remote hid _ ht hr _ => exact .reconciled id remote hid ht hr
  | flagged job t hs hj hid => exact .inl (hset hj (.flagged hj hid))
  | progressed job remote t hs hj hh => exact .inl (hset hj (.polled remote hj hh))
  | polledFailed job remote code t hs hj hh => exact .inl (hset hj (.polled remote hj hh))
  | published job b t hb hs hst hj hid hm =>
    rw [published_eq hj] at hset hkept ⊢
    exact .inl (hset hj (.published b hj hid hm))
  | acked job id resultHash receipt t hs hj hid hh ha => exact .inl (hset hj (.acked id resultHash receipt hj hid hh ha))
  | expired t => exact .inl (forall₂_map fun j _ => .expired nofun)
  | retried t => exact .inr ⟨rfl, rfl⟩
  | begun | failed | localDeleted | localKept | settled | deferred | reviewed | approved | exporting | exported =>
    exact .inl hkept

/-- The record's current job is moved to the current job. -/
theorem job_moved (hf : List.Forall₂ (JobMoved v r r') r.jobs r'.jobs) (ha : r'.meeting.attempt = r.meeting.attempt)
    {job : JobRecord} (hj : r.job = some job) : ∃ job', r'.job = some job' ∧ JobMoved v r r' job job' := by
  have hfind : ∀ {n : Nat} {js js' : List JobRecord}, List.Forall₂ (JobMoved v r r') js js' →
      js.find? (fun j => decide (j.attempt = n)) = some job →
      ∃ job', js'.find? (fun j => decide (j.attempt = n)) = some job' ∧ JobMoved v r r' job job' := by
    intro n js js' hf
    induction hf with
    | nil => exact nofun
    | @cons j j' js js' h _ ih =>
      simp only [List.find?_cons, h.attempt]
      split
      · intro hj
        cases hj
        exact ⟨j', rfl, h⟩
      · exact ih
  unfold MeetingRecord.job at hj ⊢
  rw [ha]
  exact hfind hf hj

/-- Only a retry begins another attempt, and it leaves nothing of the old one in the folder. -/
theorem Move.attempt_or (m : Move v r r') : r'.meeting.attempt = r.meeting.attempt ∨
    ∃ t, r' = r.retried t ∧ r.meeting.status = .failed ∧ ∀ n ∈ originals, v.look (.folder, n) = none := by
  cases m with
  | published job b t hb hs hst hj => rw [published_eq hj]; exact .inl rfl
  | retried t hs _ _ hn => exact .inr ⟨t, rfl, hs, hn⟩
  | _ => exact .inl rfl

/-! ## Evolution -/

/-- What any later record keeps of an earlier one. -/
structure Evolves (r r' : MeetingRecord) : Prop where
  identity : r'.identity = r.identity
  attempt : r.meeting.attempt ≤ r'.meeting.attempt
  jobs : ∀ j ∈ r.jobs, ∃ j' ∈ r'.jobs, j'.attempt = j.attempt ∧ ∀ id, j.jobId = some id → j'.jobId = some id
  failed : r'.meeting.attempt = r.meeting.attempt → r.meeting.status = .failed → r'.meeting.status = .failed
  cleaned : r.localCleanupStatus ≠ .pending → r'.localCleanupStatus ≠ .pending

theorem Evolves.refl (r : MeetingRecord) : Evolves r r :=
  ⟨rfl, Nat.le_refl _, fun j hj => ⟨j, hj, rfl, fun _ h => h⟩, fun _ h => h, fun h => h⟩

theorem Evolves.trans {r₁ r₂ r₃ : MeetingRecord} (h : Evolves r₁ r₂) (h' : Evolves r₂ r₃) : Evolves r₁ r₃ := by
  refine ⟨h'.identity.trans h.identity, Nat.le_trans h.attempt h'.attempt, fun j hj => ?_, fun ha hf => ?_,
    fun hl => h'.cleaned (h.cleaned hl)⟩
  · obtain ⟨j₂, hj₂, ha₂, hid₂⟩ := h.jobs j hj
    obtain ⟨j₃, hj₃, ha₃, hid₃⟩ := h'.jobs j₂ hj₂
    exact ⟨j₃, hj₃, ha₃.trans ha₂, fun id hid => hid₃ id (hid₂ id hid)⟩
  · have h₁ := h.attempt
    have h₂ := h'.attempt
    exact h'.failed (by omega) (h.failed (by omega) hf)

theorem Move.failed_stays (m : Move v r r') (ha : r'.meeting.attempt = r.meeting.attempt)
    (hs : r.meeting.status = .failed) : r'.meeting.status = .failed := by
  cases m with
  | retried t => exact absurd ha (Nat.succ_ne_self _)
  | polledFailed | failed => rfl
  | begun _ _ h | progressed _ _ _ h => exact absurd hs h
  | published job b t hb hsv hst => rw [hs] at hst; cases hst
  | reviewed q o i res t hq hp => rw [hs] at hp; cases hp
  | approved q _ _ t hq h | exporting _ h _ => rw [hs] at h; cases h
  | _ => exact hs

theorem Move.cleaned_stays (m : Move v r r') (hl : r.localCleanupStatus ≠ .pending) :
    r'.localCleanupStatus ≠ .pending := by
  cases m with
  | published job b t hb hsv hst hj => rw [published_eq hj]; exact hl
  | localDeleted | expired => exact nofun
  | _ => exact hl

theorem Move.evolves (m : Move v r r') (h : r.ok = true) : Evolves r r' := by
  refine ⟨m.identity, ?_, fun j hj => ?_, m.failed_stays, m.cleaned_stays⟩
  · rcases m.attempt with ha | ⟨-, -, ha⟩ <;> omega
  · rcases m.jobs h with hf | ⟨hf, -⟩
    · obtain ⟨i, hi, rfl⟩ := List.getElem_of_mem hj
      have hi' : i < r'.jobs.length := hf.length_eq ▸ hi
      have hmv : JobMoved v r r' r.jobs[i] r'.jobs[i] := hf.get hi hi'
      exact ⟨_, List.getElem_mem hi', hmv.attempt, fun id hid => hmv.jobId hid⟩
    · exact ⟨j, by rw [hf]; exact List.mem_append_left _ hj, rfl, fun _ h => h⟩

/-! ## The marker is genuine -/

/-- The newest record of a history is what the marker holds, and every record evolved from the one before. -/
def Genuine : Property := fun _ h f => ∀ d, f .meeting = some d → ∃ c h', h = c :: h' ∧ d = .record c.record ∧
  c.record.ok = true ∧ c.record.ownerId = Home.ownerId ∧ c.record.meeting.id = Home.meetingId ∧
  h.IsChain fun c c' => Evolves c'.record c.record

theorem Genuine.marked {c : Commit} {h : History} {f : Name → Option Doc} (hok : c.record.ok = true)
    (ho : c.record.ownerId = Home.ownerId) (hid : c.record.meeting.id = Home.meetingId)
    (hc : (c :: h).IsChain fun c c' => Evolves c'.record c.record) :
    Genuine v (c :: h) (Function.update f .meeting (some (.record c.record))) := by
  intro d hd
  rw [Function.update_self] at hd
  cases hd
  exact ⟨c, h, rfl, rfl, hok, ho, hid, hc⟩

theorem Genuine.update {h : History} {f : Name → Option Doc} {n : Name} {x : Option Doc} (hn : n ≠ .meeting)
    (hp : Genuine v h f) : Genuine v' h (Function.update f n x) := by
  intro d hd
  rw [Function.update_of_ne hn.symm] at hd
  exact hp d hd

theorem look_of_inPlay {x : Doc} (h : v.look (.folder, .meeting) = some x) : v.files .meeting = some x := vol_of_look h

theorem inPlay_of_readable (hr : v.run readRecord = .ok r) : v.inPlay :=
  inPlay_of_live (live_of_reach (readable_reach hr) (by simp [Dir.chain]))

theorem files_of_readable (hr : v.run readRecord = .ok r) : v.files .meeting = some (.record r) :=
  vol_of_look (readable_look hr)

/-- The record that is read is the newest of the history. -/
theorem Holds.head (h : Holds Genuine v) (hr : v.run readRecord = .ok r) : ∃ c h', v.hist = c :: h' ∧ c.record = r := by
  obtain ⟨c, h', hh, hd, -⟩ := h.now (inPlay_of_readable hr) _ (files_of_readable hr)
  cases hd
  exact ⟨c, h', hh, rfl⟩

theorem stable_genuine : Stable (fun _ => True) Genuine where
  absent h0 d hd := by rw [h0] at hd; cases hd
  frozen _ _ _ hp := hp
  bounds _ _ hp := hp
  power _ hp := hp
  damaged _ hn hp := hp.update (by rintro rfl; simp [resultNames] at hn)
  put _ _ hn _ hp := hp.update hn
  removed _ _ hn _ hp := hp.update hn
  moved {v r r'} _ hr hok hm ha hp := by
    obtain ⟨hl, hrok, ho, hid⟩ := readRecord_ok.1 hr
    have hi := hm.identity
    obtain ⟨c, h', hh, hd, -, -, -, hc⟩ := hp _ (look_of_inPlay hl)
    cases hd
    refine Genuine.marked hok ((congrArg Identity.ownerId hi).trans ho) ((congrArg Identity.id hi).trans hid) ?_
    rw [hh] at hc ⊢
    exact .cons_cons (hm.evolves hrok) hc
  born {v r} _ hl hr hv := by
    cases hl with
    | moved r r' hrd _ _ ha => exact absurd hr ha
    | born metadata t kind hours audio extension hm =>
      refine Genuine.marked ?_ rfl rfl (.singleton _)
      refine ok_iff.2 ⟨meeting_valid_iff.2 ⟨hm, Nat.le_refl _, ?_, rfl, rfl⟩, (by rintro ⟨⟩), ?_, ?_⟩
      · cases kind <;> rfl
      · simp [MeetingRecord.attempts, MeetingRecord.new]
      · simp [MeetingRecord.attempts, MeetingRecord.new, JobRecord.new, Meeting.new]
    | artifact r b n x hp hst hx hn => simp [ResultBundleV1.artifacts] at hx

end Tirke
