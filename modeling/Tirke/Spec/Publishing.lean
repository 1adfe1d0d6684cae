import Tirke.Spec.Updating
import Tirke.Spec.Frame
/-!
# `publish_results` on a view

The first publication (`does_publishFirst`) writes the three artifacts, the marker, and the manifest last.
It ends with everything durable (`Published`), or with an `OSError`, or because an original with another
content is in the way (`Conflict`), before the marker is touched. A visible manifest is only made durable
(`does_republish`).
-/

set_option linter.unusedSectionVars false

namespace Tirke

open CrashProg CrashDisk

variable [Lib] [Home] [Weather] {A : Env host} {v v' : View} {r : MeetingRecord} {b : ResultBundleV1}

/-! ## Jobs -/

theorem job_setJob {f : JobRecord → JobRecord} (hf : ∀ j, (f j).attempt = j.attempt) :
    (r.setJob f).job = r.job.map f := by
  show (r.jobs.map fun j => if j.attempt = r.meeting.attempt then f j else j).find?
      (fun j => decide (j.attempt = r.meeting.attempt)) =
    (r.jobs.find? fun j => decide (j.attempt = r.meeting.attempt)).map f
  rw [List.find?_map]
  have hp : ((fun j : JobRecord => decide (j.attempt = r.meeting.attempt)) ∘
      fun j => if j.attempt = r.meeting.attempt then f j else j) =
      fun j => decide (j.attempt = r.meeting.attempt) := by
    funext j
    simp only [Function.comp]
    split
    · next h => simp [hf, h]
    · rfl
  rw [hp]
  cases hj : r.jobs.find? fun j => decide (j.attempt = r.meeting.attempt) with
  | none => rfl
  | some j =>
    have := List.find?_some hj
    simp only [decide_eq_true_eq] at this
    simp [this]

theorem job_attempt {j : JobRecord} (h : r.job = some j) : j.attempt = r.meeting.attempt := by
  have := List.find?_some h
  simpa using this

theorem job_mem {j : JobRecord} (h : r.job = some j) : j ∈ r.jobs := List.mem_of_find?_eq_some h

theorem job_published {j : JobRecord} {t : Time} (h : r.job = some j) :
    (r.published b t).job = some (j.published b) := by
  rw [published_eq h, job_setJob (f := JobRecord.published b) fun _ => rfl]
  exact congrArg (Option.map (JobRecord.published b)) h

/-! ## The artifacts -/

/-- The names of a list of artifacts. -/
def named (xs : List (Name × Doc)) (q : Path) : Prop := ∃ p ∈ xs, q = (.folder, p.1)

theorem named_artifacts {q : Path} (h : named b.artifacts q) :
    q = (.folder, .transcript) ∨ q = (.folder, .insights) ∨ q = (.folder, .text) := by
  obtain ⟨p, hp, rfl⟩ := h
  simp only [ResultBundleV1.artifacts, List.mem_cons, List.not_mem_nil, or_false] at hp
  rcases hp with rfl | rfl | rfl <;> simp

theorem Publishing.frame {S : Path → Prop} (h : Publishing v r b) (hf : Frame S v v') (hm : ¬ S marker)
    (hman : ¬ S (.folder, .manifest)) : Publishing v' r b := by
  obtain ⟨a, ha, hb⟩ := h.served
  refine ⟨?_, h.valid, h.meeting, ⟨a, hf.log.mem ha, hb⟩, h.job, by rw [hf.look hman]; exact h.unpublished⟩
  rw [hf.run readOnly_readRecord fun q hq => hq ▸ hm]
  exact h.readable

/-- The law lets these artifacts be written behind `v`. -/
structure Writable (L : Law) (v : View) (xs : List (Name × Doc)) : Prop where
  put : ∀ v' n x, Frame (named xs) v v' → (n, x) ∈ xs → v'.look (.folder, n) = none → L v' (.file (.put (.folder, n) x))
  sync : ∀ v', v'.reach .folder = true → L v' (.file (.synced .folder))

theorem Writable.tail {L : Law} {v₁ : View} {p : Name × Doc} {xs : List (Name × Doc)} (h : Writable L v (p :: xs))
    (hf : Frame (named (p :: xs)) v v₁) : Writable L v₁ xs := by
  refine ⟨fun v' n x hf' hx hn => ?_, h.sync⟩
  have hsub : ∀ q, named xs q → named (p :: xs) q := fun q ⟨p', hp', he⟩ => ⟨p', List.mem_cons_of_mem _ hp', he⟩
  exact h.put v' n x (hf.trans (hf'.mono hsub)) (List.mem_cons_of_mem _ hx) hn

theorem does_writeArtifacts {L : Law} {xs : List (Name × Doc)} (hx : ∀ p ∈ xs, p ∈ b.artifacts)
    (hnd : (xs.map Prod.fst).Nodup) (hr : v.run readRecord = .ok r) (hlaw : Writable L v xs) :
    Does A L (writeArtifacts xs) v fun out v' => Frame (named xs) v v' ∧ match out with
      | .ok () => (∀ n x, (n, x) ∈ xs → v'.look (.folder, n) = some x ∧ v'.img.dur (.folder, n) = some x) ∧
          (v'.justSynced ∨ xs = [] ∧ v' = v)
      | .error e => (e = .osError ∧ MayFail A) ∨
          (e = .integrity "Original artifact already exists" ∧ Conflict v xs ∧ Conflict v' xs) := by
  induction xs generalizing v with
  | nil => exact .ret ⟨.refl v, by simp⟩
  | cons p xs ih =>
    obtain ⟨n, x⟩ := p
    rw [List.map_cons, List.nodup_cons] at hnd
    have hreach := readable_reach hr
    have hself : named ((n, x) :: xs) (.folder, n) := ⟨_, List.mem_cons_self, rfl⟩
    have hnot : ∀ q, q = (.folder, n) → ¬ named xs q := by
      rintro q rfl ⟨p', hp', he⟩
      cases he
      exact hnd.1 (List.mem_map.2 ⟨p', hp', rfl⟩)
    have hmarker : marker ≠ (.folder, n) := by
      rcases named_artifacts ⟨_, hx _ List.mem_cons_self, rfl⟩ with h | h | h <;> rw [h] <;> decide
    refine Does.bind (does_writeOriginal (readable_notVoid hr) hreach
      (fun hfree => hlaw.put v n x (.refl v) List.mem_cons_self hfree) (fun _ => hlaw.sync _ hreach)
      fun _ => hlaw.sync _ hreach) ?_ ?_
    · rintro ⟨⟩ v₁ hw
      have hf₁ : Frame (· = ((.folder, n) : Path)) v v₁ := hw.frame rfl
      have hf₁' : Frame (named ((n, x) :: xs)) v v₁ := hf₁.mono fun q hq => hq ▸ hself
      obtain ⟨hl₁, hd₁⟩ := hw.done hreach
      have hn₁ : v₁.justSynced := hw.justSynced
      refine Does.readThen (p := read (.folder, n)) (readOnly_read (S := fun _ => True) trivial)
        (fun stored hst => ?_) (fun e h => ?_) fun hf => ⟨hf₁', .inl ⟨rfl, hf⟩⟩
      swap
      · rw [run_read, hl₁] at h; cases h
      rw [run_read, hl₁] at hst
      cases hst
      simp only [demand, decide_true, if_true, Prog.bind_eq, Prog.ret_bind]
      have hr₁ : v₁.run readRecord = .ok r := by
        rw [hf₁.run readOnly_readRecord fun q hq => by rw [hq]; exact hmarker]
        exact hr
      refine (ih (fun p hp' => hx p (List.mem_cons_of_mem _ hp')) hnd.2 hr₁ (hlaw.tail hf₁')).mono ?_
      rintro out v₂ ⟨hf₂, hq⟩
      have hn : ¬ named xs (.folder, n) := hnot _ rfl
      have htail : ∀ q, named xs q → named ((n, x) :: xs) q := by
        rintro q ⟨p', hp', he⟩
        exact ⟨p', List.mem_cons_of_mem _ hp', he⟩
      refine ⟨hf₁'.trans (hf₂.mono htail), ?_⟩
      cases out with
      | ok u =>
        refine ⟨fun n' x' hn' => ?_, .inl (hq.2.elim id fun h => h.2 ▸ hn₁)⟩
        rcases List.mem_cons.1 hn' with h | h
        · cases h
          refine ⟨by rw [hf₂.look hn]; exact hl₁, ?_⟩
          rw [hf₂.durable hn (hd₁.trans (vol_of_look hl₁).symm), hf₂.vol _ hn, vol_of_look hl₁]
        · exact hq.1 n' x' h
      | error e =>
        refine Or.imp_right ?_ hq
        rintro ⟨he, ⟨n', x', y, hm, hy, hne⟩, n'', x'', y', hm', hy', hne'⟩
        refine ⟨he, ⟨n', x', y, List.mem_cons_of_mem _ hm, ?_, hne⟩, n'', x'', y', List.mem_cons_of_mem _ hm', hy', hne'⟩
        rw [← hy, hf₁.look]
        intro h
        cases h
        exact hnd.1 (List.mem_map.2 ⟨_, hm, rfl⟩)
    · rintro e v₁ hw
      have hf₁ : Frame (named ((n, x) :: xs)) v v₁ := hw.frame hself
      refine ⟨hf₁, ?_⟩
      cases hw with
      | new _ hw => cases hw with
        | nothing h | shown h | synced h => exact .inl ⟨rfl, h⟩
      | other hy hne =>
        have hc : Conflict v ((n, x) :: xs) := ⟨n, x, _, List.mem_cons_self, hy, hne⟩
        exact .inr ⟨rfl, hc, hc⟩
      | failed h => exact .inl ⟨rfl, h⟩

/-! ## The first publication -/

/-- Results, marker and manifest are in place and durable. -/
structure Published (v v' : View) (r' : MeetingRecord) (b : ResultBundleV1) : Prop where
  frame : Frame resultFiles v v'
  readable : v'.run readRecord = .ok r'
  artifacts : ∀ n x, (n, x) ∈ b.artifacts → v'.look (.folder, n) = some x
  manifest : v'.look (.folder, .manifest) = some (.manifest (b.manifest r'.meeting.attempt))
  durable : ∀ n, v'.img.dur (.folder, n) = v'.img.vol (.folder, n)

theorem manifest_bundle {n : Nat} : (b.manifest n).bundle b.transcript b.insights = b := rfl

theorem manifest_valid {n : Nat} (hb : b.valid = true) (hn : 1 ≤ n) : (b.manifest n).valid = true := by
  simp only [ResultBundleV1.valid, Bool.and_eq_true] at hb
  simp only [ReadyManifest.valid, ResultBundleV1.manifest, Bool.and_eq_true]
  exact ⟨decide_eq_true hn, hb.1.1.1.1.1.1.2⟩

/-- What is stored as a bundle's originals reads back as the bundle. -/
theorem committed_of {r' : MeetingRecord} (hr : v.run readRecord = .ok r') (hb : b.valid = true)
    (hid : b.transcript.meetingId = Home.meetingId)
    (ha : ∀ n x, (n, x) ∈ b.artifacts → v.look (.folder, n) = some x)
    (hm : v.look (.folder, .manifest) = some (.manifest (b.manifest r'.meeting.attempt))) :
    v.Committed (b.manifest r'.meeting.attempt) b.transcript b.insights := by
  have hatt : 1 ≤ r'.meeting.attempt := (meeting_valid_iff.1 (ok_iff.1 (readable_ok hr)).1).2.1
  have hman : v.run readManifest = .ok (b.manifest r'.meeting.attempt) :=
    readManifest_ok.2 ⟨r', hr, hm, manifest_valid hb hatt, rfl, rfl, rfl⟩
  exact ⟨hman, readResults_ok.2 ⟨_, _, hman, ha _ _ (by simp [ResultBundleV1.artifacts]),
    ha _ _ (by simp [ResultBundleV1.artifacts]), ha _ _ (by simp [ResultBundleV1.artifacts]), rfl, rfl, rfl,
    by rw [manifest_bundle]; exact hb, hid⟩⟩

/-- What the first publication may leave. -/
def PublishedFirst (A : Env host) (v : View) (r : MeetingRecord) (b : ResultBundleV1)
    (out : Except Exn ReadyManifest) (v' : View) : Prop :=
  match out with
  | .ok _ => ∃ t, Published v v' (r.published b t) b
  | .error e => (e = .osError ∧ MayFail A) ∨ (e = .integrity "Original artifact already exists" ∧
      Conflict v b.artifacts ∧ Conflict v' b.artifacts ∧ Frame (named b.artifacts) v v')

/-- A record may get a job for its attempt, if it has none. -/
theorem ok_withCurrentJob (h : r.ok = true) : r.withCurrentJob.ok = true := by
  unfold MeetingRecord.withCurrentJob
  split
  · exact h
  next hj =>
  obtain ⟨hm, -, hnd, hle⟩ := ok_iff.1 h
  have hpos : 1 ≤ r.meeting.attempt := (meeting_valid_iff.1 hm).2.1
  have hattempts : ({ r with jobs := r.jobs ++ [.new r.meeting.attempt none] } : MeetingRecord).attempts =
      r.attempts ++ [r.meeting.attempt] := by
    simp [MeetingRecord.attempts, JobRecord.new]
  have hfresh : r.meeting.attempt ∉ r.attempts := by
    intro hmem
    obtain ⟨j, hjm, hja⟩ := List.mem_map.1 hmem
    refine hj (List.find?_isSome.2 ⟨j, hjm, ?_⟩)
    exact decide_eq_true hja
  refine ok_iff.2 ⟨hm, ?_, ?_, ?_⟩
  · rw [hattempts]
    simp
  · rw [hattempts, List.nodup_append]
    refine ⟨hnd, List.nodup_singleton _, ?_⟩
    rintro a ha _ hb rfl
    exact hfresh (List.mem_singleton.1 hb ▸ ha)
  · rw [hattempts]
    intro n hn
    rcases List.mem_append.1 hn with hn | hn
    · exact hle n hn
    · rw [List.mem_singleton.1 hn]
      exact ⟨hpos, Nat.le_refl _⟩

/-- Publishing gives a record that passes its own validators. -/
theorem published_ok {t : Time} (h : r.ok = true) : (r.published b t).ok = true ∧
    (r.published b t).identity = r.identity ∧ (r.published b t).meeting.attempt = r.meeting.attempt := by
  let r₀ : MeetingRecord := { r with meeting := { r.meeting with
    status := .reviewRequired, stage := none, updatedAt := t, failure := none } }
  have hok₀ : r₀.ok = true := ok_of h rfl rfl rfl ⟨rfl, rfl⟩
  have hsame : r₀.withCurrentJob.identity = r.identity ∧ r₀.withCurrentJob.meeting = r₀.meeting := by
    unfold MeetingRecord.withCurrentJob
    split <;> exact ⟨rfl, rfl⟩
  have hok₁ := ok_withCurrentJob hok₀
  have hpublished : r.published b t = r₀.withCurrentJob.setJob (JobRecord.published b) := rfl
  rw [hpublished]
  refine ⟨ok_of hok₁ rfl rfl (attempts_setJob fun _ => rfl) ?_, hsame.1, ?_⟩
  · rw [show (r₀.withCurrentJob.setJob (JobRecord.published b)).meeting = r₀.meeting from hsame.2]
    exact ⟨rfl, rfl⟩
  · rw [show (r₀.withCurrentJob.setJob (JobRecord.published b)).meeting = r₀.meeting from hsame.2]

/-- The law lets the bundle be published behind `v`. -/
structure Publishable (L : Law) (v : View) (r : MeetingRecord) (b : ResultBundleV1) : Prop where
  artifacts : Writable L v b.artifacts
  marker : ∀ v' t, Frame (named b.artifacts) v v' → (∀ n x, (n, x) ∈ b.artifacts → v'.look (.folder, n) = some x) →
    v'.justSynced → L v' (.file (.put marker (.record (r.published b t))))
  manifest : ∀ v' t, Frame (named b.artifacts) v v' → (∀ n x, (n, x) ∈ b.artifacts → v'.look (.folder, n) = some x) →
    v'.justSynced → L (v'.marked (r.published b t)) (.file (.put (.folder, .manifest) (.manifest (b.manifest r.meeting.attempt))))

theorem does_publishFirst {L : Law} (hr : v.run readRecord = .ok r) (hm : v.look (.folder, .manifest) = none)
    (hlaw : Publishable L v r b) : Does A L (publishFirst r b) v (PublishedFirst A v r b) := by
  have hnd : (b.artifacts.map Prod.fst).Nodup := by simp [ResultBundleV1.artifacts]
  refine Does.bind (does_writeArtifacts (fun _ h => h) hnd hr hlaw.artifacts) ?_ ?_
  swap
  · rintro e v₁ ⟨hf, h | ⟨he, hc, hc'⟩⟩
    · exact .inl h
    · exact .inr ⟨he, hc, hc', hf⟩
  rintro ⟨⟩ v₁ ⟨hf₁, hart₁, hn₁⟩
  have hn₁ : v₁.justSynced := hn₁.resolve_right (by simp [ResultBundleV1.artifacts])
  have hmk : ¬ named b.artifacts marker := fun h => by rcases named_artifacts h with h | h | h <;> cases h
  have hmn : ¬ named b.artifacts (.folder, .manifest) := fun h => by
    rcases named_artifacts h with h | h | h <;> cases h
  have hr₁ : v₁.run readRecord = .ok r := by
    rw [hf₁.run readOnly_readRecord fun q hq => by rw [hq]; exact hmk]
    exact hr
  have hshow : ∀ n x, (n, x) ∈ b.artifacts → v₁.look (.folder, n) = some x := fun n x h => (hart₁ n x h).1
  refine Does.bind (R := fun out v' => v' = v₁ ∧ ∃ t, out = .ok t) (Does.now fun t _ => ⟨rfl, t, rfl⟩) ?_ ?_
  swap
  · rintro e v₂ ⟨-, t, ht⟩
    cases ht
  rintro t v₁ ⟨rfl, _, ht⟩
  cases ht
  obtain ⟨hl, hok, howner, hid⟩ := readRecord_ok.1 hr₁
  obtain ⟨hok', hident, hatt⟩ := published_ok (b := b) (t := t) hok
  have hreach₁ : v₁.reach .folder = true := readable_reach hr₁
  refine Does.bind (does_atomicWrite (readable_notVoid hr₁) hreach₁ (hlaw.marker v₁ t hf₁ hshow hn₁)
    (hlaw.artifacts.sync _ hreach₁)) ?_ ?_
  swap
  · rintro e v₂ hw
    cases hw with
    | nothing h | shown h | synced h => exact .inl ⟨rfl, h⟩
  rintro ⟨⟩ v₂ hw
  cases hw
  change Does A L _ (v₁.marked (r.published b t)) _
  have hread₂ : (v₁.marked (r.published b t)).run readRecord = .ok (r.published b t) :=
    (run_sync readOnly_readRecord).trans (readable_mark hreach₁ hok' ((congrArg Identity.ownerId hident).trans howner)
      ((congrArg Identity.id hident).trans hid))
  have hl₂ : ∀ q, q ≠ marker → (v₁.marked (r.published b t)).look q = v₁.look q :=
    fun q h => look_mark (v := v₁) h
  have hart₂ : ∀ n x, (n, x) ∈ b.artifacts → (v₁.marked (r.published b t)).look (.folder, n) = some x := by
    intro n x h
    rw [hl₂ _ fun he => hmk ⟨_, h, by rw [← he]⟩]
    exact hshow n x h
  have hfree : (v₁.marked (r.published b t)).look (.folder, .manifest) = none := by
    rw [hl₂ _ (by decide), hf₁.look hmn]
    exact hm
  have hf₂ : Frame (· = marker) v₁ (v₁.marked (r.published b t)) :=
    (Frame.put (S := (· = marker)) rfl).trans (.sync _)
  have hreach₂ := readable_reach hread₂
  refine Does.bind (does_writeOriginal (p := (.folder, .manifest)) (readable_notVoid hread₂) hreach₂
    (fun _ => hlaw.manifest v₁ t hf₁ hshow hn₁) (fun _ => hlaw.artifacts.sync _ hreach₂)
    fun _ => hlaw.artifacts.sync _ hreach₂) ?_ ?_
  · rintro ⟨⟩ v₃ hw
    obtain ⟨hl₃, -⟩ := hw.done hreach₂
    have hf₃ : Frame (· = ((.folder, .manifest) : Path)) (v₁.marked (r.published b t)) v₃ := hw.frame rfl
    refine .ret ⟨t, ?_, ?_, ?_, ?_, ?_⟩
    · refine ((hf₁.mono fun q h => ?_).trans (hf₂.mono fun q h => .inl h)).trans
        (hf₃.mono fun q h => .inr (.inl h))
      rcases named_artifacts h with h | h | h
      · exact .inr (.inr (.inl h))
      · exact .inr (.inr (.inr (.inl h)))
      · exact .inr (.inr (.inr (.inr h)))
    · rw [hf₃.run readOnly_readRecord fun q hq => by rw [hq]; decide]; exact hread₂
    · intro n x h
      rw [hf₃.look fun he => hmn ⟨_, h, by rw [← he]⟩]
      exact hart₂ n x h
    · rw [hatt]; exact hl₃
    · intro n
      cases hw with
      | new _ hw => cases hw; exact dur_sync_self (q := (.folder, n))
      | same _ => exact dur_sync_self (q := (.folder, n))
  · rintro e v₃ hw
    cases hw with
    | new _ hw => cases hw with
      | nothing h | shown h | synced h => exact .inl ⟨rfl, h⟩
    | other hy _ => rw [hfree] at hy; cases hy
    | failed h => exact .inl ⟨rfl, h⟩

/-- The coordinator may publish the bundle it was served. -/
theorem Publishing.publishable (hp : Publishing v r b) (hs : r.meeting.status = .processing)
    (hact : coordinating v.log) : Publishable Legal v r b := by
  obtain ⟨job, hj, hid⟩ := hp.job
  have hmk : ¬ named b.artifacts marker := fun h => by rcases named_artifacts h with h | h | h <;> cases h
  have hmn : ¬ named b.artifacts (.folder, .manifest) := fun h => by
    rcases named_artifacts h with h | h | h <;> cases h
  have hframe : ∀ {v'}, Frame (named b.artifacts) v v' → Publishing v' r b := fun hf => hp.frame hf hmk hmn
  have hmove : ∀ {v'} (t : Time), Frame (named b.artifacts) v v' →
      (∀ n x, (n, x) ∈ b.artifacts → v'.look (.folder, n) = some x) → v'.justSynced → Move v' r (r.published b t) :=
    fun t hf hx hn => .published job b t hp.valid (hframe hf).served hs hj hid (hframe hf).unpublished hx
      (hact.of_running hf.log.running) hn
  refine ⟨⟨?_, fun v' h => .synced _ h⟩, ?_, ?_⟩
  · intro v' n x hf hx hfree
    exact .artifact r b n x (hframe hf) hs hx hfree
  · intro v' t hf hx hn
    exact .moved r _ (hframe hf).readable ((hmove t hf hx hn).ok (readable_ok hp.readable)) (hmove t hf hx hn)
      (hact.of_running hf.log.running).acts
  · intro v' t hf hx hn
    have hread := (hmove t hf hx hn).readable_marked (hframe hf).readable
    have hf₂ : Frame (· = marker) v' (v'.marked (r.published b t)) :=
      (Frame.put (S := (· = marker)) rfl).trans (.sync _)
    have hp₂ : Publishing (v'.marked (r.published b t)) (r.published b t) b := by
      obtain ⟨a, ha, hb⟩ := (hframe hf).served
      refine ⟨hread, hp.valid, hp.meeting, ⟨a, hf₂.log.mem ha, hb⟩, ⟨_, job_published hj, rfl⟩, ?_⟩
      exact (hf₂.look (by decide)).trans (hframe hf).unpublished
    have hst : (r.published b t).meeting.status = .reviewRequired := by rw [published_eq hj]; rfl
    have hatt : (r.published b t).meeting.attempt = r.meeting.attempt := by rw [published_eq hj]; rfl
    rw [← hatt]
    refine .manifest (r.published b t) b hp₂ hst ⟨_, job_published hj, rfl, rfl⟩ ?_
      fun n => dur_sync_self (q := (.folder, n))
    intro n x h
    exact (hf₂.look fun he => hmk ⟨_, h, by rw [← he]⟩).trans (hx n x h)

/-! ## A manifest that is already visible -/

theorem does_syncFiles {ns : List Name} (hm : v.look marker ≠ none)
    (hl : ∀ n ∈ ns, (v.look (.folder, n)).isSome = true) :
    Does A Legal (syncFiles ns) v fun out v' => v' = v ∧ (out = .ok () ∨ MayFail A ∧ out = .error .osError) := by
  induction ns with
  | nil => exact .ret ⟨rfl, .inl rfl⟩
  | cons n ns ih =>
    have hv : ¬ v.Void := by
      cases hx : v.look marker with
      | none => exact absurd hx hm
      | some x => exact not_void_of_look hx
    obtain ⟨x, hx⟩ := Option.isSome_iff_exists.1 (hl n List.mem_cons_self)
    refine Does.bind (R := fun out v' => v' = v ∧ (out = .ok () ∨ MayFail A ∧ out = .error .osError))
      (Does.syncFile hv ?_ fun hf => ⟨rfl, .inr ⟨hf, rfl⟩⟩) ?_ ?_
    · rw [hx]; exact ⟨rfl, .inl rfl⟩
    · rintro ⟨⟩ _ ⟨rfl, -⟩
      exact ih fun n' hn' => hl n' (List.mem_cons_of_mem _ hn')
    · rintro e _ ⟨rfl, h⟩
      exact ⟨rfl, h.imp (fun h => by cases h) fun ⟨hf, h⟩ => ⟨hf, by cases h; rfl⟩⟩

/-- **Publishing what is already visible** makes it durable and changes nothing. -/
theorem does_republish {m : ReadyManifest} {t : TranscriptV1} {i : InsightsV1} (hc : v.Committed m t i) :
    Does A Legal (republish (m.bundle t i)) v fun out v' =>
      (out = .ok m ∧ v' = v.syncs Dir.folder.chain) ∨
        (MayFail A ∧ out = .error .osError ∧ ∃ ds, v' = v.syncs ds) := by
  obtain ⟨r, hr, hlm, -⟩ := readManifest_ok.1 hc.manifest
  obtain ⟨m', x, hm', hlt, hli, hlx, -⟩ := readResults_ok.1 hc.results
  refine Does.readThen readOnly_readManifest (fun m₁ h => ?_) (fun e h => ?_) fun hf => .inr ⟨hf, rfl, [], rfl⟩
  swap
  · rw [hc.manifest] at h; cases h
  rw [hc.manifest] at h
  cases h
  simp only [ReadyManifest.bundle, demand, decide_true, if_true, Prog.bind_eq, Prog.ret_bind]
  refine Does.readThen readOnly_readResults.discard (fun _ _ => ?_) (fun e h => ?_) fun hf => .inr ⟨hf, rfl, [], rfl⟩
  swap
  · rw [run_discard, hc.results] at h; cases h
  have hmk := readable_look hr
  refine Does.bind (does_syncFiles (by rw [hmk]; simp) ?_) ?_ ?_
  · intro n hn
    simp only [List.mem_cons, List.not_mem_nil, or_false] at hn
    rcases hn with rfl | rfl | rfl | rfl | rfl
    · rw [hlt]; rfl
    · rw [hli]; rfl
    · rw [hlx]; rfl
    · rw [hmk]; rfl
    · rw [hlm]; rfl
  · rintro ⟨⟩ v ⟨rfl, -⟩
    have hvol : v.img.vol marker ≠ none := by rw [vol_of_look hmk]; simp
    refine Does.bind (does_makeFolder (readable_reach hr) hvol) ?_ ?_
    · rintro ⟨⟩ v' (⟨-, rfl⟩ | ⟨-, h, -⟩)
      · exact .ret (.inl ⟨rfl, rfl⟩)
      · cases h
    · rintro e v' (⟨h, -⟩ | ⟨hf, h, hv⟩)
      · cases h
      · cases h; exact .inr ⟨hf, rfl, hv⟩
  · rintro e _ ⟨rfl, h | ⟨hf, h⟩⟩
    · cases h
    · cases h; exact .inr ⟨hf, rfl, [], rfl⟩

end Tirke
