import Tirke.Runs.Cleaning
/-!
# The chain of reviews

`updates h` are the requests whose updates made the revisions of the current attempt, newest first. `Reviewed`:
they form a chain, and the newest one is what the committed snapshot says.
-/

set_option linter.unusedSectionVars false

namespace Tirke

open CrashProg CrashDisk

variable [Lib] [Home] [Weather] {v v' : View} {r r' : MeetingRecord} {e : Event} {rot : Prop}

/-- The updates of the current attempt that were committed, newest first. -/
def updates : History → List ReviewRequest
  | c :: c' :: h =>
    if c.record.meeting.attempt ≠ c'.record.meeting.attempt then []
    else if c.record.meeting.revision = c'.record.meeting.revision then updates (c' :: h)
    else match c.author with
      | some (.updateReview q) => q :: updates (c' :: h)
      | _ => updates (c' :: h)
  | _ => []

theorem updates_same {c c' : Commit} {h : History} (ha : c.record.meeting.attempt = c'.record.meeting.attempt)
    (hr : c.record.meeting.revision = c'.record.meeting.revision) : updates (c :: c' :: h) = updates (c' :: h) := by
  simp [updates, ha, hr]

theorem updates_retried {c c' : Commit} {h : History} (ha : c.record.meeting.attempt ≠ c'.record.meeting.attempt) :
    updates (c :: c' :: h) = [] := by
  simp [updates, ha]

theorem updates_reviewed {c c' : Commit} {h : History} {q : ReviewRequest}
    (ha : c.record.meeting.attempt = c'.record.meeting.attempt)
    (hr : c.record.meeting.revision = c'.record.meeting.revision + 1) (hq : c.author = some (.updateReview q)) :
    updates (c :: c' :: h) = q :: updates (c' :: h) := by
  simp [updates, ha, hr, hq]

/-- Whoever is acting was asked something valid. -/
def Prompted (v : View) : Prop := ∀ a, running v.log = some a → a.valid

theorem Prompted.step (ha : Prompted v) (hh : Happens rot v v') : Prompted v' := by
  cases hh with
  | lawful e hl => intro a h; rw [after_log, hl.running] at h; exact ha a h
  | bounds e he =>
    intro a h
    cases e with
    | started a' => cases h; exact he
    | finished _ | killed => exact ha a h
    | _ => exact he.elim
  | power => exact ha
  | damaged => exact ha

structure ReviewedBy (log : List Event) (h : History) (f : Name → Option Doc) (r : MeetingRecord) : Prop where
  chain : (updates h).map (·.baseRevision) = (List.range r.meeting.revision).reverse
  machine : r.meeting.status ≠ .failed → r.meeting.status.published = false ∨ f .manifest = none →
    r.meeting.revision = 0
  snapshot : r.meeting.status ≠ .failed → ∀ q rest, updates h = q :: rest → q.valid = true ∧
    f (.snapshot r.meeting.revision) = some (.snapshot (q.snapshot Home.meetingId r.meeting.revision)) ∧
    (undamaged log → ∃ t res, f .transcript = some (.transcript t) ∧
      overlay t (q.snapshot Home.meetingId r.meeting.revision) = .ok res)

def Reviewed : Property := fun v h f => ∀ r, f .meeting = some (.record r) → ReviewedBy v.log h f r

theorem ReviewedBy.empty {log : List Event} {h : History} {f : Name → Option Doc} (hr : ReviewedBy log h f r)
    (h0 : r.meeting.revision = 0) : updates h = [] := by
  have := hr.chain
  rw [h0] at this
  simpa using this

theorem ReviewedBy.same {log log' : List Event} {h : History} {f g : Name → Option Doc} (hr : ReviewedBy log h f r)
    (hu : undamaged log' → undamaged log) (hm : g .manifest = none → f .manifest = none ∨ r.meeting.status = .failed)
    (hs : r.meeting.status ≠ .failed → updates h ≠ [] → g (.snapshot r.meeting.revision) = f (.snapshot r.meeting.revision) ∧
      (undamaged log' → g .transcript = f .transcript)) : ReviewedBy log' h g r := by
  refine ⟨hr.chain, fun hf hp => hr.machine hf (hp.imp_right fun h => (hm h).resolve_right hf), fun hf q rest hq => ?_⟩
  obtain ⟨hv, hsn, ht⟩ := hr.snapshot hf q rest hq
  obtain ⟨hg, hg'⟩ := hs hf (by rw [hq]; nofun)
  exact ⟨hv, by rw [hg]; exact hsn, fun hu' => by rw [hg' hu']; exact ht (hu hu')⟩

/-- A move that neither reviews nor retries keeps the revision. -/
theorem Move.revision (m : Move v r r') : (r'.meeting.attempt = r.meeting.attempt ∧ r'.meeting.revision = r.meeting.revision) ∨
    (∃ t, r' = r.retried t) ∨ ∃ q original i res t, r' = r.reviewed t ∧ running v.log = some (.updateReview q) ∧
      q.baseRevision = r.meeting.revision ∧ v.run readResults = .ok (original, i) ∧
      overlay original (q.snapshot Home.meetingId (r.meeting.revision + 1)) = .ok res ∧
      v.look (.folder, .snapshot (r.meeting.revision + 1)) =
        some (.snapshot (q.snapshot Home.meetingId (r.meeting.revision + 1))) := by
  cases m with
  | published job b t hb hs hst hj => rw [published_eq hj]; exact .inl ⟨rfl, rfl⟩
  | retried t => exact .inr (.inl ⟨t, rfl⟩)
  | reviewed q original i res t hq hs hb ho hv hd => exact .inr (.inr ⟨q, original, i, res, t, rfl, hq, hb, ho, hv, hd⟩)
  | _ => exact .inl ⟨rfl, rfl⟩

/-- A move leads out of the published states only where no manifest can be read. -/
theorem Move.unpublished (m : Move v r r') (hf : r'.meeting.status ≠ .failed) (hp : r'.meeting.status.published = false) :
    (∃ t, r' = r.retried t) ∨ r.meeting.status.published = false ∨ v.run readManifest = .error .notReady := by
  cases m with
  | begun job t _ _ _ hm | progressed job remote t _ _ _ hm => exact .inr (.inr hm)
  | flagged job t hs => exact .inr (.inl (by rw [hs]; rfl))
  | polledFailed | failed => exact absurd rfl hf
  | published job b t _ _ _ hj => rw [published_eq hj] at hp; cases hp
  | retried t => exact .inl ⟨t, rfl⟩
  | reviewed | approved => cases hp
  | _ => exact .inr (.inl hp)

theorem stable_reviewed : Stable (fun v => Holds Genuine v ∧ Holds Backed v ∧ Prompted v) Reviewed where
  absent h0 r hr := by rw [h0] at hr; cases hr
  frozen {v e h f} _ _ _ hp r hr := by
    rw [after_log]
    exact (hp r hr).same undamaged_cons .inl fun _ _ => ⟨rfl, fun _ => rfl⟩
  bounds {v e h f} _ _ hp r hr := (hp r hr).same undamaged_cons .inl fun _ _ => ⟨rfl, fun _ => rfl⟩
  power {v} _ hp r hr := (hp r hr).same undamaged_cons .inl fun _ _ => ⟨rfl, fun _ => rfl⟩
  damaged {v n d h f} _ hn hp r hr := by
    have hne : ∀ m, m ∉ resultNames → Function.update f n d m = f m := fun m hm =>
      Function.update_of_ne (by rintro rfl; exact hm hn) _ _
    rw [hne _ (by simp [resultNames])] at hr
    refine (hp r hr).same undamaged_cons (fun h => .inl ?_) fun _ _ => ⟨hne _ (by simp [resultNames]), fun hu => ?_⟩
    · rwa [hne _ (by simp [resultNames])] at h
    · exact absurd List.mem_cons_self (hu n d)
  put {v n x} _ hl hn hin hp r hr := by
    rw [Function.update_of_ne hn.symm] at hr
    have hr' := hp r hr
    have hman : Function.update v.files n (some x) .manifest = none → v.files .manifest = none := by
      by_cases h : Name.manifest = n
      · subst h; simp
      · rw [Function.update_of_ne h]; exact id
    refine hr'.same undamaged_cons (fun h => .inl (hman h)) fun hf hne => ?_
    -- the file that is written is neither the committed snapshot nor the transcript it was checked against
    have hpos : r.meeting.revision ≠ 0 := fun h0 => hne (hr'.empty h0)
    have hother : n ≠ .snapshot r.meeting.revision → n ≠ .transcript →
        Function.update v.files n (some x) (.snapshot r.meeting.revision) = v.files (.snapshot r.meeting.revision) ∧
          (undamaged (v.put (.folder, n) x).log → Function.update v.files n (some x) .transcript = v.files .transcript) :=
      fun h₁ h₂ => ⟨Function.update_of_ne h₁.symm _ _, fun _ => Function.update_of_ne h₂.symm _ _⟩
    cases hl with
    | moved | born => exact absurd rfl hn
    | artifact r₀ b n x hpub hs hx hfree =>
      have hrec := files_of_readable hpub.readable
      rw [hrec] at hr
      cases hr
      exact absurd (hr'.machine hf (.inl (by rw [hs]; rfl))) hpos
    | snapshot r₀ s hr₀ hs =>
      have hrec := files_of_readable hr₀
      rw [hrec] at hr
      cases hr
      exact hother (by simp) (by simp)
    | uploaded | manifest | review | pdf | pdfMarker => exact hother (by simp) (by simp)
  removed {v n} _ hl hn hin hp r hr := by
    rw [Function.update_of_ne hn.symm] at hr
    have hr' := hp r hr
    have hother : n ≠ .manifest → n ≠ .snapshot r.meeting.revision → n ≠ .transcript →
        ReviewedBy (v.drop (.folder, n)).log v.hist (Function.update v.files n none) r := fun h₀ h₁ h₂ =>
      hr'.same undamaged_cons (fun h => .inl (by rwa [Function.update_of_ne h₀.symm] at h)) fun _ _ =>
        ⟨Function.update_of_ne h₁.symm _ _, fun _ => Function.update_of_ne h₂.symm _ _⟩
    cases hl with
    | withdrawn => exact absurd rfl hn
    | dropped r₀ n x hr₀ hs =>
      have hrec := files_of_readable hr₀
      rw [hrec] at hr
      cases hr
      exact hr'.same undamaged_cons (fun _ => .inr hs) fun hf => absurd hs hf
    | pdfDropped r₀ n hr₀ hname =>
      rcases hname with rfl | rfl <;> exact hother (by simp) (by simp) (by simp)
    | uploadDropped r₀ hr₀ => exact hother (by simp) (by simp) (by simp)
  moved {v r r'} hi hr hok hm ha hp r₁ hr₁ := by
    rw [Function.update_self] at hr₁
    cases hr₁
    have hmem := files_of_readable hr
    have hin := inPlay_of_readable hr
    have hr' := hp r hmem
    obtain ⟨c, h', hh, hc⟩ := hi.1.head hr
    have hupd : ∀ n, n ≠ .meeting → Function.update v.files .meeting (some (.record r')) n = v.files n :=
      fun n hn => Function.update_of_ne hn _ _
    rw [hh] at hr' ⊢
    rcases hm.revision with ⟨hatt, hrev⟩ | ⟨t, rfl⟩ | ⟨q, original, i, res, t, rfl, hq, hb, ho, hv, hd⟩
    · have hacc : updates (⟨running v.log, r'⟩ :: c :: h') = updates (c :: h') :=
        updates_same (by rw [hc]; exact hatt) (by rw [hc]; exact hrev)
      have hback : r'.meeting.status ≠ .failed → r.meeting.status ≠ .failed := fun hf hs =>
        hf (hm.failed_stays hatt hs)
      refine ⟨by rw [hacc, hrev]; exact hr'.chain, fun hf hpub => ?_, fun hf q rest hq => ?_⟩
      · rw [hrev]
        rcases hpub with hpub | hnone
        · rcases hm.unpublished hf hpub with ⟨t, rfl⟩ | hpub | hnr
          · exact absurd hatt (Nat.succ_ne_self _)
          · exact hr'.machine (hback hf) (.inl hpub)
          · refine hr'.machine (hback hf) (.inr ?_)
            cases hman : v.files .manifest with
            | none => rfl
            | some d =>
              obtain ⟨b, hbk⟩ := hi.2.1.now hin r d hmem hman
              rw [hbk.read hr hman] at hnr
              cases hnr
        · rw [hupd _ (by simp)] at hnone
          exact hr'.machine (hback hf) (.inr hnone)
      · rw [hacc] at hq
        obtain ⟨h₁, h₂, h₃⟩ := hr'.snapshot (hback hf) q rest hq
        rw [hrev, hupd _ (by simp), hupd _ (by simp)]
        exact ⟨h₁, h₂, fun hu => h₃ (undamaged_cons hu)⟩
    · have hacc : updates (⟨running v.log, r.retried t⟩ :: c :: h') = [] :=
        updates_retried (by rw [hc]; exact Nat.succ_ne_self _)
      exact ⟨by rw [hacc]; rfl, fun _ _ => rfl, fun _ q rest hq => by rw [hacc] at hq; cases hq⟩
    · have hacc : updates (⟨running v.log, r.reviewed t⟩ :: c :: h') = q :: updates (c :: h') :=
        updates_reviewed (by rw [hc]; rfl) (by rw [hc]; rfl) hq
      obtain ⟨m, x, hman, ht, -⟩ := readResults_ok.1 ho
      obtain ⟨r₀, hr₀, hlm, -⟩ := readManifest_ok.1 hman
      refine ⟨?_, fun _ hpub => ?_, fun _ q' rest hq' => ?_⟩
      · show _ = (List.range (r.meeting.revision + 1)).reverse
        rw [hacc, List.map_cons, hr'.chain, List.range_succ, List.reverse_append, hb]
        rfl
      · rcases hpub with hpub | hnone
        · cases hpub
        · rw [hupd _ (by simp)] at hnone
          have := vol_of_look hlm
          rw [View.files, this] at hnone
          cases hnone
      · rw [hacc] at hq'
        cases hq'
        rw [hupd _ (by simp), hupd _ (by simp)]
        exact ⟨hi.2.2 _ hq, vol_of_look hd, fun _ => ⟨original, res, vol_of_look ht, hv⟩⟩
  born {v r} _ hl hr hv r₁ hr₁ := by
    rw [Function.update_self] at hr₁
    cases hr₁
    cases hl with
    | moved r r' hrd _ _ ha => exact absurd hr ha
    | born => exact ⟨rfl, fun _ _ => rfl, fun _ q rest hq => by cases hq⟩
    | artifact r b n x hp hst hx hn => simp [ResultBundleV1.artifacts] at hx

theorem Reviewed.legacy {audio : Bytes} (hl : Legacy v r audio) :
    Reviewed v [⟨none, r⟩] fun n => legacyFiles r audio (.folder, n) := by
  obtain ⟨metadata, t, kind, hours, extension, -, hrec⟩ := hl.isNew
  intro r₁ hr₁
  have hr₁' : some (Doc.record r) = some (.record r₁) := hr₁
  cases hr₁'
  rw [hrec]
  exact ⟨rfl, fun _ _ => rfl, fun _ q rest hq => by cases hq⟩

end Tirke
