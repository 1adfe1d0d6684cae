import Tirke.Theorems.Confirmation
import Tirke.Runs.Uses
import Tirke.Spec.Overlay
/-!
# Review history is linear and durable

However editors interleave and whatever stops them, the updates that made the current revision form a chain, an
accepted one stays in it, and readers get what the newest of them makes of the machine's results.
-/

set_option linter.unusedSectionVars false

namespace Tirke

open CrashProg CrashDisk

section
variable [Lib] [Home] {v v' : View} {r r' : MeetingRecord} {c c' : Config} {q q' : ReviewRequest} {rot : Prop}

/-! ## The chain grows -/

theorem updates_cons (k k' : Commit) (h : History) (ha : k.record.meeting.attempt = k'.record.meeting.attempt) :
    updates (k' :: h) <:+ updates (k :: k' :: h) := by
  by_cases hr : k.record.meeting.revision = k'.record.meeting.revision
  · rewrite [updates_same ha hr]
    exact List.suffix_refl _
  · cases hq : k.author with
    | none => simp [updates, ha, hr, hq]
    | some a => cases a <;> simp [updates, ha, hr, hq]

/-- Within an attempt, an older history has fewer updates. -/
theorem updates_suffix {H h : History} {k k' : Commit} (hc : h.IsChain fun c c' => Evolves c'.record c.record)
    (hs : H <:+ h) (hk : H.head? = some k) (hk' : h.head? = some k')
    (ha : k.record.meeting.attempt = k'.record.meeting.attempt) : updates H <:+ updates h := by
  induction h generalizing k' with
  | nil => cases hk'
  | cons c t ih =>
    cases hk'
    rcases List.suffix_cons_iff.1 hs with rfl | hs
    · exact List.suffix_refl _
    cases t with
    | nil =>
      rw [List.eq_nil_of_suffix_nil hs] at hk
      cases hk
    | cons c₂ t =>
      have hc₂ := List.isChain_cons_cons.1 hc
      have hle : k.record.meeting.attempt ≤ c₂.record.meeting.attempt := by
        obtain ⟨pre, hpre⟩ := hs
        let _ : Trans (fun c c' : Commit => Evolves c'.record c.record) (fun c c' : Commit => Evolves c'.record c.record)
          (fun c c' : Commit => Evolves c'.record c.record) := ⟨fun h h' => Evolves.trans h' h⟩
        have hall := List.pairwise_cons.1 (List.isChain_iff_pairwise.1 hc₂.2)
        have hmem : k ∈ c₂ :: t := by
          rw [← hpre]
          exact List.mem_append_right _ (List.mem_of_mem_head? hk)
        rcases List.mem_cons.1 hmem with rfl | hmem
        · exact Nat.le_refl _
        · exact (hall.1 k hmem).attempt
      have hge := hc₂.1.attempt
      have heq : c₂.record.meeting.attempt = c.record.meeting.attempt := by omega
      exact (ih hc₂.2 hs rfl (ha.trans heq.symm)).trans (updates_cons c c₂ t heq.symm)

/-! ## What was accepted -/

/-- The update returns to its client. -/
def Config.accepts (c : Config) (q : ReviewRequest) : Prop :=
  running c.world.log = some (.updateReview q) ∧ c.prog = some (.ret ())

def Config.returned (c : Config) : Config := ⟨c.world.note (.finished none), none⟩

theorem Config.accepts.step (h : c.accepts q) : Step rot c c.returned := by
  obtain ⟨w, p⟩ := c
  obtain ⟨-, hp⟩ := h
  cases hp
  exact .returned w

/-- What an accepted update has done, since it was begun in the view `v`. -/
structure Accepted (v : View) (q : ReviewRequest) (v' : View) (r' : MeetingRecord) : Prop where
  readable : v'.run readRecord = .ok r'
  kept : v'.kept = v'.hist
  hist : v'.hist = ⟨some (.updateReview q), r'⟩ :: v.hist
  updates : updates v'.hist = q :: updates v.hist
  status : r'.meeting.status = .reviewRequired
  before : ∃ r, v.run readRecord = .ok r ∧ r.meeting.attempt = r'.meeting.attempt

/-- An update that returns has read a record, and committed the next revision. -/
theorem does_accepted (hrun : running v.log = some (.updateReview q)) :
    Does anything Legal (updateReview q) v fun out v' => ∀ m, out = .ok m → ∃ r t, v.run readRecord = .ok r ∧
      v'.look marker = some (.record (r.reviewed t)) ∧ v'.kept = v'.hist ∧
      v'.hist = ⟨some (.updateReview q), r.reviewed t⟩ :: v.hist := by
  by_cases hr : ∃ r, v.run readRecord = .ok r
  swap
  · refine (does_unreadable fun r h => hr ⟨r, h⟩).mono ?_
    rintro out v' ⟨-, e, rfl⟩ m hm
    cases hm
  obtain ⟨r, hr⟩ := hr
  refine (does_updateReview hr hrun).mono ?_
  rintro out v' ⟨t, ht⟩ m rfl
  obtain ⟨hkept, hhist⟩ := ht.committed (not_reviewFiles (.inl rfl)) hrun
  refine ⟨r, t, hr, ?_, hkept, hhist⟩
  cases ht with
  | done v₁ b hf => exact look_put_self (p := marker) (hf.reach.trans (readable_reach hr))

/-- **An update that returns was committed**, on top of what it found. -/
theorem accepts_committed {c₀ : Config} (h₀ : Reach (Step rot) c₀) (ha : Action.valid (.updateReview q))
    (hp : Performs (c₀.begin (.updateReview q)) c) (hidle : c₀.idle) (hret : c.prog = some (.ret ())) :
    ∃ r', Accepted c₀.world.view q c.world.view r' := by
  have hg₀ : Good rot c₀ := reach_good (fun _ _ h => h) h₀
  have hd := Does.discard (Q := fun out v' => out = .ok () → ∃ r t, (c₀.begin (.updateReview q)).world.view.run readRecord = .ok r ∧
      v'.look marker = some (.record (r.reviewed t)) ∧ v'.kept = v'.hist ∧
      v'.hist = ⟨some (.updateReview q), r.reviewed t⟩ :: (c₀.begin (.updateReview q)).world.view.hist)
    ((does_accepted rfl).mono (by
      rintro (e | m) v' h ho
      · cases ho
      · exact h m rfl))
  obtain ⟨r, t, hr, hlook, hkept, hhist⟩ := hp.ends (o := .ok ()) rfl hg₀.fit hd hret rfl
  replace hr : c₀.world.view.run readRecord = .ok r := (run_note readOnly_readRecord).symm.trans hr
  have hg : Good rot c := reach_good (fun _ _ h => h) ((h₀.trans (.single (step_begin hidle ha))).trans hp.run)
  obtain ⟨r', hr', hread⟩ := hg.life.inv.readable hlook
  cases hr'
  obtain ⟨k, h', hh, hk⟩ := hg₀.life.inv.genuine.head hr
  have hb : (c₀.begin (.updateReview q)).world.view.hist = c₀.world.view.hist := rfl
  refine ⟨_, hread, hkept, by rw [hhist, hb], ?_, rfl, r, hr, rfl⟩
  rw [hhist, hb, hh]
  exact updates_reviewed (by rw [hk]; rfl) (by rw [hk]; rfl) rfl

/-! ## What readers get -/

/-- What the machine's results are, once the newest of the updates was applied to them. -/
def revised (b : ResultBundleV1) (revision : Nat) : List ReviewRequest → Except Exn (TranscriptV1 × InsightsV1)
  | [] => .ok (b.transcript, b.insights)
  | q :: _ => overlay b.transcript (q.snapshot Home.meetingId revision)

/-- The results of the current revision, and what they come from. -/
structure Content (v : View) (r : MeetingRecord) (b : ResultBundleV1) (t : TranscriptV1) (i : InsightsV1) : Prop where
  served : served v.log b
  manifest : v.run readManifest = .ok (b.manifest r.meeting.attempt)
  revised : revised b r.meeting.revision (updates v.hist) = .ok (t, i)
  transcript : t.revision = r.meeting.revision
  insights : i.revision = r.meeting.revision
  read : v.run readReviewedResultsUnlocked = .ok (t, i)

theorem run_readSnapshot {o : TranscriptV1} {s : ReviewSnapshot} (hr : v.run readRecord = .ok r) (hs : s.valid = true)
    (hl : v.look (.folder, .snapshot s.revision) = some (.snapshot s)) (hid : s.meetingId = Home.meetingId) :
    v.run (readSnapshot o s.revision) = overlay o s := by
  have hparse : Doc.asSnapshot (.snapshot s) = some s := asSnapshot_eq_some.2 ⟨rfl, hs⟩
  simp only [readSnapshot, Prog.bind_eq, run_bind, run_discard, hr, ok_bind, run_read, hl, run_parse, hparse, hid,
    run_demand, decide_true, Bool.and_self, if_true, run_ofExcept]

theorem snapshot_valid {k : Nat} (hq : q.valid = true) (hk : k ≠ 0) : (q.snapshot Home.meetingId k).valid = true := by
  simp only [ReviewRequest.valid, Bool.and_eq_true] at hq
  simp only [ReviewSnapshot.valid, ReviewRequest.snapshot, Bool.and_eq_true]
  exact ⟨⟨⟨⟨decide_eq_true (Nat.one_le_iff_ne_zero.2 hk), hq.1.1.1⟩, hq.1.1.2⟩, hq.1.2⟩, hq.2⟩

/-- Whatever backs the manifest, readers of the reviewed results get it as the newest update left it. -/
theorem Inv.revised (h : Inv v) (hu : undamaged v.log) (hr : v.run readRecord = .ok r)
    (hs : r.meeting.status.published = true) {m : ReadyManifest} (hm : v.run readManifest = .ok m) :
    ∃ b t i, Content v r b t i ∧ b.valid = true ∧ v.run readResults = .ok (b.transcript, b.insights) := by
  obtain ⟨r₁, hr₁, hlm, -⟩ := readManifest_ok.1 hm
  cases hr.symm.trans hr₁
  have hin := inPlay_of_readable hr
  have hrec := files_of_readable hr
  have hman := vol_of_look hlm
  obtain ⟨b, hb⟩ := h.backed.now hin r _ hrec hman
  have hres := hb.results hr hman hu
  have hfailed : r.meeting.status ≠ .failed := by
    intro hf
    rw [hf] at hs
    cases hs
  have hrev := h.reviewed.now hin r hrec
  have hvalid := hb.valid
  simp only [ResultBundleV1.valid, Bool.and_eq_true, decide_eq_true_eq] at hvalid
  have hcurrent : v.run readReviewedResultsUnlocked = v.run (readCurrentLocked r.meeting) := by
    simp only [readReviewedResultsUnlocked, Prog.bind_eq, run_bind, hr, ok_bind]
  have hread := hb.read hr hman
  cases hup : updates v.hist with
  | nil =>
    have hzero : r.meeting.revision = 0 := by
      have hc := hrev.chain
      rw [hup] at hc
      simpa using hc.symm
    refine ⟨b, b.transcript, b.insights, ⟨hb.served, hread, by rw [hup]; rfl, ?_, ?_, ?_⟩, hb.valid, hres⟩
    · rw [hzero]; exact hvalid.1.1.1.1.2
    · rw [hzero]; exact hvalid.1.1.1.2
    · rw [hcurrent]
      simp only [readCurrentLocked, Prog.bind_eq, run_bind, run_demand, hs, hres, ok_bind, hzero, if_true]
      rfl
  | cons q rest =>
    have hpos : r.meeting.revision ≠ 0 := by
      intro h0
      rw [hrev.empty h0] at hup
      cases hup
    obtain ⟨hq, hsnap, hover⟩ := hrev.snapshot hfailed q rest hup
    obtain ⟨t, ⟨t', i'⟩, ht, hov⟩ := hover hu
    have htr : t = b.transcript := by
      have := (hb.artifacts hu .transcript (.transcript b.transcript) (by simp [ResultBundleV1.artifacts])).symm.trans ht
      cases this
      rfl
    subst htr
    have hx := overlay_ok hov
    simp only [ReviewSnapshot.results, Prod.mk.injEq] at hx
    refine ⟨b, t', i', ⟨hb.served, hread, by rw [hup]; exact hov, by rw [hx.1]; rfl, by rw [hx.2]; rfl, ?_⟩, hb.valid,
      hres⟩
    have hl : v.look (.folder, .snapshot r.meeting.revision) = some (.snapshot (q.snapshot Home.meetingId r.meeting.revision)) :=
      (look_of_reach (p := (.folder, .snapshot _)) (readable_reach hr)).trans hsnap
    have hrun := run_readSnapshot (o := b.transcript) (s := q.snapshot Home.meetingId r.meeting.revision) hr
      (snapshot_valid hq hpos) hl rfl
    rw [hcurrent]
    simp only [readCurrentLocked, Prog.bind_eq, run_bind, run_demand, hs, hres, ok_bind, hpos, if_true, if_false]
    rw [run_handle readOnly_readSnapshot]
    have hrev' : (q.snapshot Home.meetingId r.meeting.revision).revision = r.meeting.revision := rfl
    rw [hrev'] at hrun
    rw [hrun, hov]

/-- **Readers of the reviewed results get what the newest update makes of the machine's.** -/
theorem Inv.content (h : Inv v) (hu : undamaged v.log) (hr : v.run readRecord = .ok r)
    (hs : r.meeting.status.published = true) {m : ReadyManifest} (hm : v.run readManifest = .ok m) :
    ∃ b t i, Content v r b t i := by
  obtain ⟨b, t, i, hc, -⟩ := h.revised hu hr hs hm
  exact ⟨b, t, i, hc⟩

/-- No operation fails. -/
def quiet : Env host := fun _ _ ch => ch.fault = none

theorem quiet_calm : ¬ MayFail quiet := by
  rintro ⟨w, o, ch, h, hf⟩
  rw [quiet] at h
  rw [h] at hf
  cases hf

/-- If no operation fails, the program ends with `out` and changes nothing. -/
def World.yields {α : Type} (w : World) (p : Serv α) (out : Except Exn α) : Prop :=
  Sat quiet (fun _ _ => True) (fun o (w' : World) => o = out ∧ w'.view = w.view) p w

theorem does_readReviewedResults {L : Law} (hr : v.run readRecord = .ok r) : Does quiet L readReviewedResults v fun out v' =>
    out = v.run readReviewedResultsUnlocked ∧ v' = v := by
  refine does_lifecycleLock (fun r₁ b h _ => ?_) (fun e h => ?_) fun hf => absurd hf quiet_calm
  · exact Does.reads (S := fun _ => True) (ReadOnly.bind (readOnly_readRecord.mono fun _ _ => trivial)
      fun _ => readOnly_readCurrentLocked.mono fun _ _ => trivial) ⟨rfl, rfl⟩ fun hf => absurd hf quiet_calm
  · rw [hr] at h
    cases h

/-- The updates of the attempt form a chain, and readers get what the newest of them makes of the machine's results. -/
structure Linear (c : Config) (r : MeetingRecord) : Prop where
  chain : (updates c.world.view.hist).map (·.baseRevision) = (List.range r.meeting.revision).reverse
  content : r.meeting.status.published = true → ∀ m, c.world.view.run readManifest = .ok m →
    ∃ b t i, Content c.world.view r b t i ∧ c.world.yields readReviewedResults (.ok (t, i))

theorem Inv.chain (h : Inv v) (hr : v.run readRecord = .ok r) :
    (updates v.hist).map (·.baseRevision) = (List.range r.meeting.revision).reverse :=
  (h.reviewed.now (inPlay_of_readable hr) r (files_of_readable hr)).chain

theorem linear_of (h : Reach (Step False) c) (hr : c.world.view.run readRecord = .ok r) : Linear c r := by
  have hg : Good False c := reach_good (fun _ _ h => h) h
  refine ⟨hg.life.inv.chain hr, fun hs m hm => ?_⟩
  obtain ⟨b, t, i, hc⟩ := hg.life.inv.content h.undamaged hr hs hm
  have hd := does_readReviewedResults (L := Legal) hr _ rfl hg.fit
  refine ⟨b, t, i, hc, (hd.weaken (fun _ _ _ h => h) fun _ _ _ => trivial).mono ?_⟩
  rintro out w' ⟨-, ho, hv⟩
  exact ⟨ho.trans hc.read, hv⟩

theorem chain_cons {rest : List ReviewRequest} {n : Nat}
    (h : (q :: rest).map (·.baseRevision) = (List.range n).reverse) : q.baseRevision = rest.length ∧ n = rest.length + 1 := by
  have hlen := congrArg List.length h
  simp only [List.length_map, List.length_cons, List.length_reverse, List.length_range] at hlen
  subst hlen
  rw [List.range_succ, List.reverse_append] at h
  simp only [List.map_cons, List.reverse_singleton, List.singleton_append, List.cons.injEq] at h
  exact ⟨h.1, rfl⟩

/-- What was accepted stays in the history of the attempt, and whatever is accepted later is on top of it. -/
structure Lasting (c : Config) (q : ReviewRequest) (c' : Config) : Prop where
  chain : updates c.world.view.hist <:+ updates c'.world.view.hist
  later : ∀ q', c'.accepts q' → q.baseRevision < q'.baseRevision

theorem Config.accepts.lasting (h : Reach (Step rot) c) (hc : c.accepts q) (hr : c.world.view.run readRecord = .ok r)
    (ha : ∃ v, Accepted v q c.world.view r) (hs : Run rot c.returned c') (hr' : c'.world.view.run readRecord = .ok r')
    (hatt : r'.meeting.attempt = r.meeting.attempt) : Lasting c q c' := by
  obtain ⟨v, ha⟩ := ha
  have hret : Reach (Step rot) c.returned := h.trans (.single hc.step)
  -- the history that was returned is below every later one
  have hbelow : ∀ c₂, Run rot c.returned c₂ → ∀ r₂, c₂.world.view.run readRecord = .ok r₂ →
      r₂.meeting.attempt = r.meeting.attempt → updates c.world.view.hist <:+ updates c₂.world.view.hist := by
    intro c₂ hs₂ r₂ hr₂ hatt₂
    have hkept : c.returned.world.view.kept = c.world.view.hist := ha.kept
    have hhist : c.returned.world.view.hist = c.world.view.hist := rfl
    have hlast := (Run.lasting (H := c.world.view.hist) hret hs₂ (by rw [show running c.returned.world.log = _ from hc.1]; nofun)
      ⟨by rewrite [hkept]; exact List.suffix_refl _, by rewrite [hhist]; exact List.suffix_refl _⟩).2
    have hi₂ : Inv c₂.world.view := (hret.trans hs₂).inv
    obtain ⟨k₂, h₂, hh₂, rfl⟩ := hi₂.genuine.head hr₂
    obtain ⟨k, hh, hcons, -, -, -, -, hchain⟩ := hi₂.genuine.now (inPlay_of_readable hr₂) _ (files_of_readable hr₂)
    exact updates_suffix hchain hlast (by rw [ha.hist]; rfl) (by rw [hh₂]; rfl) hatt₂.symm
  refine ⟨hbelow c' hs r' hr' hatt, fun q' hq' => ?_⟩
  obtain ⟨c₂, a, hs₂, hidle, hval, hperf⟩ := Run.split hs rfl hq'.2
  have hreach₂ : Reach (Step rot) c₂ := hret.trans hs₂
  obtain rfl : a = .updateReview q' := by
    have hg : Good rot (c₂.begin a) := reach_good (fun _ _ h => h) (hreach₂.trans (.single (step_begin hidle hval)))
    have hrun := (hperf.running hg).symm.trans hq'.1
    cases hrun
    rfl
  obtain ⟨r'', ha'⟩ := accepts_committed hreach₂ hval hperf hidle hq'.2
  cases hr'.symm.trans ha'.readable
  obtain ⟨r₂, hr₂, hatt₂⟩ := ha'.before
  have hsuf := hbelow c₂ hs₂ r₂ hr₂ (hatt₂.trans hatt)
  have hchain := h.inv.chain hr
  rw [ha.updates] at hchain hsuf
  have hchain' := (hret.trans hs).inv.chain hr'
  rw [ha'.updates] at hchain'
  have hlen := hsuf.length_le
  have h₁ := (chain_cons hchain).1
  have h₂ := (chain_cons hchain').1
  rw [List.length_cons] at hlen
  omega

/-- **Review history is linear and durable.** -/
theorem reviews_are_linear (h : Reach (Step False) c) :
    (∀ r, c.world.view.run readRecord = .ok r → Linear c r) ∧
    ∀ q, c.accepts q → ∃ r rest, c.world.view.run readRecord = .ok r ∧ r.meeting.revision = q.baseRevision + 1 ∧
      updates c.world.view.hist = q :: rest ∧ ∀ c' r', Run False c.returned c' → c'.world.view.run readRecord = .ok r' →
        r'.meeting.attempt = r.meeting.attempt → Lasting c q c' := by
  refine ⟨fun r hr => linear_of h hr, fun q hq => ?_⟩
  obtain ⟨c₁, a, h₁, -, hidle, hval, hperf, hrun⟩ := h.split hq.2 (by rw [hq.1]; nofun)
  cases hq.1.symm.trans hrun
  obtain ⟨r, ha⟩ := accepts_committed h₁ hval hperf hidle hq.2
  have hchain := h.inv.chain ha.readable
  rw [ha.updates] at hchain
  obtain ⟨hb, hrev⟩ := chain_cons hchain
  exact ⟨r, _, ha.readable, by omega, ha.updates, fun c' r' hs hr' hatt => hq.lasting h ha.readable ⟨_, ha⟩ hs hr' hatt⟩

end

section
attribute [local instance] Sample.lib Sample.home

namespace Sample

def edit : ReviewRequest := ⟨0, [⟨speaker, none, .unknown⟩], [⟨7, some ['b'], none⟩], [], []⟩

/-- The meeting was processed, and an update of its results is about to return. -/
def edited : Config := created.cues [.start .processOnce, .play never (answering (gpu first)), .finish,
  .start (.updateReview edit), .play never (answering (gpu first))]

end Sample

theorem reviews_are_linear_sample : Sample.edited.accepts Sample.edit ∧
    ∃ r rest, Sample.edited.world.view.run readRecord = .ok r ∧ r.meeting.revision = 1 ∧
      updates Sample.edited.world.view.hist = Sample.edit :: rest ∧ Linear Sample.edited r := by
  have hq : Sample.edited.accepts Sample.edit := ⟨by decide +kernel, prog_of_returned (by decide +kernel)⟩
  obtain ⟨hlin, hacc⟩ := reviews_are_linear (Sample.reach_created.cues (.inr rfl) : Reach _ Sample.edited)
  obtain ⟨r, rest, hr, hrev, hup, -⟩ := hacc _ hq
  exact ⟨hq, r, rest, hr, hrev, hup, hlin r hr⟩

end

end Tirke
