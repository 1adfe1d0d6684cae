import Tirke.Runs.Invariants
import Tirke.Spec.Overlay
import Tirke.Theorems.Acknowledgement
/-!
# What a cached PDF shows

A cached PDF is the layout of the content its record was approved with. The invariant is kept copy by copy, so it
survives a power failure: what is durable of the folder was there at one time.

| here | there |
| --- | --- |
| `Reads` | the transcript and insights `_read_current_locked` makes of the files |
| `StillApproved` | since the approval nobody edited, and nothing failed |
-/

set_option linter.unusedSectionVars false

namespace Tirke

open CrashProg CrashDisk

variable [Lib] [Home] [Weather] {v v' : View} {r r' : MeetingRecord} {t t' : TranscriptV1} {i i' : InsightsV1}
  {h : History} {f g : Name → Option Doc} {rot : Prop}

/-! ## The current content -/

inductive Reads (f : Name → Option Doc) (revision : Nat) (t : TranscriptV1) (i : InsightsV1) : Prop where
  | machine (h0 : revision = 0) (ht : f .transcript = some (.transcript t)) (hi : f .insights = some (.insights i))
  | reviewed (o : TranscriptV1) (s : ReviewSnapshot) (h0 : revision ≠ 0) (ht : f .transcript = some (.transcript o))
      (hs : f (.snapshot revision) = some (.snapshot s)) (ho : overlay o s = .ok (t, i))

/-- There is one content. -/
theorem Reads.unique {k : Nat} (h : Reads f k t i) (h' : Reads f k t' i') : (t, i) = (t', i') := by
  cases h with
  | machine h0 ht hi =>
    cases h' with
    | machine _ ht' hi' =>
      rw [ht] at ht'
      rw [hi] at hi'
      cases ht'
      cases hi'
      rfl
    | reviewed _ _ h0' => exact absurd h0 h0'
  | reviewed o s h0 ht hs ho =>
    cases h' with
    | machine h0' => exact absurd h0' h0
    | reviewed o' s' _ ht' hs' ho' =>
      rw [ht] at ht'
      rw [hs] at hs'
      cases ht'
      cases hs'
      exact Except.ok.inj (ho.symm.trans ho')

theorem Reads.congr {k : Nat} (h : Reads f k t i) (ht : g .transcript = f .transcript) (hi : g .insights = f .insights)
    (hs : g (.snapshot k) = f (.snapshot k)) : Reads g k t i := by
  cases h with
  | machine h0 h₁ h₂ => exact .machine h0 (ht.trans h₁) (hi.trans h₂)
  | reviewed o s h0 h₁ h₂ ho => exact .reviewed o s h0 (ht.trans h₁) (hs.trans h₂) ho

theorem committedError_ne {e : Exn} {x : TranscriptV1 × InsightsV1} :
    v.run (.raise (committedError e) : Serv (TranscriptV1 × InsightsV1)) ≠ .ok x := by
  rw [run_raise]
  nofun

/-- What a reader of the current revision gets: the results, or a snapshot over them. -/
theorem readCurrentLocked_ok {m : Meeting} (hc : v.run (readCurrentLocked m) = .ok (t, i)) :
    ∃ o j, v.run readResults = .ok (o, j) ∧ (m.revision = 0 ∧ (o, j) = (t, i) ∨ m.revision ≠ 0 ∧
      ∃ s, v.look (.folder, .snapshot m.revision) = some (.snapshot s) ∧ overlay o s = .ok (t, i)) := by
  simp only [readCurrentLocked, Prog.bind_eq, run_bind, bind_eq_ok, run_demand_ok] at hc
  obtain ⟨-, -, ⟨o, j⟩, hres, hc⟩ := hc
  refine ⟨o, j, hres, ?_⟩
  by_cases h0 : m.revision = 0
  · simp only [h0, if_true, run_ret, Except.ok.injEq] at hc
    exact .inl ⟨h0, hc⟩
  · simp only [h0, if_false, run_handle readOnly_readSnapshot] at hc
    cases hs : v.run (readSnapshot o m.revision) with
    | error e => rw [hs] at hc; exact absurd hc committedError_ne
    | ok x =>
      rw [hs] at hc
      cases hc
      simp only [readSnapshot, Prog.bind_eq, run_bind, bind_eq_ok, run_parse_ok, run_ofExcept, run_read,
        asSnapshot_eq_some, run_demand_ok] at hs
      obtain ⟨-, -, d, hd, s, ⟨rfl, -⟩, -, -, ho⟩ := hs
      cases hl : v.look (.folder, .snapshot m.revision) with
      | none => rw [hl] at hd; cases hd
      | some d =>
        rw [hl] at hd
        cases hd
        exact .inr ⟨h0, s, rfl, ho⟩

/-- **The files show it.** -/
theorem reads_of_read {m : Meeting} (hc : v.run (readCurrentLocked m) = .ok (t, i)) : Reads v.files m.revision t i := by
  obtain ⟨o, j, hres, h⟩ := readCurrentLocked_ok hc
  obtain ⟨_, _, -, ht, hi, -⟩ := readResults_ok.1 hres
  rcases h with ⟨h0, he⟩ | ⟨h0, s, hs, ho⟩
  · cases he
    exact .machine h0 (vol_of_look ht) (vol_of_look hi)
  · exact .reviewed o s h0 (vol_of_look ht) (vol_of_look hs) ho

/-- It is about this meeting. -/
theorem read_meetingId {m : Meeting} (hc : v.run (readCurrentLocked m) = .ok (t, i)) : t.meetingId = Home.meetingId := by
  obtain ⟨o, j, hres, h⟩ := readCurrentLocked_ok hc
  obtain ⟨_, _, -, -, -, -, -, -, -, -, hid⟩ := readResults_ok.1 hres
  rcases h with ⟨-, he⟩ | ⟨-, s, -, ho⟩
  · cases he
    exact hid
  · have ht := congrArg Prod.fst (overlay_ok ho)
    simp only [ReviewSnapshot.results] at ht
    rw [ht]
    exact hid

/-! ## Approval -/

/-- The newest commit belongs to an approval of its revision, after which nothing but the export's stage and the
cleanup changed. -/
inductive StillApproved : History → Prop where
  | approved (q : ApprovalRequest) (c : Commit) (h : History) (ha : c.author = some (.approve q))
      (hb : q.baseRevision = c.record.meeting.revision) (hs : c.record.meeting.status = .approved) :
      StillApproved (c :: h)
  | later (c c' : Commit) (h : History) (hs : c.record.meeting.status = .approved)
      (hr : c.record.meeting.revision = c'.record.meeting.revision)
      (ha : c.record.meeting.attempt = c'.record.meeting.attempt) (hc : StillApproved (c' :: h)) : StillApproved (c :: c' :: h)

/-- What `approve_review` checks of the content. -/
structure Approvable (t : TranscriptV1) (i : InsightsV1) : Prop where
  identified : ∀ s ∈ t.speakers, s.identityStatus ≠ .unreviewed
  evidence : i.validateAgainst t = true

/-- The two files of a cached PDF. -/
def pdfCache (revision : Nat) (pdf : Bytes) : List (Name × Doc) :=
  [(.pdf revision, .blob pdf), (.pdfMarker revision, pdfCacheMarker revision (.blob pdf))]

/-- The file belongs to a cached PDF. -/
def Name.isCache : Name → Prop
  | .pdf _ | .pdfMarker _ => True
  | _ => False

theorem pdfCache_name {k : Nat} {pdf : Bytes} {n : Name} {d : Doc} (h : (n, d) ∈ pdfCache k pdf) :
    n = .pdf k ∨ n = .pdfMarker k := by
  simp only [pdfCache, List.mem_cons, Prod.mk.injEq, List.not_mem_nil, or_false] at h
  exact h.imp And.left And.left

theorem pdfCache_isCache {k : Nat} {pdf : Bytes} {n : Name} {d : Doc} (h : (n, d) ∈ pdfCache k pdf) : n.isCache := by
  rcases pdfCache_name h with rfl | rfl <;> trivial

/-- A name is cached once. -/
theorem pdfCache_unique {k : Nat} {pdf : Bytes} {n : Name} {d d' : Doc} (h : (n, d) ∈ pdfCache k pdf)
    (h' : (n, d') ∈ pdfCache k pdf) : d = d' := by
  simp only [pdfCache, List.mem_cons, Prod.mk.injEq, List.not_mem_nil, or_false] at h h'
  rcases h with ⟨rfl, rfl⟩ | ⟨rfl, rfl⟩
  · rcases h' with ⟨-, rfl⟩ | ⟨hn, -⟩
    · rfl
    · cases hn
  · rcases h' with ⟨hn, -⟩ | ⟨-, rfl⟩
    · cases hn
    · rfl

/-- A move out of an approved record whose results are readable: an edit that dropped the cached PDF, or nothing that
is printed changes. -/
theorem Move.from_approved (m : Move v r r') (hs : r.meeting.status = .approved) (hm : v.run readManifest ≠ .error .notReady)
    (hx : ∃ x, v.run readResults = .ok x) :
    (r'.meeting.status = .reviewRequired ∧ v.look (.folder, .pdf r.meeting.revision) = none ∧
      v.look (.folder, .pdfMarker r.meeting.revision) = none) ∨
    (r'.meeting.status = .approved ∧ r'.meeting.revision = r.meeting.revision ∧ r'.meeting.attempt = r.meeting.attempt) := by
  cases m with
  | begun _ _ _ _ _ h | progressed _ _ _ _ _ _ h | polledFailed _ _ _ _ _ _ _ h => exact absurd h hm
  | flagged _ _ h | published _ _ _ _ _ h | retried _ h | approved _ _ _ _ _ h => rw [hs] at h; cases h
  | failed _ _ _ _ h =>
    obtain ⟨x, hx⟩ := hx
    exact absurd hx (h x)
  | reviewed q original j res t hq _ hb ho hv hd hp => exact .inl ⟨rfl, hp hs⟩
  | _ => exact .inr ⟨hs, rfl, rfl⟩

/-- Only an approval approves. -/
theorem Move.to_approved (m : Move v r r') (hs : r.meeting.status ≠ .approved) (hs' : r'.meeting.status = .approved) :
    ∃ q transcript insights, running v.log = some (.approve q) ∧ q.baseRevision = r.meeting.revision ∧
      v.run (readCurrentLocked r.meeting) = .ok (transcript, insights) ∧ Approvable transcript insights ∧
      r'.meeting.revision = r.meeting.revision ∧ v.run readManifest ≠ .error .notReady := by
  cases m with
  | approved q transcript insights t hq h hb hc hu he =>
    refine ⟨q, transcript, insights, hq, hb, hc, ⟨hu, he⟩, rfl, ?_⟩
    obtain ⟨o, j, hres, -⟩ := readCurrentLocked_ok hc
    obtain ⟨_, _, hm, -⟩ := readResults_ok.1 hres
    rw [hm]
    nofun
  | published job b t _ _ _ hj => rw [published_eq hj] at hs'; cases hs'
  | exporting _ h => exact absurd h hs
  | _ => first | exact absurd hs' hs | cases hs'

/-! ## The invariant -/

structure PrintedBy (h : History) (f : Name → Option Doc) (r : MeetingRecord) : Prop where
  approved : r.meeting.status = .approved → f .manifest ≠ none ∧ StillApproved h ∧
    ∃ t i, Reads f r.meeting.revision t i ∧ Approvable t i
  cache : ∀ n d, n.isCache → f n = some d → r.meeting.status = .approved ∧
    ∃ t i, Reads f r.meeting.revision t i ∧ (n, d) ∈ pdfCache r.meeting.revision (Lib.layout r.meeting.rendered t i)

/-- Where nothing rots, every cached PDF is one of the approved content. -/
def Printed : Property := fun v h f => undamaged v.log → ∀ r, f .meeting = some (.record r) → PrintedBy h f r

theorem PrintedBy.congr (hp : PrintedBy h f r) (hm : g .manifest = none → f .manifest = none)
    (ht : g .transcript = f .transcript) (hi : g .insights = f .insights)
    (hs : g (.snapshot r.meeting.revision) = f (.snapshot r.meeting.revision))
    (hc : ∀ n d, n.isCache → g n = some d → f n = some d) : PrintedBy h g r := by
  refine ⟨fun ha => ?_, fun n d hn hd => ?_⟩
  · obtain ⟨h₁, h₂, t, i, h₃, h₄⟩ := hp.approved ha
    exact ⟨fun hn => h₁ (hm hn), h₂, t, i, h₃.congr ht hi hs, h₄⟩
  · obtain ⟨ha, t, i, h₁, h₂⟩ := hp.cache n d hn (hc n d hn hd)
    exact ⟨ha, t, i, h₁.congr ht hi hs, h₂⟩

/-- Nothing is asserted of a record that is not approved, but that nothing is cached. -/
theorem PrintedBy.unapproved (hs : r.meeting.status ≠ .approved) (hc : ∀ n : Name, n.isCache → f n = none) :
    PrintedBy h f r := by
  refine ⟨fun ha => absurd ha hs, fun n d hn hd => ?_⟩
  rw [hc n hn] at hd
  cases hd

theorem PrintedBy.absent (hp : PrintedBy h f r) (hs : r.meeting.status ≠ .approved) {n : Name} (hn : n.isCache) :
    f n = none := by
  cases hd : f n with
  | none => rfl
  | some d => exact absurd (hp.cache n d hn hd).1 hs

/-- The results of a record with a manifest can be read. -/
theorem Holds.results (hb : Holds Backed v) (hu : undamaged v.log) (hr : v.run readRecord = .ok r)
    (hm : v.files .manifest ≠ none) : v.run readManifest ≠ .error .notReady ∧ ∃ x, v.run readResults = .ok x := by
  obtain ⟨d, hd⟩ := Option.ne_none_iff_exists'.1 hm
  obtain ⟨b, hb⟩ := hb.now (inPlay_of_readable hr) r d (files_of_readable hr) hd
  refine ⟨?_, _, hb.results hr hd hu⟩
  rw [hb.read hr hd]
  nofun

theorem manifest_of_ready (hr : v.run readRecord = .ok r) (hm : v.run readManifest ≠ .error .notReady) :
    v.files .manifest ≠ none := by
  intro hn
  have hl : v.look (.folder, .manifest) = none := (look_of_reach (p := (.folder, .manifest)) (readable_reach hr)).trans hn
  rw [run_readManifest hr, hl] at hm
  exact hm rfl

theorem isCache_ne {n m : Name} (hn : n.isCache) (hm : ¬ m.isCache) : n ≠ m := by
  rintro rfl
  exact hm hn

/-- **The marker is rewritten.** -/
theorem PrintedBy.moved (hp : PrintedBy v.hist v.files r) (hi : Holds Genuine v ∧ Holds Backed v) (hu : undamaged v.log)
    (hr : v.run readRecord = .ok r) (hm : Move v r r') :
    PrintedBy (⟨running v.log, r'⟩ :: v.hist) (Function.update v.files .meeting (some (.record r'))) r' := by
  obtain ⟨c, h', hh, hc⟩ := hi.1.head hr
  have hupd : ∀ n, n ≠ .meeting → Function.update v.files .meeting (some (.record r')) n = v.files n :=
    fun n hn => Function.update_of_ne hn _ _
  have hcache : ∀ n : Name, n.isCache → Function.update v.files .meeting (some (.record r')) n = v.files n :=
    fun n hn => hupd n (isCache_ne hn id)
  have hreads : ∀ {k t i}, Reads v.files k t i → Reads (Function.update v.files .meeting (some (.record r'))) k t i :=
    fun hs => hs.congr (hupd _ nofun) (hupd _ nofun) (hupd _ nofun)
  by_cases hs : r.meeting.status = .approved
  · obtain ⟨hman, hstill, t, i, ht, hok⟩ := hp.approved hs
    obtain ⟨hready, hx⟩ := hi.2.results hu hr hman
    rcases hm.from_approved hs hready hx with ⟨hs', hgone⟩ | ⟨hs', hrev, hatt⟩
    · refine .unapproved (by rw [hs']; nofun) fun n hn => ?_
      rw [hcache n hn]
      cases hd : v.files n with
      | none => rfl
      | some d =>
        obtain ⟨-, _, _, -, hmem⟩ := hp.cache n d hn hd
        rw [look_of_reach (p := (.folder, .pdf _)) (readable_reach hr),
          look_of_reach (p := (.folder, .pdfMarker _)) (readable_reach hr)] at hgone
        rcases pdfCache_name hmem with rfl | rfl
        · exact hd.symm.trans hgone.1
        · exact hd.symm.trans hgone.2
    · refine ⟨fun _ => ⟨by rw [hupd .manifest nofun]; exact hman, ?_, t, i, by rw [hrev]; exact hreads ht, hok⟩,
        fun n d hn hd => ?_⟩
      · rw [hh] at hstill ⊢
        exact .later _ c h' hs' (by rw [hc]; exact hrev) (by rw [hc]; exact hatt) hstill
      · rw [hcache n hn] at hd
        obtain ⟨-, t, i, ht, hmem⟩ := hp.cache n d hn hd
        have hren : r'.meeting.rendered = r.meeting.rendered := by
          have hid := hm.identity
          have hmeta := congrArg Identity.metadata hid
          have hsrc := congrArg Identity.source hid
          simp only [MeetingRecord.identity] at hmeta hsrc
          simp only [Meeting.rendered, hmeta, hsrc]
        exact ⟨hs', t, i, by rw [hrev]; exact hreads ht, by rw [hrev, hren]; exact hmem⟩
  · by_cases hs' : r'.meeting.status = .approved
    · obtain ⟨q, t, i, hq, hb, hcur, hok, hrev, hready⟩ := hm.to_approved hs hs'
      refine ⟨fun _ => ⟨by rw [hupd .manifest nofun]; exact manifest_of_ready hr hready, ?_, t, i, ?_, hok⟩,
        fun n d hn hd => ?_⟩
      · exact .approved q _ _ hq (hb.trans hrev.symm) hs'
      · rw [hrev]
        exact hreads (reads_of_read hcur)
      · rw [hcache n hn, hp.absent hs hn] at hd
        cases hd
    · exact .unapproved hs' fun n hn => by rw [hcache n hn]; exact hp.absent hs hn

/-- A file of the cache is written, with what the current content is laid out as. -/
theorem PrintedBy.cached (hp : PrintedBy h f r) (hs : r.meeting.status = .approved) (ht : Reads f r.meeting.revision t i)
    {n : Name} {x : Doc} (hmem : (n, x) ∈ pdfCache r.meeting.revision (Lib.layout r.meeting.rendered t i)) :
    PrintedBy h (Function.update f n (some x)) r := by
  have hupd : ∀ m : Name, ¬ m.isCache → Function.update f n (some x) m = f m := fun m hm =>
    Function.update_of_ne (isCache_ne (pdfCache_isCache hmem) hm).symm _ _
  have hreads : ∀ {t i}, Reads f r.meeting.revision t i → Reads (Function.update f n (some x)) r.meeting.revision t i :=
    fun h => h.congr (hupd .transcript id) (hupd .insights id) (hupd (.snapshot _) id)
  obtain ⟨hman, hstill, t', i', ht', hok⟩ := hp.approved hs
  refine ⟨fun _ => ⟨by rwa [hupd .manifest id], hstill, t', i', hreads ht', hok⟩, fun m d hm hd => ⟨hs, ?_⟩⟩
  by_cases he : m = n
  · subst he
    rw [Function.update_self] at hd
    cases hd
    exact ⟨t, i, hreads ht, hmem⟩
  · rw [Function.update_of_ne he] at hd
    obtain ⟨-, t₁, i₁, h₁, h₂⟩ := hp.cache m d hm hd
    exact ⟨t₁, i₁, hreads h₁, h₂⟩

theorem stable_printed : Stable (fun v => Holds Genuine v ∧ Holds Backed v) Printed where
  absent h0 _ r hr := by rw [h0] at hr; cases hr
  frozen _ _ _ hp hu := hp (undamaged_cons (after_log ▸ hu))
  bounds _ _ hp hu := hp (undamaged_cons hu)
  power _ hp hu := hp (undamaged_cons hu)
  damaged {v n d h f} _ _ _ hu := absurd List.mem_cons_self (hu n d)
  put {v n x} _ hl hn hin hp hu r hr := by
    rw [Function.update_of_ne hn.symm] at hr
    have hr' := hp (undamaged_cons hu) r hr
    have hother : n ≠ .transcript → n ≠ .insights → n ≠ .snapshot r.meeting.revision → ¬ n.isCache →
        PrintedBy v.hist (Function.update v.files n (some x)) r := by
      intro h₁ h₂ h₃ h₄
      refine hr'.congr (fun hm => ?_) (Function.update_of_ne h₁.symm _ _) (Function.update_of_ne h₂.symm _ _)
        (Function.update_of_ne h₃.symm _ _) fun k d hk hd => by rwa [Function.update_of_ne (isCache_ne hk h₄)] at hd
      by_cases h : Name.manifest = n
      · subst h
        rw [Function.update_self] at hm
        cases hm
      · rwa [Function.update_of_ne h] at hm
    have hsame : ∀ r₀, v.run readRecord = .ok r₀ → r₀ = r := by
      intro r₀ hr₀
      have hrec := files_of_readable hr₀
      rw [hrec] at hr
      cases hr
      rfl
    cases hl with
    | moved | born => exact absurd rfl hn
    | artifact r₀ b n x hpub hs hx hfree =>
      obtain rfl := hsame _ hpub.readable
      refine .unapproved (by rw [hs]; nofun) fun k hk => ?_
      rw [Function.update_of_ne (by rintro rfl; rcases artifact_name hx with h | h | h <;> rw [h] at hk <;> exact hk)]
      exact hr'.absent (by rw [hs]; nofun) hk
    | snapshot r₀ s hr₀ hs =>
      obtain rfl := hsame _ hr₀
      exact hother nofun nofun (by simp) id
    | pdf r₀ t i hr₀ hs hc =>
      obtain rfl := hsame _ hr₀
      exact hr'.cached hs (reads_of_read hc) (by simp [pdfCache])
    | pdfMarker r₀ t i hr₀ hs hc =>
      obtain rfl := hsame _ hr₀
      exact hr'.cached hs (reads_of_read hc) (by simp [pdfCache])
    | uploaded | manifest | review => exact hother nofun nofun nofun id
  removed {v n} _ hl hn hin hp hu r hr := by
    rw [Function.update_of_ne hn.symm] at hr
    have hr' := hp (undamaged_cons hu) r hr
    have hcache : ∀ (k : Name) (d : Doc), k.isCache → Function.update v.files n none k = some d → v.files k = some d := by
      intro k d _ hd
      by_cases hk : k = n
      · subst hk
        rw [Function.update_self] at hd
        cases hd
      · rwa [Function.update_of_ne hk] at hd
    have hother : n ≠ .manifest → n ≠ .transcript → n ≠ .insights → n ≠ .snapshot r.meeting.revision →
        PrintedBy v.hist (Function.update v.files n none) r := fun h₀ h₁ h₂ h₃ =>
      hr'.congr (fun hm => by rwa [Function.update_of_ne h₀.symm] at hm) (Function.update_of_ne h₁.symm _ _)
        (Function.update_of_ne h₂.symm _ _) (Function.update_of_ne h₃.symm _ _) hcache
    cases hl with
    | withdrawn => exact absurd rfl hn
    | dropped r₀ n x hr₀ hs =>
      have hrec := files_of_readable hr₀
      rw [hrec] at hr
      cases hr
      have hne : r.meeting.status ≠ .approved := by rw [hs]; nofun
      refine .unapproved hne fun k hk => ?_
      cases hd : Function.update v.files n none k with
      | none => rfl
      | some d => exact (hcache k d hk hd).symm.trans (hr'.absent hne hk)
    | pdfDropped r₀ n hr₀ hname =>
      rcases hname with rfl | rfl <;> exact hother nofun nofun nofun nofun
    | uploadDropped r₀ hr₀ => exact hother nofun nofun nofun nofun
  moved {v r r'} hi hr _ hm _ hp hu r₁ hr₁ := by
    rw [Function.update_self] at hr₁
    cases hr₁
    have hu' := undamaged_cons hu
    exact (hp hu' r (files_of_readable hr)).moved hi hu' hr hm
  born {v r} _ hl hr hv _ r₁ hr₁ := by
    rw [Function.update_self] at hr₁
    cases hr₁
    cases hl with
    | moved r r' hrd _ _ ha => exact absurd hr ha
    | born metadata t kind hours audio extension _ _ _ _ ho =>
      refine .unapproved nofun fun n hn => ?_
      rw [Function.update_of_ne (isCache_ne hn id)]
      exact ho n (isCache_ne hn id)
    | artifact r b n x hp hst hx hn => simp [ResultBundleV1.artifacts] at hx

theorem Life.printed (h : Life rot v) : Holds Printed v := by
  induction h with
  | blank h => exact .blank stable_printed h
  | @legacy v r audio h =>
    refine .legacy h fun _ r₁ hr₁ => ?_
    obtain ⟨metadata, t, kind, hours, extension, -, hrec⟩ := h.isNew
    have hr₁' : some (Doc.record r) = some (.record r₁) := hr₁
    cases hr₁'
    refine .unapproved (by rw [hrec]; nofun) fun n hn => ?_
    cases n with
    | pdf k | pdfMarker k => rfl
    | _ => exact hn.elim
  | step h hh ih =>
    have hi := h.inv
    exact ih.step stable_printed ⟨hi.genuine, hi.backed⟩ hh

end Tirke
