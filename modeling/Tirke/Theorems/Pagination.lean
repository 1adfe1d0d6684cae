import Tirke.Runs.DataRoot
import Mathlib.Data.Set.Finite.Lattice
/-!
# Following `next_cursor`

While meetings are created, updated, retried and deleted, a client that asks for page after page of the list of meetings
comes to an end, and has then seen the meetings of its owner in strictly decreasing order, none of them twice, and each
one that was there all the time.
-/

set_option linter.unusedSectionVars false

namespace Tirke

open CrashProg Keyset

section
variable [Lib] {d d' : DataRoot} {s s' : Site} {m m' : Meeting} {owner : UUID}

/-! ## A meeting keeps its place in the order -/

/-- The meeting can be read on its site. -/
def DataRoot.shows (d : DataRoot) (home : Home) : Prop := ∃ s ∈ d, s.home = home ∧ ∃ m, s.readMeeting = .ok m

theorem Changes.sortKey (h : Changes d d') (hp : Proper d) (hs : s ∈ d) (hs' : s' ∈ d')
    (hid : s'.home.meetingId = s.home.meetingId) (hm : s.readMeeting = .ok m) (hm' : s'.readMeeting = .ok m') :
    Tirke.sortKey m' = Tirke.sortKey m := by
  obtain ⟨t, ht, hhome, hrun⟩ := h.site hs
  have heq : t = s' := (h.proper hp).eq ht hs' (by rw [hhome, hid])
  subst heq
  obtain ⟨home, c⟩ := s
  obtain ⟨home', c'⟩ := t
  cases hhome
  let _ := home
  have hreach : Reach (Step False) c := hp.reached _ hs
  rcases hreach.readMeeting with ⟨hnone, -⟩ | ⟨r, x, hr, hx, hidx, hcr⟩
  · cases hnone.symm.trans hm
  rcases (hreach.trans hrun).readMeeting with ⟨hnone, -⟩ | ⟨r', x', hr', hx', hidx', hcr'⟩
  · cases hnone.symm.trans hm'
  cases hx.symm.trans hm
  cases hx'.symm.trans hm'
  have hident := Run.identity hreach hr hrun hr'
  have hcreated : r'.meeting.createdAt = r.meeting.createdAt := congrArg Identity.createdAt hident
  unfold Tirke.sortKey
  rw [hidx, hidx', hcr, hcr', hcreated]

/-- A meeting whose creation is over shows until it is deleted or the power fails. -/
theorem Changes.shows (h : Changes d d') (hp : Proper d) (hs : s ∈ d) (hm : s.readMeeting = .ok m) (hset : s.config.settled)
    (hs' : s' ∈ d') (hhome : s'.home = s.home) (hq : gently s.config.world.log s'.config.world.log) : d'.shows s.home := by
  obtain ⟨t, ht, hthome, hrun⟩ := h.site hs
  have heq : t = s' := (h.proper hp).eq ht hs' (by rw [hthome, hhome])
  subst heq
  obtain ⟨home, c⟩ := s
  obtain ⟨home', c'⟩ := t
  cases hthome
  let _ := home
  have hreach : Reach (Step False) c := hp.reached _ hs
  rcases hreach.readMeeting with ⟨hnone, -⟩ | ⟨r, x, hr, -⟩
  · cases hnone.symm.trans hm
  obtain ⟨⟨r', hr'⟩, -⟩ := Run.stands hreach hr hset hrun hq
  rcases (hreach.trans hrun).readMeeting with ⟨-, hnone⟩ | ⟨-, x', -, hx', -⟩
  · exact absurd hr' (hnone r')
  · exact ⟨_, ht, rfl, x', hx'⟩

/-! ## Finitely many meetings -/

section
variable {roots : Nat → DataRoot}

theorem changes_of_le (hs : ∀ n, Changes (roots n) (roots (n + 1))) {i j : Nat} (h : i ≤ j) : Changes (roots i) (roots j) := by
  induction h with
  | refl => exact .refl
  | step _ ih => exact ih.trans (hs _)

theorem proper_roots (h0 : Changes [] (roots 0)) (hs : ∀ n, Changes (roots n) (roots (n + 1))) (n : Nat) : Proper (roots n) :=
  Changes.proper (h0.trans (changes_of_le hs (Nat.zero_le n))) ⟨nofun, .nil⟩

/-- Sites are only added, so if their number is bounded, the ids that ever occur are those of one moment. -/
theorem finite_ids (h0 : Changes [] (roots 0)) (hs : ∀ n, Changes (roots n) (roots (n + 1)))
    (hfin : ∃ N, ∀ n, (roots n).length ≤ N) : {id | ∃ n, ∃ s ∈ roots n, s.home.meetingId = id}.Finite := by
  have hproper := proper_roots h0 hs
  let ids : Nat → Finset UUID := fun n => ((roots n).map fun s => s.home.meetingId).toFinset
  have hcard : ∀ n, (ids n).card = (roots n).length := fun n => by
    rw [List.toFinset_card_of_nodup (List.pairwise_map.2 (hproper n).distinct), List.length_map]
  have hmono : ∀ i j, i ≤ j → ids i ⊆ ids j := by
    intro i j hij id hid
    simp only [ids, List.mem_toFinset, List.mem_map] at hid ⊢
    obtain ⟨s, hmem, rfl⟩ := hid
    obtain ⟨s', hs', hhome, -⟩ := (changes_of_le hs hij).site hmem
    exact ⟨s', hs', by rw [hhome]⟩
  -- the moment with the most sites
  obtain ⟨N, hN⟩ := hfin
  obtain ⟨n₀, hmax⟩ : ∃ n₀, ∀ n, (ids n).card ≤ (ids n₀).card := by
    by_contra hno
    push Not at hno
    have hgrow : ∀ k, ∃ n, k ≤ (ids n).card := by
      intro k
      induction k with
      | zero => exact ⟨0, Nat.zero_le _⟩
      | succ k ih =>
        obtain ⟨n, hn⟩ := ih
        obtain ⟨n', hn'⟩ := hno n
        exact ⟨n', by omega⟩
    obtain ⟨n, hn⟩ := hgrow (N + 1)
    have := hN n
    rw [hcard] at hn
    omega
  refine (ids n₀).finite_toSet.subset ?_
  rintro id ⟨n, s, hmem, rfl⟩
  have hin : s.home.meetingId ∈ ids n := by
    simp only [ids, List.mem_toFinset, List.mem_map]
    exact ⟨s, hmem, rfl⟩
  by_cases hn : n ≤ n₀
  · exact hmono n n₀ hn hin
  · have heq : ids n₀ = ids n := Finset.eq_of_subset_of_card_le (hmono n₀ n (by omega)) (hmax n)
    rw [heq]
    exact hin

theorem finite_keys (h0 : Changes [] (roots 0)) (hs : ∀ n, Changes (roots n) (roots (n + 1)))
    (hfin : ∃ N, ∀ n, (roots n).length ≤ N) :
    {k | ∃ n, ∃ s ∈ roots n, ∃ m, s.readMeeting = .ok m ∧ Tirke.sortKey m = k}.Finite := by
  have hids := finite_ids h0 hs hfin
  -- an id has one key
  refine (hids.biUnion (t := fun id => {k | ∃ n, ∃ s ∈ roots n, ∃ m, s.home.meetingId = id ∧ s.readMeeting = .ok m ∧
    Tirke.sortKey m = k}) fun id _ => Set.Subsingleton.finite ?_).subset ?_
  · rintro k ⟨n, s, hmem, m, rfl, hm, rfl⟩ k' ⟨n', s', hmem', m', hid, hm', rfl⟩
    rcases Nat.le_total n n' with hle | hle
    · exact ((changes_of_le hs hle).sortKey (proper_roots h0 hs n) hmem hmem' hid hm hm').symm
    · exact (changes_of_le hs hle).sortKey (proper_roots h0 hs n') hmem' hmem hid.symm hm' hm
  · rintro k ⟨n, s, hmem, m, hm, rfl⟩
    exact Set.mem_biUnion (show s.home.meetingId ∈ _ from ⟨n, s, hmem, rfl⟩) ⟨n, s, hmem, m, rfl, hm, rfl⟩

end

/-! ## The route -/

/-- What the store lists of an owner. -/
def DataRoot.listing (d : DataRoot) (owner : UUID) : List Meeting :=
  match d.listMeetings owner with
  | .ok ms => ms
  | .error _ => []

/-- `GET /meetings` of the owner. -/
def serves (owner : UUID) (q : DataRoot × Str) (cursor : Option Str) (p : Page Meeting Str) : Prop :=
  Tirke.listMeetings (q.1.listMeetings owner) q.2 cursor = .ok ⟨p.items, p.next⟩

/-- The data root at each request of a client, and the limits that it asks with. -/
structure Requests (roots : Nat → DataRoot) (limits : Nat → Str) : Prop where
  first : Changes [] (roots 0)
  next : ∀ n, Changes (roots n) (roots (n + 1))
  /-- There are finitely many creations. -/
  creations : ∃ N, ∀ n, (roots n).length ≤ N
  /-- A `datetime` lies before year 10000. -/
  dated : ∀ n, ∀ s ∈ roots n, ∀ m, s.readMeeting = .ok m → m.createdAt < Calendar.limit
  limits : ∀ n, validLimit (limits n) = true

/-- What the client has when it has asked `n + 1` times. -/
structure Complete (owner : UUID) (roots : Nat → DataRoot) (n : Nat) (items : List Meeting) : Prop where
  descending : Descending Tirke.sortKey items
  distinct : items.Pairwise fun m m' => m.id ≠ m'.id
  own : ∀ m ∈ items, ∃ i ≤ n, ∃ s ∈ roots i, s.home.ownerId = owner ∧ s.home.meetingId = m.id ∧ s.readMeeting = .ok m
  /-- A meeting that shows at every request is there, once. -/
  whole : ∀ home : Home, home.ownerId = owner → (∀ i ≤ n, (roots i).shows home) → ∃! m, m ∈ items ∧ m.id = home.meetingId
  /-- So is one that was there at the first request and is not deleted from then until the last, unless the power failed. -/
  kept : ∀ s ∈ roots 0, s.home.ownerId = owner → (∃ m, s.readMeeting = .ok m) → s.config.settled →
    (∀ s' ∈ roots n, s'.home = s.home → gently s.config.world.log s'.config.world.log) → ∃! m, m ∈ items ∧ m.id = s.home.meetingId

theorem Proper.listing (hp : Proper d) (owner : UUID) : d.listMeetings owner = .ok (d.listing owner) ∧
    Descending Tirke.sortKey (d.listing owner) ∧
    ∀ m, m ∈ d.listing owner ↔ ∃ s ∈ d, s.home.ownerId = owner ∧ s.readMeeting = .ok m := by
  obtain ⟨ms, hms, hdesc, hmem⟩ := hp.listed owner
  have heq : d.listing owner = ms := by rw [DataRoot.listing, hms]
  rw [heq]
  exact ⟨hms, hdesc, hmem⟩

/-- **The route serves the pages of what the store lists.** -/
theorem serves_page {limit : Str} {b : Option (Time ×ₗ Str)} (owner : UUID) (hp : Proper d)
    (hd : ∀ s ∈ d, ∀ m, s.readMeeting = .ok m → m.createdAt < Calendar.limit) (hl : validLimit limit = true)
    (hb : ∀ k, b = some k → Dated k) :
    serves owner (d, limit) (b.map cursorOf) ⟨(page Tirke.sortKey (d.listing owner, int limit) b).items,
      (page Tirke.sortKey (d.listing owner, int limit) b).next.map cursorOf⟩ ∧
    ∀ k, (page Tirke.sortKey (d.listing owner, int limit) b).next = some k → Dated k := by
  obtain ⟨hlist, -, hmem⟩ := hp.listing owner
  refine ⟨?_, fun k hk => ?_⟩
  · unfold serves
    rw [hlist]
    exact listMeetings_page hl hb
  · obtain ⟨m, hm, rfl⟩ := page_next hk
    obtain ⟨hin, -⟩ := page_items_sub (List.mem_of_getLast? hm)
    obtain ⟨s, hs, -, hread⟩ := (hmem m).1 hin
    exact ⟨m, hd s hs m hread, rfl⟩

/-- **The client never sees a cursor again**: each one stands for a smaller key. -/
theorem queryFn_advances {answer : Nat → Option Str → Except RouteError MeetingPage} {roots : Nat → DataRoot} {limits : Nat → Str}
    (h : Requests roots limits)
    (ha : ∀ i c p, answer i c = .ok p → Tirke.listMeetings ((roots i).listMeetings owner) (limits i) c = .ok p)
    (fuel i : Nat) (b : Option (Time ×ₗ Str)) (items : List Meeting) (seenCursors : List Str) (hb : ∀ k, b = some k → Dated k)
    (hseen : ∀ t ∈ seenCursors, ∃ k k', b = some k ∧ k ≤ k' ∧ Dated k' ∧ t = cursorOf k') :
    queryFn answer fuel i (b.map cursorOf) items seenCursors ≠ some (.error .repeatedCursor) := by
  induction fuel generalizing i b items seenCursors with
  | zero => nofun
  | succ fuel ih =>
    unfold queryFn
    cases hans : answer i (b.map cursorOf) with
    | error e => nofun
    | ok p =>
      obtain ⟨hserve, hdated⟩ :=
        serves_page owner (proper_roots h.first h.next i) (h.dated i) (h.limits i) hb
      have hpage : p.nextCursor =
          (page Tirke.sortKey ((roots i).listing owner, int (limits i)) b).next.map cursorOf := by
        have heq := (ha i _ p hans).symm.trans hserve
        rw [Except.ok.inj heq]
      cases hnext : (page Tirke.sortKey ((roots i).listing owner, int (limits i)) b).next with
      | none =>
        rw [hnext] at hpage
        simp only [hpage, Option.map_none]
        nofun
      | some k =>
        rw [hnext] at hpage
        simp only [hpage, Option.map_some]
        have hlt : ∀ k₀, b = some k₀ → k < k₀ := by
          obtain ⟨m, hm, rfl⟩ := page_next hnext
          exact (page_items_sub (List.mem_of_getLast? hm)).2
        split
        · next hin =>
          -- a cursor that was seen stands for a key that is not below the boundary
          obtain ⟨k₀, k', hk₀, hle, hdk', heq⟩ := hseen _ hin
          have hsame : k = k' := cursorOf_injective (hdated k hnext) hdk' heq
          exact absurd (lt_of_lt_of_le (hlt k₀ hk₀) hle) (hsame ▸ lt_irrefl _)
        · refine ih (i + 1) (some k) _ _ (fun k₁ hk₁ => by cases hk₁; exact hdated k hnext) ?_
          refine List.forall_mem_cons.2 ⟨⟨k, k, rfl, le_refl _, hdated k hnext, rfl⟩, fun t ht => ?_⟩
          obtain ⟨k₀, k', hk₀, hle, hdk', heq⟩ := hseen t ht
          exact ⟨k, k', rfl, le_trans (le_of_lt (hlt k₀ hk₀)) hle, hdk', heq⟩

theorem Requests.complete {roots : Nat → DataRoot} {limits : Nat → Str} (h : Requests roots limits) {n : Nat} {items : List Meeting}
    (ht : Reader Tirke.sortKey (fun i => ((roots i).listing owner, int (limits i))) none (List.range (n + 1)) items) :
    Complete owner roots n items := by
  have hproper := proper_roots h.first h.next
  have hrange : ∀ i, i ∈ List.range (n + 1) ↔ i ≤ n := fun i => by rw [List.mem_range]; omega
  have hown : ∀ m ∈ items, ∃ i ≤ n, ∃ s ∈ roots i, s.home.ownerId = owner ∧ s.home.meetingId = m.id ∧
      s.readMeeting = .ok m := by
    intro m hm
    obtain ⟨-, i, hi, hin⟩ := Tour.sub ht hm
    obtain ⟨-, -, hmem⟩ := (hproper i).listing owner
    obtain ⟨s, hs, ho, hread⟩ := (hmem m).1 hin
    rcases ((hproper i).reached s hs).readMeeting with hnone | ⟨x, hx, hid⟩
    · cases hnone.symm.trans hread
    · cases hx.symm.trans hread
      exact ⟨i, (hrange i).1 hi, s, hs, ho, hid.symm, hread⟩
  have hdesc : Descending Tirke.sortKey items :=
    Tour.descending (fun i _ => ((hproper i).listing owner).2.1) ht
  -- a meeting has one key, so it occurs once
  have hkey : ∀ m ∈ items, ∀ m' ∈ items, m.id = m'.id → Tirke.sortKey m = Tirke.sortKey m' := by
    intro m hm m' hm' hid
    obtain ⟨i, -, s, hs, -, hsid, hread⟩ := hown m hm
    obtain ⟨i', -, s', hs', -, hsid', hread'⟩ := hown m' hm'
    rcases Nat.le_total i i' with hle | hle
    · exact ((changes_of_le h.next hle).sortKey (hproper i) hs hs' (by rw [hsid, hsid', hid]) hread hread').symm
    · exact (changes_of_le h.next hle).sortKey (hproper i') hs' hs (by rw [hsid, hsid', hid]) hread' hread
  have hdist : items.Pairwise fun m m' => m.id ≠ m'.id := by
    refine hdesc.imp_of_mem fun {m m'} hm hm' hlt he => ?_
    rw [hkey m hm m' hm' he] at hlt
    exact lt_irrefl _ hlt
  have hwhole : ∀ home : Home, home.ownerId = owner → (∀ i ≤ n, (roots i).shows home) →
      ∃! m, m ∈ items ∧ m.id = home.meetingId := by
    intro home ho hall
    have hshow : ∀ i ≤ n, ∃ m ∈ (roots i).listing owner, m.id = home.meetingId := by
      intro i hi
      obtain ⟨s, hs, rfl, m, hread⟩ := hall i hi
      obtain ⟨-, -, hmem⟩ := (hproper i).listing owner
      rcases ((hproper i).reached s hs).readMeeting with hnone | ⟨x, hx, hid⟩
      · cases hnone.symm.trans hread
      · exact ⟨x, (hmem x).2 ⟨s, hs, ho, hx⟩, hid⟩
    obtain ⟨s₀, hs₀, hhome₀, m₀, hread₀⟩ := hall 0 (Nat.zero_le n)
    have hkeys : ∀ i ∈ List.range (n + 1), ∃ x ∈ (roots i).listing owner, Tirke.sortKey x = Tirke.sortKey m₀ := by
      intro i hi
      obtain ⟨s, hs, hhome, m, hread⟩ := hall i ((hrange i).1 hi)
      obtain ⟨-, -, hmem⟩ := (hproper i).listing owner
      refine ⟨m, (hmem m).2 ⟨s, hs, by rw [hhome, ho], hread⟩, ?_⟩
      exact (changes_of_le h.next (Nat.zero_le i)).sortKey (hproper 0) hs₀ hs (by rw [hhome, hhome₀]) hread₀ hread
    obtain ⟨m, hm, hk⟩ := Tour.complete (fun i _ => ⟨((hproper i).listing owner).2.1, (int_limit (h.limits i)).1⟩)
      ht (k := Tirke.sortKey m₀) nofun hkeys
    have hid : ∀ x, Tirke.sortKey x = Tirke.sortKey m₀ → x.id = home.meetingId := by
      intro x hx
      have hid₀ : m₀.id = home.meetingId := by
        rcases ((hproper 0).reached s₀ hs₀).readMeeting with hnone | ⟨y, hy, hidy⟩
        · cases hnone.symm.trans hread₀
        · cases hy.symm.trans hread₀
          rw [hidy, hhome₀]
      rw [← hid₀]
      exact str_injective (congrArg (fun k => (ofLex k).2) hx)
    refine ⟨m, ⟨hm, hid m hk⟩, fun m' ⟨hm', hid'⟩ => ?_⟩
    by_contra hne
    have hsymm : Std.Symm fun m m' : Meeting => m.id ≠ m'.id := ⟨fun _ _ hne => hne.symm⟩
    exact hdist.forall hm' hm hne (hid'.trans (hid m hk).symm)
  refine ⟨hdesc, hdist, hown, hwhole, fun s hs ho ⟨m, hm⟩ hset hq => hwhole s.home ho fun i hi => ?_⟩
  obtain ⟨s', hs', hhome, hrun⟩ := (changes_of_le h.next (Nat.zero_le i)).site hs
  obtain ⟨t, ht, hthome, hrun'⟩ := (changes_of_le h.next hi).site hs'
  refine (changes_of_le h.next (Nat.zero_le i)).shows (hproper 0) hs hm hset hs' hhome ?_
  exact (hq t ht (hthome.trans hhome)).before (@Run.log _ s.home _ _ _ ((hproper 0).reached s hs) hrun)
    (@Run.log _ s'.home _ _ _ ((hproper i).reached s' hs') hrun')

/-- **The list of meetings is complete and free of duplicates.** -/
theorem pagination_is_complete {roots : Nat → DataRoot} {limits : Nat → Str} (h : Requests roots limits) (owner : UUID) :
    (∃ n items, Tour (serves owner) none ((List.range (n + 1)).map fun i => (roots i, limits i)) items ∧
      Complete owner roots n items) ∧
    ∀ answer : Nat → Option Str → Except RouteError MeetingPage,
      (∀ i c p, answer i c = .ok p → Tirke.listMeetings ((roots i).listMeetings owner) "100".toList c = .ok p) →
      ∀ fuel, queryFn answer fuel 0 none [] [] ≠ some (.error .repeatedCursor) := by
  have hproper := proper_roots h.first h.next
  constructor
  · have hkeys := finite_keys h.first h.next h.creations
    have hin : ∀ i, ∀ m ∈ (roots i).listing owner, Tirke.sortKey m ∈ hkeys.toFinset := by
      intro i m hm
      obtain ⟨-, -, hmem⟩ := (hproper i).listing owner
      obtain ⟨s, hs, -, hread⟩ := (hmem m).1 hm
      exact hkeys.mem_toFinset.2 ⟨i, s, hs, m, hread, rfl⟩
    obtain ⟨n, items, ht⟩ := exists_tour hkeys.toFinset (fun i => ((roots i).listing owner, int (limits i))) hin none 0
    rw [← List.range_eq_range'] at ht
    refine ⟨n, items, ?_, h.complete ht⟩
    refine @Tour.rename _ _ _ _ _ _ _ _ cursorOf Dated _ _ _ ht nofun fun i _ b p hb hp => ?_
    subst hp
    exact serves_page owner (hproper i) (h.dated i) (h.limits i) hb
  · intro answer ha fuel
    have h100 : Requests roots fun _ => "100".toList := ⟨h.first, h.next, h.creations, h.dated, fun _ => by decide⟩
    exact queryFn_advances h100 ha fuel 0 none [] [] nofun nofun

end

section
attribute [local instance] Sample.lib Sample.home

namespace Sample

/-- Two meetings at first, and a third from the second request on. -/
def growing : Nat → DataRoot
  | 0 => pair
  | _ + 1 => siteAs (sibling 4) :: pair

/-- A client that asks for one meeting at a time, while another one is created. -/
theorem browsing : Requests growing fun _ => "1".toList where
  first := changes_pair
  next := by
    rintro (_ | n)
    · exact changes_siteAs (by decide)
    · exact .refl
  creations := by
    refine ⟨3, ?_⟩
    rintro (_ | n)
    · decide
    · exact Nat.le_refl 3
  dated n s hs m hm := by
    have h : ∀ s ∈ growing 1, s.readMeeting.toOption.all (fun m => decide (m.createdAt < Calendar.limit)) = true := by
      decide +kernel
    have hs' : s ∈ growing 1 := by
      cases n with
      | zero => exact List.mem_cons_of_mem _ hs
      | succ n => exact hs
    have hd := h s hs'
    rw [hm] at hd
    exact of_decide_eq_true hd
  limits _ := by decide

end Sample

end

theorem pagination_is_complete_sample :
    let _ := Sample.lib
    (∃ n items, Tour (serves 1) none ((List.range (n + 1)).map fun i => (Sample.growing i, "1".toList)) items ∧
      Complete 1 Sample.growing n items) ∧
    ∀ answer : Nat → Option Str → Except RouteError MeetingPage,
      (∀ i c p, answer i c = .ok p → Tirke.listMeetings (DataRoot.listMeetings (Sample.growing i) 1) "100".toList c = .ok p) →
      ∀ fuel, queryFn answer fuel 0 none [] [] ≠ some (.error .repeatedCursor) :=
  @pagination_is_complete Sample.lib _ _ Sample.browsing 1

end Tirke
