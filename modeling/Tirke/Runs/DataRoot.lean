import Tirke.Theorems.Lifecycle
import Tirke.Routes.Meetings
/-!
# The data root: any number of meetings

A `Site` is one meeting folder with what is under way on it, and a `DataRoot` a list of sites, in the order in which a
directory happens to list them. Every site makes steps of its own (`Change.step`), and creations add sites under fresh ids.

`listed` is `list_meetings` (`artifact_store.py:317`) of an owner, in one instant and without I/O faults.
-/

set_option linter.unusedSectionVars false

namespace Tirke

open CrashProg CrashDisk

section
variable [Lib] [Home] {v v' : View} {r r' : MeetingRecord} {e : Event} {c c' : Config} {m : Meeting}

/-! ## A meeting stays in place -/

/-- The event takes no folder away. -/
def Event.gentle (e : Event) : Prop := e ≠ .power ∧ ∀ t, e ≠ .file (.renamed .folder t)

/-- What has happened since then took no folder away. -/
def gently (log log' : List Event) : Prop := ∃ since, log' = since ++ log ∧ ∀ e ∈ since, e.gentle

omit [Lib] [Home] in
theorem gently.before {log log₁ log₂ : List Event} (h : gently log log₂) (h₁ : log <:+ log₁) (h₂ : log₁ <:+ log₂) :
    gently log log₁ := by
  obtain ⟨since, hs, hg⟩ := h
  obtain ⟨since₁, rfl⟩ := h₁
  obtain ⟨since₂, rfl⟩ := h₂
  rw [← List.append_assoc] at hs
  exact ⟨since₁, rfl, fun e he => hg e (List.append_cancel_right hs ▸ List.mem_append_right _ he)⟩

omit [Lib] [Home] in
theorem gently.head {log log₁ : List Event} (h : gently log (e :: log₁)) (h₁ : log <:+ log₁) : e.gentle := by
  obtain ⟨since, hs, hg⟩ := h
  obtain ⟨since₁, rfl⟩ := h₁
  rw [← List.cons_append] at hs
  exact hg e (List.append_cancel_right hs ▸ List.mem_cons_self)

theorem Legal.stands (hl : Legal v e) (hr : v.run readRecord = .ok r) (ha : Tirke.running v.log ≠ none) (hg : e.gentle) :
    (v.after e).look (.folder, .meeting) ≠ none := by
  have hlook := readable_look hr
  have hreach := reach_iff.1 (readable_reach hr)
  have hvol : v.img.vol (.folder, .meeting) = some (.record r) := vol_of_look hlook
  -- no directory above the marker goes, and the marker does not
  have hkeep : ∀ f : FileEffect, (∀ d, v.img.slot d = .live → (v.img.apply f).slot d = .live) →
      (v.img.apply f).vol (.folder, .meeting) ≠ none → (v.after (.file f)).look (.folder, .meeting) ≠ none := by
    intro f hs hv
    have hr' : (v.after (.file f)).reach .folder = true := reach_iff.2 fun d hd => hs d (hreach d hd)
    rw [look_of_reach (p := marker) hr']
    exact hv
  have hlive : ∀ d d' : Dir, v.img.slot d' = .live → Function.update v.img.slot d .live d' = .live := by
    intro d d' hd'
    by_cases he : d' = d
    · rw [he, Function.update_self]
    · rw [Function.update_of_ne he]
      exact hd'
  have hput : ∀ p x, (v.after (.file (.put p x))).look (.folder, .meeting) ≠ none := by
    intro p x
    refine hkeep _ (fun _ h => h) ?_
    simp only [Images.apply, Function.update_apply]
    split
    · rintro ⟨⟩
    · rw [hvol]; rintro ⟨⟩
  have hdrop : ∀ n, n ≠ .meeting → (v.after (.file (.removed (.folder, n)))).look (.folder, .meeting) ≠ none := by
    intro n hn
    refine hkeep _ (fun _ h => h) ?_
    simp only [Images.apply]
    rw [Function.update_of_ne (fun he => hn (congrArg Prod.snd he).symm), hvol]
    rintro ⟨⟩
  have hsame : (v.note e).look (.folder, .meeting) ≠ none := by
    rw [look_note, hlook]
    rintro ⟨⟩
  cases hl with
  | synced d => exact hkeep _ (fun _ h => h) (by simp only [Images.apply]; rw [hvol]; rintro ⟨⟩)
  | made d | restored => exact hkeep _ (hlive _) (by simp only [Images.apply]; rw [hvol]; rintro ⟨⟩)
  | withdrawn hrun => exact absurd hrun ha
  | dropped r n x hr hs hx hn hname => exact hdrop n (by rintro rfl; simp [originals] at hname)
  | pdfDropped r n hr hn => exact hdrop n (by rcases hn with rfl | rfl <;> rintro ⟨⟩)
  | uploadDropped => exact hdrop .upload (by simp)
  | renamed r t => exact absurd rfl (hg.2 t)
  | wiped left hw =>
    rcases hw with hw | hw
    · exact absurd (hreach .folder (by simp [Dir.chain])) hw
    · rw [hvol] at hw
      cases hw
  | uploaded | born | moved | artifact | manifest | archived | snapshot | review | pdf | pdfMarker => exact hput _ _
  | _ => exact hsame

/-- No creation is under way. -/
def Config.settled (c : Config) : Prop := c.prog = none ∨ running c.world.log ≠ none

theorem Step.settled {rot : Prop} (h : Step rot c c') (hg : Good rot c) (hs : c.settled) : c'.settled := by
  by_cases hr : running c.world.log = none
  · -- a program under way would be the creation
    have hp : c.prog = none := hs.resolve_right (not_not.2 hr)
    cases h with
    | start w a => exact .inr nofun
    | op | returned | raised | killed => cases hp
    | power | waited | damaged => exact .inl rfl
  · rcases h.happens hg with he | hh
    · rw [Config.settled, show c'.world.log = c.world.log from congrArg View.log he]
      exact .inr hr
    · exact .inr (hh.running hr)

/-- **A meeting whose creation is over stays readable**, unless the power fails or it is deleted. -/
theorem Run.stands (h : Reach (Step False) c) (hr : c.world.view.run readRecord = .ok r) (hset : c.settled)
    (hs : Run False c c') (hq : gently c.world.log c'.world.log) :
    (∃ r', c'.world.view.run readRecord = .ok r') ∧ c'.settled := by
  induction hs with
  | refl => exact ⟨⟨r, hr⟩, hset⟩
  | @tail c₁ c₂ hs hstep ih =>
    have hr₁ : Reach (Step False) c₁ := h.trans hs
    have hg : Good False c₁ := reach_good (fun _ _ h => h) hr₁
    have hlog₁ : c.world.log <:+ c₁.world.log := Run.log h hs
    have hhead : ∀ e, c₂.world.log = e :: c₁.world.log → e.gentle := fun e he => (he ▸ hq).head hlog₁
    obtain ⟨⟨r₁, hread⟩, hset₁⟩ := ih (hq.before hlog₁ (hstep.log hg))
    refine ⟨?_, hstep.settled hg hset₁⟩
    have hnote : ∀ e : Event, ∃ r', (c₁.world.view.note e).run readRecord = .ok r' := by
      intro e
      rw [run_note readOnly_readRecord]
      exact ⟨r₁, hread⟩
    by_cases ha : running c₁.world.log = none
    · -- nothing is under way, so the files stay as they are
      have hp : c₁.prog = none := hset₁.resolve_right (not_not.2 ha)
      cases hstep with
      | op | returned | raised | killed => cases hp
      | start w a => exact hnote _
      | waited w t busy => exact ⟨r₁, hread⟩
      | power w p => exact absurd rfl (hhead .power rfl).1
      | damaged w n d hrot => exact hrot.elim
    · rcases hstep.happens hg with he | hh
      · rw [he]
        exact ⟨r₁, hread⟩
      have hi : Inv c₂.world.view := (hr₁.trans (.single hstep)).inv
      generalize hv : c₂.world.view = v₂ at hh hi ⊢
      have hlog₂ : c₂.world.log = v₂.log := congrArg View.log hv
      cases hh with
      | lawful e hl =>
        have he : e.gentle := hhead e (hlog₂.trans after_log)
        obtain ⟨d, hd⟩ := Option.ne_none_iff_exists'.1 (hl.stands hread ha he)
        obtain ⟨r', -, hr'⟩ := hi.readable hd
        exact ⟨r', hr'⟩
      | bounds e he => exact hnote e
      | power => exact absurd rfl (hhead .power hlog₂).1
      | damaged n d hrot => exact hrot.elim

/-! ## What is read at one instant -/

/-- `read_meeting` in one instant. -/
def World.readMeeting (w : World) : Except Exn Meeting := (host.eval .calm Tirke.readMeeting w).1

theorem Reach.readMeeting (h : Reach (Step False) c) :
    c.world.readMeeting = .error .meetingNotFound ∧ (∀ r, c.world.view.run readRecord ≠ .ok r) ∨
    ∃ r m, c.world.view.run readRecord = .ok r ∧ c.world.readMeeting = .ok m ∧ m.id = Home.meetingId ∧
      m.createdAt = r.meeting.createdAt := by
  have hi : Inv c.world.view := h.inv
  have hg : Good False c := reach_good (fun _ _ h => h) h
  have hshown : Shown (fun _ _ ch => ch = .calm) c.world.view c.world.readMeeting :=
    (((does_readMeeting (A := fun _ _ ch => ch = .calm) (L := fun _ _ => True)) c.world rfl hg.fit).eval .calm
      fun _ _ => rfl).2.2
  generalize c.world.readMeeting = out at hshown ⊢
  cases hshown with
  | shown r m b hr hm hb =>
    obtain ⟨-, -, -, hid⟩ := readRecord_ok.1 hr
    have hs : c.world.view.shown = .ok m := by
      simp only [View.shown, run_bind, hr, ok_bind]
      exact hm
    cases hs.symm.trans (hi.shown h.undamaged hr)
    have hsame := presented_same (m := r.meeting) (b := c.world.view.committed)
    exact .inr ⟨r, _, hr, rfl, hsame.id.trans hid, hsame.createdAt⟩
  | unreadable e he =>
    refine .inl ⟨?_, fun r hr => by rw [hr] at he; cases he⟩
    cases hl : c.world.view.look (.folder, .meeting) with
    | none =>
      simp only [readRecord, Prog.bind_eq, run_bind, run_missingAs, hl, error_bind] at he
      cases he
      rfl
    | some d =>
      obtain ⟨r, -, hr⟩ := hi.readable hl
      rw [hr] at he
      cases he
  | unshown r e hr hm =>
    have hs : c.world.view.shown = .error e := by
      simp only [View.shown, run_bind, hr, ok_bind]
      exact hm
    cases hs.symm.trans (hi.shown h.undamaged hr)
  | failed hf =>
    obtain ⟨w, o, ch, rfl, hfault⟩ := hf
    cases hfault

end

/-! ## Many meetings -/

structure Site where
  home : Home
  config : Config

abbrev DataRoot := List Site

section
variable [Lib] {s s' : Site} {d d' : DataRoot} {owner : UUID}

def Site.readMeeting (s : Site) : Except Exn Meeting :=
  let _ := s.home
  s.config.world.readMeeting

def Site.Reached (s : Site) : Prop :=
  let _ := s.home
  Reach (Step False) s.config

inductive Change : DataRoot → DataRoot → Prop where
  | step (pre post : DataRoot) (s s' : Site) (hh : s'.home = s.home)
      (hs : let _ := s.home; Step False s.config s'.config) : Change (pre ++ s :: post) (pre ++ s' :: post)
  /-- `uuid4()` is a new id. -/
  | created (d : DataRoot) (s : Site) (hi : let _ := s.home; Initial s.config)
      (hf : ∀ s' ∈ d, s'.home.meetingId ≠ s.home.meetingId) : Change d (s :: d)
  | listed (d d' : DataRoot) (h : d.Perm d') : Change d d'

abbrev Changes : DataRoot → DataRoot → Prop := Relation.ReflTransGen Change

/-- `for folder in parent.iterdir()` of `list_meetings`. -/
def readMeetings (owner : UUID) : DataRoot → Except Exn (List Meeting)
  | [] => .ok []
  | s :: d =>
    if s.home.ownerId = owner then match s.readMeeting with
      | .ok m => (readMeetings owner d).map (m :: ·)
      | .error .meetingNotFound => readMeetings owner d
      | .error e => .error e
    else readMeetings owner d

def DataRoot.listMeetings (d : DataRoot) (owner : UUID) : Except Exn (List Meeting) := (readMeetings owner d).map sorted

/-- What holds of every data root. -/
structure Proper (d : DataRoot) : Prop where
  reached : ∀ s ∈ d, s.Reached
  distinct : d.Pairwise fun s s' => s.home.meetingId ≠ s'.home.meetingId

theorem Change.proper (h : Change d d') (hp : Proper d) : Proper d' := by
  cases h with
  | step pre post s s' hh hs =>
    refine ⟨fun s₁ hs₁ => ?_, ?_⟩
    · rcases List.mem_append.1 hs₁ with hs₁ | hs₁
      · exact hp.reached s₁ (List.mem_append_left _ hs₁)
      · rcases List.mem_cons.1 hs₁ with rfl | hs₁
        · have hreach : s.Reached := hp.reached s (by simp)
          unfold Site.Reached at hreach ⊢
          rw [hh]
          let _ := s.home
          exact Reach.trans hreach (.single hs)
        · exact hp.reached s₁ (by simp [hs₁])
    · have hd := hp.distinct
      simp only [List.pairwise_append, List.pairwise_cons, List.mem_cons] at hd ⊢
      rw [hh]
      obtain ⟨hpre, ⟨hs, hpost⟩, hcross⟩ := hd
      refine ⟨hpre, ⟨hs, hpost⟩, fun a ha b hb => ?_⟩
      rcases hb with rfl | hb
      · rw [hh]
        exact hcross a ha s (.inl rfl)
      · exact hcross a ha b (.inr hb)
  | created d s hi hf =>
    refine ⟨List.forall_mem_cons.2 ⟨⟨_, hi, .refl⟩, hp.reached⟩, List.pairwise_cons.2 ⟨fun s' hs' => ?_, hp.distinct⟩⟩
    exact (hf s' hs').symm
  | listed d d' h =>
    exact ⟨fun s hs => hp.reached s (h.mem_iff.2 hs), (h.pairwise_iff fun hne => hne.symm).1 hp.distinct⟩

theorem Changes.proper (h : Changes d d') (hp : Proper d) : Proper d' := by
  induction h with
  | refl => exact hp
  | tail _ hc ih => exact hc.proper ih

theorem Proper.eq (hp : Proper d) (hs : s ∈ d) (hs' : s' ∈ d) (hid : s.home.meetingId = s'.home.meetingId) : s = s' := by
  have hsymm : Std.Symm fun s s' : Site => s.home.meetingId ≠ s'.home.meetingId := ⟨fun _ _ h => h.symm⟩
  by_contra hne
  exact hp.distinct.forall hs hs' hne hid

/-- A site is where it was, and has only made steps of its own. -/
theorem Changes.site (h : Changes d d') (hs : s ∈ d) :
    ∃ s' ∈ d', s'.home = s.home ∧ (let _ := s.home; Run False s.config s'.config) := by
  induction h with
  | refl => exact ⟨s, hs, rfl, .refl⟩
  | @tail d₁ d₂ _ hc ih =>
    obtain ⟨s₁, hs₁, hh₁, hrun⟩ := ih
    cases hc with
    | step pre post t t' hh ht =>
      rcases List.mem_append.1 hs₁ with hs₁ | hs₁
      · exact ⟨s₁, List.mem_append_left _ hs₁, hh₁, hrun⟩
      · rcases List.mem_cons.1 hs₁ with rfl | hs₁
        · refine ⟨t', by simp, hh.trans hh₁, ?_⟩
          rw [hh₁] at ht
          exact hrun.tail ht
        · exact ⟨s₁, by simp [hs₁], hh₁, hrun⟩
    | created _ t => exact ⟨s₁, List.mem_cons_of_mem _ hs₁, hh₁, hrun⟩
    | listed _ _ hperm => exact ⟨s₁, hperm.mem_iff.1 hs₁, hh₁, hrun⟩

/-! ## The listing of an owner -/

/-- A site shows a meeting of its own, or none. -/
theorem Site.Reached.readMeeting (h : s.Reached) :
    s.readMeeting = .error .meetingNotFound ∨ ∃ m, s.readMeeting = .ok m ∧ m.id = s.home.meetingId := by
  let _ := s.home
  rcases Reach.readMeeting h with ⟨hnone, -⟩ | ⟨r, m, -, hm, hid, -⟩
  · exact .inl hnone
  · exact .inr ⟨m, hm, hid⟩

theorem readMeetings_ok (owner : UUID) (h : ∀ s ∈ d, s.Reached) : ∃ ms, readMeetings owner d = .ok ms ∧
    (∀ m, m ∈ ms ↔ ∃ s ∈ d, s.home.ownerId = owner ∧ s.readMeeting = .ok m) ∧
    (d.Pairwise (fun s s' => s.home.meetingId ≠ s'.home.meetingId) → ms.Pairwise fun m m' => m.id ≠ m'.id) := by
  induction d with
  | nil => exact ⟨[], rfl, by simp, fun _ => .nil⟩
  | cons s d ih =>
    obtain ⟨ms, hms, hmem, hdist⟩ := ih fun s' hs' => h s' (List.mem_cons_of_mem _ hs')
    by_cases ho : s.home.ownerId = owner
    · rcases (h s List.mem_cons_self).readMeeting with hread | ⟨m, hread, hid⟩
      · refine ⟨ms, by simp only [readMeetings, if_pos ho, hread, hms], fun m => ?_, fun hp => hdist (List.pairwise_cons.1 hp).2⟩
        simp [hmem, hread]
      · refine ⟨m :: ms, by simp only [readMeetings, if_pos ho, hread, hms]; rfl, fun m' => ?_, fun hp => ?_⟩
        · simp [hmem, hread, ho, eq_comm]
        · obtain ⟨hs, hp⟩ := List.pairwise_cons.1 hp
          refine List.pairwise_cons.2 ⟨fun m' hm' => ?_, hdist hp⟩
          obtain ⟨s', hs', -, hread'⟩ := (hmem m').1 hm'
          rcases (h s' (List.mem_cons_of_mem _ hs')).readMeeting with hx | ⟨x, hx, hid'⟩
          · cases hx.symm.trans hread'
          · cases hx.symm.trans hread'
            rw [hid, hid']
            exact hs s' hs'
    · refine ⟨ms, by simp only [readMeetings, if_neg ho, hms], fun m => ?_, fun hp => hdist (List.pairwise_cons.1 hp).2⟩
      simp [hmem, ho]

/-- **The listing of an owner**: the meetings that show on that owner's sites, in strictly decreasing order. -/
theorem Proper.listed (hp : Proper d) (owner : UUID) : ∃ ms, d.listMeetings owner = .ok ms ∧ Keyset.Descending sortKey ms ∧
    ∀ m, m ∈ ms ↔ ∃ s ∈ d, s.home.ownerId = owner ∧ s.readMeeting = .ok m := by
  obtain ⟨ms, hms, hmem, hdist⟩ := readMeetings_ok owner hp.reached
  refine ⟨sorted ms, by rw [DataRoot.listMeetings, hms]; rfl, ?_, fun m => by rw [← hmem]; exact List.mem_mergeSort⟩
  have hle : (sorted ms).Pairwise fun m m' => sortKey m' ≤ sortKey m := by
    have h := @List.pairwise_mergeSort _ (fun m m' : Meeting => decide (sortKey m' ≤ sortKey m))
      (fun a b c hab hbc => by simp only [decide_eq_true_eq] at hab hbc ⊢; exact le_trans hbc hab)
      (fun a b => by simp only [Bool.or_eq_true, decide_eq_true_eq]; exact le_total _ _) ms
    exact h.imp fun h => of_decide_eq_true h
  have hne : (sorted ms).Pairwise fun m m' => m.id ≠ m'.id :=
    ((List.mergeSort_perm ms _).pairwise_iff fun hne => hne.symm).2 (hdist hp.distinct)
  refine (hle.and hne).imp fun {m m'} h => lt_of_le_of_ne h.1 fun he => h.2 ?_
  exact (str_injective (congrArg (fun k => (ofLex k).2) he)).symm

end

namespace Sample

section
attribute [local instance] lib

def siteAs (k : Home) : Site := ⟨k, createdAs k⟩

/-- A meeting is created beside others. -/
theorem changes_siteAs {d : DataRoot} {k : Home} (hf : ∀ s ∈ d, s.home.meetingId ≠ k.meetingId) :
    Changes d (siteAs k :: d) := by
  let _ := k
  have hrun : ∀ c c' : Config, Run False c c' → Changes (⟨k, c⟩ :: d) (⟨k, c'⟩ :: d) := by
    intro c c' h
    induction h with
    | refl => exact .refl
    | tail _ hs ih => exact ih.tail (.step [] d ⟨k, _⟩ ⟨k, _⟩ rfl hs)
  exact (Relation.ReflTransGen.single (.created d ⟨k, creationOf k⟩ (initial_of k) hf)).trans
    (hrun (creationOf k) (createdAs k) (run_cues (.inr rfl)))

/-- Two meetings of one owner. -/
def pair : DataRoot := [siteAs (sibling 3), siteAs home]

theorem changes_pair : Changes [] pair := by
  have hfirst : Changes [] [siteAs home] := changes_siteAs (by simp)
  exact hfirst.trans (changes_siteAs (by decide))

theorem proper_pair : Proper pair := changes_pair.proper ⟨by simp, .nil⟩

end

end Sample

end Tirke
