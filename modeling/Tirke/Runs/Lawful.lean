import Tirke.Spec.Frame
/-!
# Lawful lives of a folder

`Happens` is one thing that may befall a meeting folder: a lawful change or message, a use of the meeting that
begins or ends, a power failure, and, where `rot` says so, damage to a stored result behind the services'
back. What a program under way may still do is not part of it, so everything proved of such lives holds of
the services' runs, whatever stops them (`Runs/System.lean`).

A property of the folder's content has to hold of two copies: what the names show, and what they would show
after a power failure. `commits` keeps for each copy the history of its marker, and `Holds P` states `P` of both.
`Holds.step` is the one induction step all invariants share: `Stable P` asks only for what a lawful change does
to the copy it changes.
-/

set_option linter.unusedSectionVars false

namespace Tirke

open CrashProg CrashDisk

variable [Lib] [Home] [Weather] {v v' : View} {e : Event} {rot : Prop}

/-! ## What may happen -/

/-- The view after an event that was allowed in it. -/
def View.after (v : View) : Event → View
  | .file e => v.change e
  | e => v.note e

@[simp] theorem after_file {e : FileEffect} : v.after (.file e) = v.change e := rfl
@[simp] theorem after_log : (v.after e).log = e :: v.log := by cases e <;> rfl
@[simp] theorem after_asked {q : Request} {a : Response} : v.after (.asked q a) = v.note (.asked q a) := rfl
@[simp] theorem after_responded {b : Bytes} : v.after (.responded b) = v.note (.responded b) := rfl

def View.restarted (v : View) : View := ⟨v.img.power, .power :: v.log⟩

/-- The results `read_results` checks the hashes of. -/
def resultNames : List Name := [.transcript, .insights, .text]

def View.damaged (v : View) (n : Name) (d : Option Doc) : View := ⟨v.img.damage (.folder, n) d, .damaged n d :: v.log⟩

/-- A request is validated before the service is called. -/
def Action.valid : Action → Prop
  | .updateReview q => q.valid = true
  | _ => True

/-- The event says that a use of the meeting begins or ends. -/
def Event.bounds : Event → Prop
  | .started a => a.valid
  | .finished _ | .killed => True
  | _ => False

inductive Happens (rot : Prop) (v : View) : View → Prop where
  | lawful (e : Event) (h : Legal v e) : Happens rot v (v.after e)
  | bounds (e : Event) (h : e.bounds) : Happens rot v (v.note e)
  | power : Happens rot v v.restarted
  | damaged (n : Name) (d : Option Doc) (h : rot) (hn : n ∈ resultNames) (hl : (v.look (.folder, n)).isSome = true) :
      Happens rot v (v.damaged n d)

/-! ## How a life begins -/

/-- Nothing has been stored yet. -/
structure Blank (v : View) : Prop where
  files : ∀ q, v.img.vol q = none ∧ v.img.dur q = none
  above : v.img.slotDur .above = .live
  plain : ∀ d t, v.img.slot d ≠ .moved t ∧ v.img.slotDur d ≠ .moved t
  log : v.log = []

/-- The record an older build wrote: it does not say whether its job was sent. -/
def MeetingRecord.legacy (metadata : MeetingMetadata) (t : Time) (kind : PublicSourceKind) (hours : Nat)
    (audio : Bytes) (extension : Option AudioExtension) : MeetingRecord :=
  { MeetingRecord.new (Meeting.new metadata t kind hours) audio extension with jobs := [.new 1 none] }

def legacyFiles (r : MeetingRecord) (audio : Bytes) (q : Path) : Option Doc :=
  if q = (.folder, .meeting) then some (.record r) else if q = (.folder, .upload) then some (.blob audio) else none

/-- What the older build did: it stored the meeting, and may have sent its audio in one run that was interrupted. -/
def legacyLog (r : MeetingRecord) (audio : Bytes) (answers : List Response) : List Event :=
  .killed :: answers.map (fun a => .asked (.submit (r.meeting.id, r.meeting.attempt)
      (r.context (Lib.sha256 (.blob audio))) (.blob audio) r.audioExtension) a) ++
    [.started .processOnce, .file (.synced .folder), .file (.put (.folder, .meeting) (.record r)),
      .file (.put (.folder, .upload) (.blob audio))]

/-- A meeting of an older build, from before `submit_started` existed (`meeting.py:136`). -/
structure Legacy (v : View) (r : MeetingRecord) (audio : Bytes) : Prop where
  isNew : ∃ metadata t kind hours extension, metadata.valid Lib.validTimezone = true ∧
    r = MeetingRecord.legacy metadata t kind hours audio extension
  files : v.img.vol = legacyFiles r audio ∧ v.img.dur = legacyFiles r audio
  rooted : v.Rooted .folder
  plain : ∀ d t, v.img.slot d ≠ .moved t ∧ v.img.slotDur d ≠ .moved t
  log : ∃ answers, v.log = legacyLog r audio answers

inductive Life (rot : Prop) : View → Prop where
  | blank {v : View} (h : Blank v) : Life rot v
  | legacy {v : View} {r : MeetingRecord} {audio : Bytes} (h : Legacy v r audio) : Life rot v
  | step {v v' : View} (h : Life rot v) (hh : Happens rot v v') : Life rot v'

/-! ## Commits -/

/-- A record that was written to the marker, and by whom. -/
structure Commit where
  author : Option Action
  record : MeetingRecord

abbrev History := List Commit

/-- The history of the marker as it shows, and of the marker as it is durable. A creation begins a new one. -/
def commits : List Event → History × History
  | [] => ([], [])
  | e :: log =>
    match e.marked with
    | some r => (⟨running log, r⟩ :: if (running log).isSome then (commits log).1 else [], (commits log).2)
    | none => match e with
      | .file (.synced .folder) => ((commits log).1, (commits log).1)
      | .power => ((commits log).2, (commits log).2)
      | _ => commits log

def View.hist (v : View) : History := (commits v.log).1
def View.kept (v : View) : History := (commits v.log).2

section
variable {log : List Event}

theorem commits_marked {r : MeetingRecord} :
    commits (.file (.put (.folder, .meeting) (.record r)) :: log) =
      (⟨running log, r⟩ :: if (running log).isSome then (commits log).1 else [], (commits log).2) := rfl

theorem commits_synced : commits (.file (.synced .folder) :: log) = ((commits log).1, (commits log).1) := rfl

theorem commits_power : commits (.power :: log) = ((commits log).2, (commits log).2) := rfl

/-- The event does not concern the marker. -/
def Event.silent (e : Event) : Prop := e.marked = none ∧ e ≠ .file (.synced .folder) ∧ e ≠ .power

theorem commits_silent (h : e.silent) : commits (e :: log) = commits log := by
  obtain ⟨hm, hs, hp⟩ := h
  simp only [commits, hm]

theorem silent_put {p : Path} {x : Doc} (h : p ≠ (.folder, .meeting)) : (Event.file (.put p x)).silent := by
  refine ⟨?_, nofun, nofun⟩
  unfold Event.marked
  split
  · next he => cases he; exact absurd rfl h
  · rfl

theorem silent_synced {d : Dir} (h : d ≠ .folder) : (Event.file (.synced d)).silent :=
  ⟨rfl, fun he => by cases he; exact h rfl, nofun⟩

end

/-! ## Two copies of a property -/

/-- The files of the folder, as they show and as they are durable. -/
def View.files (v : View) (n : Name) : Option Doc := v.img.vol (.folder, n)
def View.backup (v : View) (n : Name) : Option Doc := v.img.dur (.folder, n)

/-- The folder is in place, or was moved aside a moment ago. -/
def View.inPlay (v : View) : Prop := v.img.slot .folder = .live ∨ ∃ t log, v.log = .file (.renamed .folder t) :: log

abbrev Property := View → History → (Name → Option Doc) → Prop

structure Holds (P : Property) (v : View) : Prop where
  now : v.inPlay → P v v.hist v.files
  later : P v v.kept v.backup

/-- What keeps a property of both copies: `I` is what is known of the view already. -/
structure Stable (I : View → Prop) (P : Property) : Prop where
  absent : ∀ {v h f}, f .meeting = none → P v h f
  /-- A copy that the event leaves alone. -/
  frozen : ∀ {v e h f}, I v → Legal v e → f = v.files ∧ v.inPlay ∨ f = v.backup → P v h f → P (v.after e) h f
  bounds : ∀ {v e h f}, I v → e.bounds → P v h f → P (v.note e) h f
  power : ∀ {v}, I v → P v v.kept v.backup → P v.restarted v.kept v.backup
  damaged : ∀ {v n d h f}, I v → n ∈ resultNames → P v h f → P (v.damaged n d) h (Function.update f n d)
  put : ∀ {v n x}, I v → Legal v (.file (.put (.folder, n) x)) → n ≠ .meeting → v.inPlay → P v v.hist v.files →
    P (v.put (.folder, n) x) v.hist (Function.update v.files n (some x))
  removed : ∀ {v n}, I v → Legal v (.file (.removed (.folder, n))) → n ≠ .meeting → v.inPlay → P v v.hist v.files →
    P (v.drop (.folder, n)) v.hist (Function.update v.files n none)
  moved : ∀ {v r r'}, I v → v.run readRecord = .ok r → r'.ok = true → Move v r r' → running v.log ≠ none →
    P v v.hist v.files → P (v.put (.folder, .meeting) (.record r')) (⟨running v.log, r'⟩ :: v.hist)
      (Function.update v.files .meeting (some (.record r')))
  born : ∀ {v r}, I v → Legal v (.file (.put (.folder, .meeting) (.record r))) → running v.log = none → v.Void →
    P (v.put (.folder, .meeting) (.record r)) [⟨none, r⟩]
      (Function.update v.files .meeting (some (.record r)))

theorem inPlay_of_live (h : v.img.slot .folder = .live) : v.inPlay := .inl h

theorem live_of_reach {d : Dir} (h : v.reach d = true) (hd : Dir.folder ∈ d.chain) : v.img.slot .folder = .live :=
  reach_iff.1 h _ hd

/-- Before any event but a renaming, a folder that is in play after it was in place. -/
theorem inPlay_before {w : View} {log : List Event} (h : w.inPlay) (hl : w.log = e :: log)
    (hs : w.img.slot .folder = v.img.slot .folder) (he : ∀ t, e ≠ .file (.renamed .folder t)) : v.inPlay := by
  rcases h with h | ⟨t, log', h⟩
  · exact .inl (hs.symm.trans h)
  · rw [hl] at h
    cases h
    exact absurd rfl (he t)

theorem commits_legacy {r : MeetingRecord} {audio : Bytes} {answers : List Response} :
    commits (legacyLog r audio answers) = ([⟨none, r⟩], [⟨none, r⟩]) := by
  have : ∀ as : List Event, (∀ e ∈ as, e.silent) → ∀ log, commits (as ++ log) = commits log := by
    intro as
    induction as with
    | nil => exact fun _ _ => rfl
    | cons a as ih =>
      intro h log
      rw [List.cons_append, commits_silent (h a List.mem_cons_self)]
      exact ih (fun e he => h e (List.mem_cons_of_mem _ he)) log
  rw [legacyLog, List.cons_append, commits_silent (e := .killed) ⟨rfl, nofun, nofun⟩, this _ fun e he => ?_]
  · rfl
  · obtain ⟨a, -, rfl⟩ := List.mem_map.1 he
    exact ⟨rfl, nofun, nofun⟩

namespace Holds
variable {I : View → Prop} {P : Property}

/-- Nothing is asserted of a folder without a marker. -/
theorem absent (hs : Stable I P) (hv : v.Void) : Holds P v := ⟨fun _ => hs.absent hv.1, hs.absent hv.2⟩

theorem blank (hs : Stable I P) (h : Blank v) : Holds P v := absent hs (h.files _)

theorem legacy {r : MeetingRecord} {audio : Bytes} (h : Legacy v r audio)
    (hp : P v [⟨none, r⟩] fun n => legacyFiles r audio (.folder, n)) : Holds P v := by
  obtain ⟨answers, hl⟩ := h.log
  have hc : commits (legacyLog r audio answers) = _ := commits_legacy
  refine ⟨fun _ => ?_, ?_⟩
  · rw [View.hist, hl, hc, show v.files = _ from congrArg (fun f : Path → Option Doc => fun n => f (.folder, n)) h.files.1]
    exact hp
  · rw [View.kept, hl, hc, show v.backup = _ from congrArg (fun f : Path → Option Doc => fun n => f (.folder, n)) h.files.2]
    exact hp

/-- An event that leaves both copies alone, or takes the marker away. -/
theorem silent (hs : Stable I P) (hi : I v) (hl : Legal v e) (h : Holds P v) (he : e.silent)
    (hb : (v.after e).backup = v.backup)
    (hf : (v.after e).inPlay → (v.after e).files .meeting = none ∨ (v.after e).files = v.files ∧ v.inPlay) :
    Holds P (v.after e) := by
  have hh : commits (v.after e).log = commits v.log := by rw [after_log]; exact commits_silent he
  refine ⟨fun hp => ?_, ?_⟩
  · rcases hf hp with hf | ⟨hf, hp'⟩
    · exact hs.absent hf
    · rw [View.hist, hh, hf]
      exact hs.frozen hi hl (.inl ⟨rfl, hp'⟩) (h.now hp')
  · rw [View.kept, hh, hb]
    exact hs.frozen hi hl (.inr rfl) h.later

theorem files_put {n : Name} {x : Doc} : (v.put (.folder, n) x).files = Function.update v.files n (some x) := by
  funext m
  simp only [View.files, View.put, View.change_img, Images.apply, Function.update]
  by_cases hm : m = n <;> simp [hm]

theorem files_drop {n : Name} : (v.drop (.folder, n)).files = Function.update v.files n none := by
  funext m
  simp only [View.files, View.drop, View.change_img, Images.apply, Function.update]
  by_cases hm : m = n <;> simp [hm]

/-- A file of the folder other than the marker is written. -/
theorem put (hs : Stable I P) (hi : I v) (h : Holds P v) {n : Name} {x : Doc}
    (hl : Legal v (.file (.put (.folder, n) x))) (hn : n ≠ .meeting) : Holds P (v.put (.folder, n) x) := by
  have hne : ((.folder, n) : Path) ≠ (.folder, .meeting) := fun he => hn (congrArg Prod.snd he)
  have hh : commits (v.put (.folder, n) x).log = commits v.log := commits_silent (silent_put hne)
  refine ⟨fun hp => ?_, ?_⟩
  · have hp' : v.inPlay := inPlay_before hp rfl rfl nofun
    rw [View.hist, hh, files_put]
    exact hs.put hi hl hn hp' (h.now hp')
  · rw [View.kept, hh]
    exact hs.frozen hi hl (.inr rfl) h.later

theorem removed (hs : Stable I P) (hi : I v) (h : Holds P v) {n : Name}
    (hl : Legal v (.file (.removed (.folder, n)))) (hn : n ≠ .meeting) : Holds P (v.drop (.folder, n)) := by
  have hh : commits (v.drop (.folder, n)).log = commits v.log := commits_silent ⟨rfl, nofun, nofun⟩
  refine ⟨fun hp => ?_, ?_⟩
  · have hp' : v.inPlay := inPlay_before hp rfl rfl nofun
    rw [View.hist, hh, files_drop]
    exact hs.removed hi hl hn hp' (h.now hp')
  · rw [View.kept, hh]
    exact hs.frozen hi hl (.inr rfl) h.later

/-- The marker is written. -/
theorem marked (hs : Stable I P) (hi : I v) (h : Holds P v) {r : MeetingRecord}
    (hl : Legal v (.file (.put (.folder, .meeting) (.record r))))
    (now : v.inPlay → P v v.hist v.files → P (v.put (.folder, .meeting) (.record r))
      (⟨running v.log, r⟩ :: if (running v.log).isSome then v.hist else [])
      (Function.update v.files .meeting (some (.record r)))) : Holds P (v.put (.folder, .meeting) (.record r)) := by
  refine ⟨fun hp => ?_, ?_⟩
  · have hp' : v.inPlay := inPlay_before hp rfl rfl nofun
    rw [files_put]
    exact now hp' (h.now hp')
  · exact hs.frozen hi hl (.inr rfl) h.later

theorem synced (hs : Stable I P) (hi : I v) (h : Holds P v) {d : Dir} (hr : v.reach d = true) : Holds P (v.sync d) := by
  have hl : Legal v (.file (.synced d)) := .synced d hr
  have hplay : (v.sync d).inPlay → v.inPlay := fun hp => inPlay_before hp rfl rfl nofun
  by_cases hd : d = .folder
  · subst hd
    have hp : v.inPlay := inPlay_of_live (live_of_reach hr (by simp [Dir.chain]))
    have hb : (v.sync .folder).backup = v.files := by
      funext n
      exact dur_sync_self (q := ((.folder, n) : Path))
    have := hs.frozen hi hl (.inl ⟨rfl, hp⟩) (h.now hp)
    exact ⟨fun _ => this, by rw [hb]; exact this⟩
  · refine silent hs hi hl h (silent_synced hd) ?_ fun hp => .inr ⟨rfl, hplay hp⟩
    funext n
    simp only [View.backup, after_file, View.change_img, Images.apply]
    exact if_neg fun he => hd he.symm

/-- **One step.** -/
theorem step (hs : Stable I P) (hi : I v) (h : Holds P v) (hh : Happens rot v v') : Holds P v' := by
  cases hh with
  | bounds e he =>
    have hsil : e.silent := by
      cases e with
      | file _ | power => exact he.elim
      | _ => exact ⟨rfl, (by simp), (by simp)⟩
    have hc : commits (v.note e).log = commits v.log := commits_silent hsil
    refine ⟨fun hp => ?_, ?_⟩
    · have hp' : v.inPlay := inPlay_before hp rfl rfl fun t ht => by subst ht; exact he.elim
      rw [View.hist, hc]
      exact hs.bounds hi he (h.now hp')
    · rw [View.kept, hc]
      exact hs.bounds hi he h.later
  | power => exact ⟨fun _ => hs.power hi h.later, hs.power hi h.later⟩
  | damaged n d _ hn hl =>
    have hc : commits (v.damaged n d).log = commits v.log := commits_silent ⟨rfl, (by simp), (by simp)⟩
    have hupd : ∀ g : Path → Option Doc, (fun m => Function.update g (.folder, n) d (.folder, m)) =
        Function.update (fun m => g (.folder, m)) n d := by
      intro g
      funext m
      by_cases hm : m = n <;> simp [Function.update, hm]
    refine ⟨fun hp => ?_, ?_⟩
    · have hp' : v.inPlay := inPlay_before hp rfl rfl (by simp)
      rw [View.hist, hc, show (v.damaged n d).files = Function.update v.files n d from hupd v.img.vol]
      exact hs.damaged hi hn (h.now hp')
    · rw [View.kept, hc, show (v.damaged n d).backup = Function.update v.backup n d from hupd v.img.dur]
      exact hs.damaged hi hn h.later
  | lawful e hl =>
    cases hl with
    | synced d hr => exact synced hs hi h hr
    | made d hd =>
      refine silent hs hi (.made d hd) h ⟨rfl, (by simp), (by simp)⟩ rfl fun hp => ?_
      rcases hd with hd | hd
      · refine .inr ⟨rfl, inPlay_before hp rfl ?_ (by simp)⟩
        simp [Images.apply, Function.update, hd.symm]
      · exact .inl hd.1.1
    | uploaded x hv hr hd =>
      refine absent hs ⟨?_, hv.2⟩
      simp only [after_file, View.change_img, Images.apply]
      rw [Function.update_of_ne (by decide)]
      exact hv.1
    | born metadata t kind hours audio extension hm hv hr hu ho hd hw =>
      have hl := Legal.born metadata t kind hours audio extension hm hv hr hu ho hd hw
      refine marked hs hi h hl fun hp _ => ?_
      rw [hr]
      exact hs.born hi hl hr hv
    | withdrawn hr =>
      refine silent hs hi (.withdrawn hr) h ⟨rfl, (by simp), (by simp)⟩ rfl fun _ => .inl ?_
      simp [View.files, Images.apply]
    | moved r r' hr hok hm ha =>
      refine marked hs hi h (.moved r r' hr hok hm ha) fun hp hP => ?_
      rw [if_pos (Option.isSome_iff_ne_none.2 ha)]
      exact hs.moved hi hr hok hm ha hP
    | artifact r b n x hp hst hx hn =>
      refine put hs hi h (.artifact r b n x hp hst hx hn) fun he => ?_
      subst he
      simp [ResultBundleV1.artifacts] at hx
    | manifest r b hp hst hb ha hd => exact put hs hi h (.manifest r b hp hst hb ha hd) (by simp)
    | archived r n x hr hst hx hn hname =>
      have hne : ((.attempt r.meeting.attempt, n) : Path) ≠ (.folder, .meeting) := by simp
      refine silent hs hi (.archived r n x hr hst hx hn hname) h (silent_put hne) rfl fun hp => .inr ⟨?_, ?_⟩
      · funext m
        simp only [View.files, after_file, View.change_img, Images.apply]
        exact Function.update_of_ne (by simp) _ _
      · exact inPlay_of_live (live_of_reach (reach_of_look hx) (by simp [Dir.chain]))
    | dropped r n x hr hst hx hn hname hfirst =>
      refine removed hs hi h (.dropped r n x hr hst hx hn hname hfirst) fun he => ?_
      subst he
      simp [originals] at hname
    | snapshot r s hr hst => exact put hs hi h (.snapshot r s hr hst) (by simp)
    | review x => exact put hs hi h (.review x) (by simp)
    | pdf r t i hr hst hc => exact put hs hi h (.pdf r t i hr hst hc) (by simp)
    | pdfMarker r t i hr hst hc => exact put hs hi h (.pdfMarker r t i hr hst hc) (by simp)
    | pdfDropped r n hr hn =>
      refine removed hs hi h (.pdfDropped r n hr hn) ?_
      rintro rfl
      rcases hn with hn | hn <;> cases hn
    | uploadDropped r hr hc => exact removed hs hi h (.uploadDropped r hr hc) (by simp)
    | renamed r t hr hc hj hu hq =>
      exact silent hs hi (.renamed r t hr hc hj hu hq) h ⟨rfl, (by simp), (by simp)⟩ rfl fun _ =>
        .inr ⟨rfl, inPlay_of_live (live_of_reach (readable_reach hr) (by simp [Dir.chain]))⟩
    | restored t log ht =>
      exact silent hs hi (.restored t log ht) h ⟨rfl, (by simp), (by simp)⟩ rfl fun _ => .inr ⟨rfl, .inr ⟨t, log, ht⟩⟩
    | wiped left hw hr =>
      refine silent hs hi (.wiped left hw hr) h ⟨rfl, (by simp), (by simp)⟩ rfl fun hp => .inl ?_
      have hlive : (v.img.apply (.wiped .folder left)).slot .folder = .live := by
        rcases hp with hp | ⟨t, log, hp⟩
        · exact hp
        · cases hp
      cases left with
      | none => simp [Images.apply] at hlive
      | some left =>
        have hm : v.img.vol (.folder, .meeting) = none := hw.resolve_left fun hne => hne hlive
        simp only [View.files, after_file, View.change_img, Images.apply, hm]
        split
        · split <;> rfl
        · rfl
    | submit key context audio suffix a r job sha hsub =>
      exact silent hs hi (.submit key context audio suffix a r job sha hsub) h ⟨rfl, (by simp), (by simp)⟩ rfl fun hp =>
        .inr ⟨rfl, inPlay_before hp rfl rfl (by simp)⟩
    | getJob id a =>
      exact silent hs hi (.getJob id a) h ⟨rfl, (by simp), (by simp)⟩ rfl fun hp =>
        .inr ⟨rfl, inPlay_before hp rfl rfl (by simp)⟩
    | getJobByKey key a =>
      exact silent hs hi (.getJobByKey key a) h ⟨rfl, (by simp), (by simp)⟩ rfl fun hp =>
        .inr ⟨rfl, inPlay_before hp rfl rfl (by simp)⟩
    | getResult id a =>
      exact silent hs hi (.getResult id a) h ⟨rfl, (by simp), (by simp)⟩ rfl fun hp =>
        .inr ⟨rfl, inPlay_before hp rfl rfl (by simp)⟩
    | ack id hash a m t i hack =>
      exact silent hs hi (.ack id hash a m t i hack) h ⟨rfl, (by simp), (by simp)⟩ rfl fun hp =>
        .inr ⟨rfl, inPlay_before hp rfl rfl (by simp)⟩
    | responded r pdf hr hst hp =>
      exact silent hs hi (.responded r pdf hr hst hp) h ⟨rfl, (by simp), (by simp)⟩ rfl fun hp =>
        .inr ⟨rfl, inPlay_before hp rfl rfl (by simp)⟩

end Holds

end Tirke
