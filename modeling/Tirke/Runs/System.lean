import Tirke.Runs.Invariants
import Tirke.Obeys.CoordinatorRuntime
import Tirke.Obeys.Creation
import Tirke.Obeys.Removal
import Tirke.Obeys.Retry
import Tirke.Obeys.Reviews
import Tirke.Obeys.Export
/-!
# Runs of the services on one meeting

A `Config` is the world and what the program under way still has to do. `Step` lets a use of the meeting begin,
perform its next operation with any outcome, end, or be killed; the machine may lose power, time passes, and
another process may take or release the lifecycle lock. `Step True` also lets stored results rot.

| here | there |
| --- | --- |
| `Initial.created` | `POST /meetings` (`meetings.py:214`): a creation in an empty folder |
| `Initial.legacy` | a meeting whose record was written before `submit_started` existed (`meeting.py:136`) |
| `Step.start` | a request, `CoordinatorRuntime.tick` reaching the meeting, or the janitor's sweep |

`reach_good` joins the layers: whatever the services do in such a run is lawful, so `Life` and its invariants
hold of every reachable folder.
-/

set_option linter.unusedSectionVars false

namespace Tirke

open CrashProg CrashDisk

variable [Lib] [Home] {v v' : View} {r : MeetingRecord} {a : Action} {rot : Prop}

structure Config where
  world : World
  prog : Option (Serv Unit)

namespace World

def restarted (w : World) : World := { w with disk := w.disk.power, log := .power :: w.log }

def damaged (w : World) (n : Name) (d : Option Doc) : World :=
  { w with disk := w.disk.damage (.folder, n) d, log := .damaged n d :: w.log }

def waited (w : World) (t : Time) (busy : Bool) : World := { w with clock := t, busy := busy }

end World

inductive Step (rot : Prop) : Config → Config → Prop where
  | start (w : World) (a : Action) (h : a.valid) : Step rot ⟨w, none⟩ ⟨w.note (.started a), some a.program⟩
  | op (w : World) (o : Op) (k : o.Reply → Serv Unit) (c : Choice) :
      Step rot ⟨w, some (.op o k)⟩ ⟨(w.act o c).2, some (k (w.act o c).1)⟩
  | returned (w : World) : Step rot ⟨w, some (.ret ())⟩ ⟨w.note (.finished none), none⟩
  | raised (w : World) (e : Exn) : Step rot ⟨w, some (.raise e)⟩ ⟨w.note (.finished (some e)), none⟩
  | killed (w : World) (p : Serv Unit) : Step rot ⟨w, some p⟩ ⟨w.note .killed, none⟩
  | power (w : World) (p : Option (Serv Unit)) : Step rot ⟨w, p⟩ ⟨w.restarted, none⟩
  | waited (w : World) (t : Time) (busy : Bool) : Step rot ⟨w, none⟩ ⟨w.waited t busy, none⟩
  | damaged (w : World) (n : Name) (d : Option Doc) (h : rot) (hn : n ∈ resultNames)
      (hl : (w.view.look (.folder, n)).isSome = true) : Step rot ⟨w, none⟩ ⟨w.damaged n d, none⟩

inductive Initial : Config → Prop where
  | created (w : World) (metadata : MeetingMetadata) (chunks : List Bytes) (kind : PublicSourceKind)
      (extension : Option AudioExtension) (hours : Nat) (hb : Blank w.view) (ha : w.disk.Allocated) :
      Initial ⟨w, some (discard (createMeeting metadata chunks kind extension hours))⟩
  | legacy (w : World) (r : MeetingRecord) (audio : Bytes) (hl : Legacy w.view r audio) (ht : w.disk.Tidy) :
      Initial ⟨w, none⟩

/-- Some run whose steps are all `R` steps ends in `c`. -/
def Reach (R : Config → Config → Prop) (c : Config) : Prop := ∃ c₀, Initial c₀ ∧ Relation.ReflTransGen R c₀ c

section
variable [Weather]

/-! ## What a use of the meeting finds -/

namespace Inv

theorem ready (h : Inv v) (hr : v.run readRecord = .ok r) (ha : coordinating v.log) (hc : current v.log = []) :
    Ready v r := by
  have hin := inPlay_of_readable hr
  have hrec := files_of_readable hr
  refine ⟨hr, h.sound.rooted (readable_look hr), ha, by rw [hc]; rfl, by rw [hc]; rfl, fun job hj hs => ?_,
    fun m hm hs => ?_⟩
  · rw [← job_attempt hj]
    exact (h.accounted.now hin).unsent hrec (readable_ok hr) (job_mem hj) hs
  · obtain ⟨r₁, hr₁, hl, -⟩ := readManifest_ok.1 hm
    obtain ⟨b, hb⟩ := h.backed.now hin r _ hrec (vol_of_look hl)
    have hman := hb.manifest
    cases hman
    exact ⟨hb.status.resolve_right hs, hb.bound⟩

theorem grounded (h : Inv v) : Grounded v :=
  ⟨fun hm => reach_iff.2 fun c hc => (h.sound.parents (.inl hm) c hc).1, fun n => (h.sound.files n).1,
    fun d t ht => h.sound.plain d t (.inl ht)⟩

end Inv

/-! ## What a use of the meeting promises -/

/-- What a use of the meeting that returns has done: a commit is the last one and on disk, a deleted folder is gone. -/
def Honoured (a : Action) (out : Except Exn Unit) (v : View) : Prop :=
  out = .ok () → match a with
  | .updateReview q => v.kept = v.hist ∧ ∃ r h, v.hist = ⟨some a, r⟩ :: h ∧ updates v.hist = q :: updates h
  | .approve _ => v.kept = v.hist ∧ ∃ r h, v.hist = ⟨some a, r⟩ :: h ∧ r.meeting.status = .approved
  | .delete _ => Departed v ∧ ∃ t, .file (.renamed .folder t) ∈ v.log
  | _ => True

theorem Does.discard {α : Type} {A : Env host} {p : Serv α} {Q : Except Exn Unit → View → Prop}
    (h : Does A Legal p v fun out v' => Q (out.map fun _ => ()) v') : Does A Legal (Tirke.discard p) v Q :=
  Does.bind h (fun _ _ hq => .ret hq) fun _ _ hq => hq

/-- Without a readable record, nothing happens under the lock. -/
theorem does_unreadable {α : Type} {A : Env host} {b : Bool} {body : Bool → Serv α} (h : ∀ r, v.run readRecord ≠ .ok r) :
    Does A Legal (lifecycleLock b body) v fun out v' => v' = v ∧ ∃ e, out = .error e :=
  does_lifecycleLock (fun r _ hr => absurd hr (h r)) (fun e _ => ⟨rfl, e, rfl⟩) fun _ => ⟨rfl, _, rfl⟩

/-- Preparations leave the marker's history alone. -/
theorem Frame.hist {S : Path → Prop} (hf : Frame S v v') (hm : ¬ S marker) : v'.hist = v.hist := by
  obtain ⟨es, hes, hq⟩ := hf.log
  have hw : v'.log.filterMap Event.marked = v.log.filterMap Event.marked := hf.written hm
  rw [hes, List.filterMap_append] at hw
  have hnone : es.filterMap Event.marked = [] := List.append_left_eq_self.1 hw
  rw [View.hist, View.hist, hes]
  clear hes hw
  induction es with
  | nil => rfl
  | cons e es ih =>
    have he : e.marked = none := by
      cases h : e.marked with
      | none => rfl
      | some r => rw [List.filterMap_cons_some h] at hnone; cases hnone
    rw [List.filterMap_cons_none he] at hnone
    have hne : e ≠ .power := by
      rintro rfl
      exact absurd (hq _ List.mem_cons_self) (by simp [Event.quiet])
    rw [← ih (fun e' h => hq e' (List.mem_cons_of_mem _ h)) hnone]
    simp only [List.cons_append, commits, he]
    split
    · rfl
    · exact absurd rfl hne
    · rfl

/-- A rewriting that returned is the last one, and on disk. -/
theorem Rewritten.committed {A : Env host} {S : Path → Prop} {m : Meeting} (h : Rewritten A S v r (.ok m) v')
    (hm : ¬ S marker) (hr : running v.log = some a) : v'.kept = v'.hist ∧ v'.hist = ⟨some a, r⟩ :: v.hist := by
  cases h with
  | done v₁ b hf =>
    have hrun : running v₁.log = some a := by rw [hf.log.running, hr]
    refine ⟨rfl, ?_⟩
    show (⟨running v₁.log, r⟩ :: if (running v₁.log).isSome then v₁.hist else [] : History) = _
    rw [hrun, hf.hist hm]
    rfl

/-- **Every use of a meeting obeys the law.** -/
theorem does_action (h : Inv v) (hr : running v.log = some a) (hc : current v.log = []) :
    Does Weather.admits Legal a.program v (Honoured a) := by
  have hact : running v.log ≠ none := by rw [hr]; nofun
  have hready : a = .processOnce ∨ a = .step → ∀ r, v.run readRecord = .ok r → Ready v r := by
    intro ha r hrec
    refine h.ready hrec (ha.imp ?_ ?_) hc
    · rintro rfl; exact hr
    · rintro rfl; exact hr
  have hquiet : ∀ {α : Type} {p : Serv α} {Q : Except Exn α → View → Prop}, Does Weather.admits Legal p v Q →
      (∀ out v', Honoured a out v') → Does Weather.admits Legal (discard p) v (Honoured a) := fun hd hq =>
    Does.discard (hd.mono fun _ _ _ => hq _ _)
  by_cases hrec : ∃ r, v.run readRecord = .ok r
  swap
  · have hnone : ∀ r, v.run readRecord ≠ .ok r := fun r hr => hrec ⟨r, hr⟩
    cases a with
    | processOnce => exact hquiet (does_processOnce (hready (.inl rfl))) fun _ _ _ => trivial
    | step => exact hquiet (does_visit (hready (.inr rfl))) fun _ _ _ => trivial
    | sweep => exact (does_sweepEntry h.grounded hact).mono fun _ _ _ _ => trivial
    | exportPdf => exact ((does_getExportPdf hr).lawful fun _ _ => Exports.legal).mono fun _ _ _ _ => trivial
    | delete suffix =>
      refine (does_unreadable hnone).mono ?_
      rintro out v' ⟨-, e, rfl⟩ ho
      cases ho
    | retry | updateReview | approve =>
      refine Does.discard ((does_unreadable hnone).mono ?_)
      rintro out v' ⟨-, e, rfl⟩ ho
      cases ho
  obtain ⟨r, hrec⟩ := hrec
  cases a with
  | processOnce => exact hquiet (does_processOnce (hready (.inl rfl))) fun _ _ _ => trivial
  | step => exact hquiet (does_visit (hready (.inr rfl))) fun _ _ _ => trivial
  | sweep => exact (does_sweepEntry h.grounded hact).mono fun _ _ _ _ => trivial
  | exportPdf => exact ((does_getExportPdf hr).lawful fun _ _ => Exports.legal).mono fun _ _ _ _ => trivial
  | retry => exact hquiet (does_retry hrec (h.sound.rooted (readable_look hrec)) h.grounded hr) fun _ _ _ => trivial
  | delete suffix =>
    refine (does_delete h.grounded ⟨suffix, hr⟩).mono ?_
    rintro out v' hd ho
    rw [ho] at hd
    exact hd
  | updateReview q =>
    refine Does.discard ((does_updateReview hrec hr).mono ?_)
    rintro (e | m) v' ⟨t, ht⟩ ho
    · cases ho
    obtain ⟨hkept, hhist⟩ := ht.committed (not_reviewFiles (.inl rfl)) hr
    obtain ⟨k, h', hh, rfl⟩ := h.genuine.head hrec
    refine ⟨hkept, _, _, hhist, ?_⟩
    rw [hhist, hh]
    exact updates_reviewed rfl rfl rfl
  | approve q =>
    refine Does.discard ((does_approveReview hrec hr).mono ?_)
    rintro (e | m) v' ⟨t, ht⟩ ho
    · cases ho
    obtain ⟨hkept, hhist⟩ := ht.committed id hr
    exact ⟨hkept, _, _, hhist, rfl⟩

/-! ## Every reachable configuration is good -/

/-- What one guarded operation does to the view. -/
theorem guarded_act {L : Law} {w : World} {o : Op} (hf : Fit w.disk) (hg : Guarded L w o) (c : Choice) :
    Fit (w.act o c).2.disk ∧ ((w.act o c).2.view = w.view ∨ ∃ e, L w.view e ∧ (w.act o c).2.view = w.view.after e) := by
  cases o with
  | file o =>
    obtain ⟨hd, hfit, hlaw⟩ := hg
    refine ⟨hfit c.fault, ?_⟩
    rw [view_act hf hd]
    cases he : w.disk.effect o c.fault with
    | none => exact .inl rfl
    | some e => exact .inr ⟨.file e, hlaw c.fault e he, rfl⟩
  | ask q => exact ⟨hf, .inr ⟨_, hg c.answer, rfl⟩⟩
  | respond pdf => exact ⟨hf, .inr ⟨_, hg, rfl⟩⟩
  | now | flock b | stale => exact ⟨hf, .inl rfl⟩

/-- What the law preserves holds at the end as well. -/
theorem Does.keeps {A : Env host} {L : Law} {J : View → Prop} {ε α : Type} {p : Prog Ops ε α} {Q : Except ε α → View → Prop}
    (h : Does A L p v Q) (hj : J v) (hl : ∀ v e, J v → L v e → J (v.after e)) :
    Does A L p v fun out v' => Q out v' ∧ J v' := by
  intro w hw hf
  refine Sat.mono ((h w hw hf).invariant (J := fun w : World => Fit w.disk ∧ J w.view) ⟨hf, hw ▸ hj⟩ ?_)
    fun _ _ hq => ⟨hq.1.1, hq.1.2, hq.2.2⟩
  rintro w o c ⟨hf, hj⟩ hg -
  obtain ⟨hfit, he | ⟨e, hlaw, he⟩⟩ := guarded_act hf hg c
  · exact ⟨hfit, he ▸ hj⟩
  · exact ⟨hfit, he ▸ hl _ _ hj hlaw⟩

theorem guarded_running {w : World} {o : Op} (hf : Fit w.disk) (hg : Guarded Legal w o) (c : Choice) :
    running (w.act o c).2.log = running w.log := by
  rcases (guarded_act hf hg c).2 with h | ⟨e, he, h⟩
  · exact congrArg (running ∘ View.log) h
  · have hlog : (w.act o c).2.log = (w.view.after e).log := congrArg View.log h
    rw [hlog, after_log]
    exact he.running

/-- What is left of the program is lawful, and keeps its promise. -/
def Obeys (p : Serv Unit) (w : World) : Prop :=
  Sat Weather.admits (Guarded Legal) (fun out (w' : World) => Fit w'.disk ∧
    ∀ a, running w'.log = some a → Honoured a out w'.view) p w

structure Good (rot : Prop) (c : Config) : Prop where
  fit : Fit c.world.disk
  life : Life rot c.world.view
  obeys : ∀ p, c.prog = some p → Obeys p c.world

theorem obeys_action {w : World} (hf : Fit w.disk) (h : Inv w.view) (hr : running w.log = some a)
    (hc : current w.log = []) : Obeys a.program w := by
  have hsat := (does_action h hr hc) w rfl hf
  refine Sat.mono (hsat.invariant (J := fun w' : World => Fit w'.disk ∧ running w'.log = some a) ⟨hf, hr⟩ ?_) ?_
  · intro w' o c ⟨hf', hr'⟩ hg _
    exact ⟨(guarded_act hf' hg c).1, (guarded_running hf' hg c).trans hr'⟩
  · rintro out w' ⟨⟨hf', hq⟩, -, hr'⟩
    refine ⟨hf', fun a' ha' => ?_⟩
    rw [hr'] at ha'
    cases ha'
    exact hq

theorem obeys_create {w : World} {metadata : MeetingMetadata} {chunks : List Bytes} {kind : PublicSourceKind}
    {extension : Option AudioExtension} {hours : Nat} (hf : Fit w.disk) (hb : Blank w.view) :
    Obeys (discard (createMeeting metadata chunks kind extension hours)) w := by
  have hempty : Empty w.view := ⟨hb.files, by rw [hb.log]; rfl, by rw [hb.log]; rfl, hb.above⟩
  have hd : Does Weather.admits Legal (discard (createMeeting metadata chunks kind extension hours)) w.view fun _ _ => True :=
    Does.discard ((does_createMeeting hempty).mono fun _ _ _ => trivial)
  have hrun : running w.log = none := hempty.idle
  refine Sat.mono ((hd w rfl hf).invariant (J := fun w' : World => Fit w'.disk ∧ running w'.log = none) ⟨hf, hrun⟩ ?_) ?_
  · intro w' o c ⟨hf', hr'⟩ hg _
    exact ⟨(guarded_act hf' hg c).1, (guarded_running hf' hg c).trans hr'⟩
  · rintro out w' ⟨⟨hf', -⟩, -, hr'⟩
    refine ⟨hf', fun a ha => ?_⟩
    rw [hr'] at ha
    cases ha

theorem Initial.good {c : Config} (h : Initial c) : Good rot c := by
  cases h with
  | created w metadata chunks kind extension hours hb ha =>
    have hfit : Fit w.disk := ⟨ha, .inr (voidDisk_iff.2 (hb.files _))⟩
    refine ⟨hfit, .blank hb, fun p hp => ?_⟩
    cases hp
    exact obeys_create hfit hb
  | legacy w r audio hl ht => exact ⟨Disk.Tidy.fit ht, .legacy hl, nofun⟩

/-- What one step of a run is to the folder: nothing, or something that may befall it. -/
theorem Step.happens {c c' : Config} (h : Step rot c c') (hg : Good rot c) :
    c'.world.view = c.world.view ∨ Happens rot c.world.view c'.world.view := by
  cases h with
  | start w a h => exact .inr (.bounds _ h)
  | op w o k ch =>
    rcases (guarded_act hg.fit (hg.obeys _ rfl).1 ch).2 with he | ⟨e, hl, he⟩
    · exact .inl he
    · exact .inr (he ▸ .lawful e hl)
  | returned w => exact .inr (.bounds (.finished none) trivial)
  | raised w e => exact .inr (.bounds (.finished (some e)) trivial)
  | killed w p => exact .inr (.bounds .killed trivial)
  | power w p => exact .inr .power
  | waited w t busy => exact .inl rfl
  | damaged w n d h hn hl =>
    have hv : (w.damaged n d).view = w.view.damaged n d := by
      simp only [World.damaged, World.view, View.damaged, Disk.images_damage hg.fit.1]
    exact .inr (hv ▸ .damaged n d h hn hl)

theorem Happens.running (h : Happens rot v v') (hr : Tirke.running v.log ≠ none) : Tirke.running v'.log ≠ none := by
  cases h with
  | lawful e hl => rw [after_log, hl.running]; exact hr
  | bounds e he => exact fun h => hr (bounds_running he h)
  | power => exact hr
  | damaged => exact hr

/-- The weather admits what the machine did. -/
def Admitted (A : Env host) (c c' : Config) : Prop := ∀ w o k ch, c = ⟨w, some (.op o k)⟩ →
  c' = ⟨(w.act o ch).2, some (k (w.act o ch).1)⟩ → A w o ch

theorem Step.keeps {c c' : Config} (h : Step rot c c') (hp : Admitted Weather.admits c c') (hg : Good rot c) :
    Good rot c' := by
  have hlife : Life rot c'.world.view := by
    rcases h.happens hg with he | hh
    · rw [he]; exact hg.life
    · exact .step hg.life hh
  cases h with
  | start w a h =>
    refine ⟨hg.fit, hlife, fun p hp => ?_⟩
    cases hp
    exact obeys_action hg.fit hlife.inv rfl rfl
  | op w o k ch =>
    have ho := hg.obeys _ rfl
    refine ⟨(guarded_act hg.fit ho.1 ch).1, hlife, fun p hprog => ?_⟩
    cases hprog
    exact ho.2 ch (hp w o k ch rfl rfl)
  | returned w | raised w e | killed w p => exact ⟨hg.fit, hlife, nofun⟩
  | power w p => exact ⟨Disk.Tidy.fit (Disk.tidy_power hg.fit.1), hlife, nofun⟩
  | waited w t busy => exact ⟨hg.fit, hlife, nofun⟩
  | damaged w n d h hn hl =>
    refine ⟨⟨Disk.allocated_damage hg.fit.1 _ _, ?_⟩, hlife, nofun⟩
    rcases hg.fit.2 with hc | hv
    · exact .inl (Disk.clean_damage hg.fit.1 hc _ _)
    · refine .inr (voidDisk_iff.2 ?_)
      have hne : ((.folder, .meeting) : Path) ≠ (.folder, n) := by rintro he; cases he; simp [resultNames] at hn
      have him := Disk.images_damage hg.fit.1 (.folder, n) d
      obtain ⟨h₁, h₂⟩ := voidDisk_iff.1 hv
      simp only [World.damaged, him, Images.damage, Function.update_of_ne hne]
      exact ⟨h₁, h₂⟩

theorem reach_keeps {R : Config → Config → Prop} {c : Config}
    (hR : ∀ c c', R c c' → Step rot c c' ∧ Admitted Weather.admits c c') (h : Reach R c) : Good rot c := by
  obtain ⟨c₀, h₀, hs⟩ := h
  induction hs with
  | refl => exact h₀.good
  | tail _ hstep ih => exact (hR _ _ hstep).1.keeps (hR _ _ hstep).2 ih

end

/-! ## In any weather -/

theorem Step.good {c c' : Config} (h : Step rot c c') (hg : Good rot c) : Good rot c' :=
  h.keeps (fun _ _ _ _ _ _ => trivial) hg

/-- **Every reachable configuration is good.** -/
theorem reach_good {R : Config → Config → Prop} {c : Config} (hR : ∀ c c', R c c' → Step rot c c') (h : Reach R c) :
    Good rot c := reach_keeps (fun c c' hs => ⟨hR c c' hs, fun _ _ _ _ _ _ => trivial⟩) h

/-- The request the program is about to send. -/
def Config.asks (c : Config) : Option Request :=
  match c.prog with
  | some (.op (.ask q) _) => some q
  | _ => none

namespace Reach
variable {c : Config}

/-- Only lawful requests are sent. -/
theorem legal (h : Reach (Step rot) c) {q : Request} (hq : c.asks = some q) (x : Response) :
    Legal c.world.view (.asked q x) := by
  unfold Config.asks at hq
  split at hq
  · next q' k hp =>
    cases hq
    exact ((reach_good (fun _ _ => id) h).obeys _ hp).1 x
  · cases hq

/-- **The invariant of every run.** -/
theorem inv (h : Reach (Step rot) c) : Inv c.world.view := (reach_good (fun _ _ => id) h).life.inv

theorem undamaged (h : Reach (Step False) c) : undamaged c.world.log := (reach_good (fun _ _ => id) h).life.undamaged

theorem trans {c' : Config} (h : Reach (Step rot) c) (hs : Relation.ReflTransGen (Step rot) c c') :
    Reach (Step rot) c' := by
  obtain ⟨c₀, h₀, h⟩ := h
  exact ⟨c₀, h₀, h.trans hs⟩

end Reach

end Tirke
