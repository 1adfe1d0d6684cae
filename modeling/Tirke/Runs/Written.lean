import Tirke.Runs.Uses
/-!
# Every record ever written

`written log` are the records the marker ever held. A property of records that a creation establishes and every move
keeps holds of all of them, in runs whose rewritings meet a condition on what they find (`Reach.written`).
-/

set_option linter.unusedSectionVars false

namespace Tirke

open CrashProg CrashDisk

variable [Lib] [Home] {v v' : View} {r r' : MeetingRecord} {e : Event} {c c' : Config} {rot : Prop}

theorem mem_commits {log : List Event} {k : Commit} (h : k ∈ (commits log).1 ∨ k ∈ (commits log).2) :
    k.record ∈ written log := by
  induction log with
  | nil => rcases h with h | h <;> cases h
  | cons e log ih =>
    cases hm : e.marked with
    | some r =>
      simp only [commits, hm] at h
      simp only [written, List.filterMap_cons_some hm]
      rcases h with h | h
      · rcases List.mem_cons.1 h with rfl | h
        · exact List.mem_cons_self
        · split at h
          · exact List.mem_cons_of_mem _ (ih (.inl h))
          · cases h
      · exact List.mem_cons_of_mem _ (ih (.inr h))
    | none =>
      simp only [commits, hm] at h
      simp only [written, List.filterMap_cons_none hm]
      split at h
      · exact ih (.inl (h.elim id id))
      · exact ih (.inr (h.elim id id))
      · exact ih h

theorem Inv.written (h : Inv v) (hr : v.run readRecord = .ok r) : r ∈ Tirke.written v.log := by
  obtain ⟨k, h', hh, rfl⟩ := h.genuine.head hr
  exact mem_commits (.inl (by rw [View.hist] at hh; rw [hh]; exact List.mem_cons_self))

theorem written_legacy {audio : Bytes} {answers : List Response} : written (legacyLog r audio answers) = [r] := by
  induction answers with
  | nil => rfl
  | cons a answers ih => exact ih

/-- A record that is written is a move of the one that is read, or a new one. -/
theorem Legal.marked (h : Legal v e) (he : e.marked = some r') :
    (∃ r, v.run readRecord = .ok r ∧ Move v r r') ∨ ∃ metadata t kind hours audio extension,
      r' = MeetingRecord.new (Meeting.new metadata t kind hours) audio extension := by
  cases h with
  | moved r r₁ hr hok hm ha =>
    cases he
    exact .inl ⟨r, hr, hm⟩
  | born metadata t kind hours audio extension =>
    cases he
    exact .inr ⟨metadata, t, kind, hours, audio, extension, rfl⟩
  | artifact r b n x hp hs hx => rcases artifact_name hx with rfl | rfl | rfl <;> cases he
  | _ => cases he

/-- If the step rewrites the marker, then `C` held of what was read. -/
def Whenever (C : View → MeetingRecord → Prop) (c c' : Config) : Prop := ∀ e r' r, c'.world.log = e :: c.world.log →
  e.marked = some r' → c.world.view.run readRecord = .ok r → C c.world.view r

/-- The steps of the services whose rewritings meet the condition. -/
def Conforming (rot : Prop) (C : View → MeetingRecord → Prop) (c c' : Config) : Prop := Step rot c c' ∧ Whenever C c c'

/-- **What every move keeps holds of every record.** -/
theorem Reach.written {C : View → MeetingRecord → Prop} {Q : MeetingRecord → Prop} (h : Reach (Conforming rot C) c)
    (new : ∀ metadata t kind hours audio extension, Q (MeetingRecord.new (Meeting.new metadata t kind hours) audio extension))
    (legacy : ∀ metadata t kind hours audio extension, Q (MeetingRecord.legacy metadata t kind hours audio extension))
    (moved : ∀ v r r', C v r → r.ok = true → Move v r r' → Q r → Q r') : ∀ r ∈ written c.world.log, Q r := by
  obtain ⟨c₀, h₀, hs⟩ := h
  have hboth : Good rot c ∧ ∀ r ∈ Tirke.written c.world.log, Q r := by
    induction hs with
    | refl =>
      refine ⟨h₀.good, fun r hr => ?_⟩
      cases h₀ with
      | created w metadata chunks kind extension hours hb ha =>
        have hlog : w.log = [] := hb.log
        rw [show Config.world _ = w from rfl, hlog] at hr
        cases hr
      | legacy w r₀ audio hl ht =>
        obtain ⟨answers, hlog⟩ := hl.log
        obtain ⟨metadata, t, kind, hours, extension, -, hrec⟩ := hl.isNew
        have hlog' : w.log = legacyLog r₀ audio answers := hlog
        rw [show Config.world _ = w from rfl, hlog', written_legacy, List.mem_singleton] at hr
        rw [hr, hrec]
        exact legacy metadata t kind hours audio extension
    | @tail c₁ c₂ _ hstep ih =>
      obtain ⟨hg, hall⟩ := ih
      obtain ⟨hstep, hC⟩ := hstep
      refine ⟨hstep.good hg, ?_⟩
      have hsame : ∀ e, c₂.world.log = e :: c₁.world.log → e.marked = none → ∀ r ∈ Tirke.written c₂.world.log, Q r := by
        intro e hl he r hr
        rw [hl, Tirke.written, List.filterMap_cons_none he] at hr
        exact hall r hr
      rcases hstep.happens hg with he | hh
      · rw [show c₂.world.log = c₁.world.log from congrArg View.log he]
        exact hall
      generalize hv : c₂.world.view = v₂ at hh
      have hlog : c₂.world.log = v₂.log := congrArg View.log hv
      cases hh with
      | lawful e hl =>
        rw [after_log] at hlog
        cases hm : e.marked with
        | none => exact hsame e hlog hm
        | some r' =>
          intro r hr
          rw [hlog, Tirke.written, List.filterMap_cons_some hm] at hr
          rcases List.mem_cons.1 hr with rfl | hr
          · rcases hl.marked hm with ⟨r₁, hr₁, hmv⟩ | ⟨metadata, t, kind, hours, audio, extension, rfl⟩
            · exact moved _ r₁ _ (hC e _ r₁ hlog hm hr₁) (readable_ok hr₁) hmv (hall r₁ (hg.life.inv.written hr₁))
            · exact new metadata t kind hours audio extension
          · exact hall r hr
      | bounds e he =>
        refine hsame e hlog ?_
        cases e with
        | file _ | power => exact he.elim
        | _ => rfl
      | power => exact hsame .power hlog rfl
      | damaged n d => exact hsame (.damaged n d) hlog rfl
  exact hboth.2

/-! ## From a record on -/

/-- `Q` holds of the record that shows, and of the one that is durable. -/
def Recorded (Q : MeetingRecord → Prop) : Property := fun _ _ f => ∀ r, f .meeting = some (.record r) → Q r

/-- What every move keeps holds from now on, since no second creation writes a record. -/
theorem stable_recorded {Q : MeetingRecord → Prop} (hq : ∀ v r r', r.ok = true → Move v r r' → Q r → Q r') :
    Stable (fun v => Tirke.written v.log ≠ []) (Recorded Q) where
  absent h0 r hr := by rw [h0] at hr; cases hr
  frozen _ _ _ hp := hp
  bounds _ _ hp := hp
  power _ hp := hp
  damaged {v n d h f} _ hn hp := by
    intro r hr
    rw [Function.update_of_ne (by rintro rfl; simp [resultNames] at hn)] at hr
    exact hp r hr
  put _ _ hn _ hp := by
    intro r hr
    rw [Function.update_of_ne hn.symm] at hr
    exact hp r hr
  removed _ _ hn _ hp := by
    intro r hr
    rw [Function.update_of_ne hn.symm] at hr
    exact hp r hr
  moved {v r r'} _ hr _ hm _ hp := by
    intro r₁ hr₁
    rw [Function.update_self] at hr₁
    cases hr₁
    exact hq v r r' (readable_ok hr) hm (hp r (files_of_readable hr))
  born {v r} hi hl hr _ := by
    cases hl with
    | moved _ _ _ _ _ ha => exact absurd hr ha
    | born _ _ _ _ _ _ _ _ _ _ _ _ hw => exact absurd hw hi
    | artifact _ _ _ _ _ _ hx => simp [ResultBundleV1.artifacts] at hx

theorem Happens.written (h : Happens rot v v') (hw : Tirke.written v.log ≠ []) : Tirke.written v'.log ≠ [] := by
  have hcons : ∀ e : Event, Tirke.written (e :: v.log) ≠ [] := by
    intro e
    unfold Tirke.written
    rw [List.filterMap_cons]
    split
    · exact hw
    · nofun
  cases h with
  | lawful e hl => exact after_log (v := v) (e := e) ▸ hcons e
  | bounds e he => exact hcons e
  | power => exact hcons .power
  | damaged n d => exact hcons (.damaged n d)

/-- What is stable holds in the rest of a run. -/
theorem Run.holds {I : View → Prop} {P : Property} (hst : Stable I P)
    (hI : ∀ v v', I v → Happens rot v v' → I v') (h : Reach (Step rot) c) (hi : I c.world.view)
    (hp : Holds P c.world.view) (hs : Run rot c c') : Holds P c'.world.view ∧ I c'.world.view := by
  induction hs with
  | refl => exact ⟨hp, hi⟩
  | @tail c₁ c₂ hs hstep ih =>
    have hg : Good rot c₁ := reach_good (fun _ _ h => h) (h.trans hs)
    rcases hstep.happens hg with he | hh
    · rw [he]
      exact ih
    · exact ⟨ih.1.step hst ih.2 hh, hI _ _ ih.2 hh⟩

/-- What every move keeps holds of all records from one on that shows. -/
theorem Run.recorded {Q : MeetingRecord → Prop} (hq : ∀ v r r', r.ok = true → Move v r r' → Q r → Q r')
    (h : Reach (Step rot) c) (hw : Tirke.written c.world.log ≠ []) (hp : Holds (Recorded Q) c.world.view)
    (hs : Run rot c c') : Holds (Recorded Q) c'.world.view :=
  (Run.holds (stable_recorded hq) (fun _ _ hw hh => hh.written hw) h hw hp hs).1

end Tirke
