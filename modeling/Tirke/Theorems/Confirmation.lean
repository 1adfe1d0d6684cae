import Tirke.Theorems.Submission
import Tirke.Runs.Written
/-!
# Cleanup is never claimed without proof

`Claimed` extends `Cleared` from the record on disk to every record ever written: what one of them said of a copy
being gone stays true, whatever happens later.
-/

set_option linter.unusedSectionVars false

namespace Tirke

open CrashProg CrashDisk

section
variable [Lib] [Home] {v v' : View} {r r' : MeetingRecord} {e : Event} {c c' : Config} {rot : Prop}

/-! ## The upload does not come back -/

/-- The upload is gone, and the meeting's creation is over. -/
def Gone (v : View) : Prop := v.uploadGone ∧ running v.log ≠ none

theorem Legal.gone (h : Legal v e) (hg : Gone v) : Gone (v.after e) := by
  refine ⟨⟨?_, ?_⟩, by rw [after_log, h.running]; exact hg.2⟩
  · by_contra hne
    obtain ⟨x, hx⟩ := Option.ne_none_iff_exists'.1 hne
    cases e with
    | file e =>
      rcases Images.vol_apply hx with hx | rfl
      · rw [hg.1.1] at hx; cases hx
      · cases h with
        | uploaded _ _ hr => exact hg.2 hr
        | artifact r b n x hp hs hm => rcases artifact_name hm with hn | hn | hn <;> cases hn
    | _ => rw [show (v.after _).img = v.img from rfl, hg.1.1] at hx; cases hx
  · by_contra hne
    obtain ⟨x, hx⟩ := Option.ne_none_iff_exists'.1 hne
    cases e with
    | file e =>
      rcases Images.dur_apply hx with hx | hx
      · rw [hg.1.2] at hx; cases hx
      · rw [hg.1.1] at hx; cases hx
    | _ => rw [show (v.after _).img = v.img from rfl, hg.1.2] at hx; cases hx

/-- Without an upload nothing is sent. -/
theorem Legal.silenced (h : Legal v e) (hg : Gone v) : Tirke.sends (v.after e).log = Tirke.sends v.log := by
  rw [after_log]
  rcases h.sends with hs | ⟨key, context, audio, suffix, a, r, job, sha, rfl, hsub⟩
  · exact hs
  · have hu := vol_of_look hsub.upload
    rw [hg.1.1] at hu
    cases hu

theorem Happens.gone (h : Happens rot v v') (hg : Gone v) : Gone v' ∧ sends v'.log = sends v.log := by
  cases h with
  | lawful e hl => exact ⟨hl.gone hg, hl.silenced hg⟩
  | bounds e he => exact ⟨⟨hg.1, fun hr => hg.2 (bounds_running he hr)⟩, (bounds_silent he).1⟩
  | power => exact ⟨⟨⟨hg.1.2, hg.1.2⟩, hg.2⟩, rfl⟩
  | damaged n d _ hn => exact ⟨⟨uploadGone_damaged hn hg.1, hg.2⟩, rfl⟩

theorem Run.gone (h : Reach (Step rot) c) (hs : Run rot c c') (hg : Gone c.world.view) :
    Gone c'.world.view ∧ sends c'.world.log = sends c.world.log := by
  induction hs with
  | refl => exact ⟨hg, rfl⟩
  | @tail c₁ c₂ hs hstep ih =>
    have hgood : Good rot c₁ := reach_good (fun _ _ h => h) (h.trans hs)
    rcases hstep.happens hgood with he | hh
    · rw [show c₂.world.log = c₁.world.log from congrArg View.log he, he]
      exact ih
    · obtain ⟨hg', hsend⟩ := hh.gone ih.1
      exact ⟨hg', hsend.trans ih.2⟩

/-! ## Every record ever written -/

/-- What a record says is gone, is gone for good. -/
structure ClaimedBy (v : View) (r : MeetingRecord) : Prop where
  here : r.localCleanupStatus ≠ .pending → Gone v
  there : ∀ j ∈ r.jobs, j.cleanupStatus ≠ .pending → (∃ id, j.jobId = some id ∧ confirmed v.log id j.cleanupStatus) ∨
    (j.attempt ∉ submissions v.log ∧ Gone v)

def Claimed (v : View) : Prop := ∀ r ∈ written v.log, ClaimedBy v r

theorem ClaimedBy.step (h : ClaimedBy v r) (hh : Happens rot v v')
    (hc : ∀ id s, confirmed v.log id s → confirmed v'.log id s) : ClaimedBy v' r := by
  refine ⟨fun hl => (hh.gone (h.here hl)).1, fun j hj hp => ?_⟩
  rcases h.there j hj hp with ⟨id, hid, hconf⟩ | ⟨hns, hg⟩
  · exact .inl ⟨id, hid, hc id _ hconf⟩
  · obtain ⟨hg', hs⟩ := hh.gone hg
    exact .inr ⟨by rwa [submissions, hs], hg'⟩

theorem Inv.claimedBy (h : Inv v) (hp : v.inPlay) (hr : v.files .meeting = some (.record r))
    (ha : running v.log ≠ none) : ClaimedBy v r := by
  obtain ⟨h₁, h₂⟩ := h.cleared.now hp r hr
  refine ⟨fun hl => ⟨h₁ hl, ha⟩, fun j hj hpend => ?_⟩
  rcases h₂ j hj hpend with hc | ⟨hns, hl⟩
  · exact .inl hc
  · exact .inr ⟨hns, h₁ hl, ha⟩

theorem Claimed.step (h : Claimed v) (hi : Inv v) (hh : Happens rot v v') : Claimed v' := by
  intro r hr
  have hi' : Inv v' := hi.step hh
  cases hh with
  | lawful e hl =>
    rw [after_log] at hr
    cases hm : e.marked with
    | none =>
      rw [written, List.filterMap_cons_none hm] at hr
      exact (h r hr).step (show Happens rot v _ from .lawful e hl) fun id s hc => by rw [after_log]; exact confirmed_cons hc
    | some r' =>
      rw [written, List.filterMap_cons_some hm] at hr
      rcases List.mem_cons.1 hr with rfl | hr
      · cases hl with
        | moved r₀ r₁ hr₀ hok hmv ha =>
          cases hm
          have hlive : v.img.slot .folder = .live := live_of_reach (readable_reach hr₀) (by simp [Dir.chain])
          exact hi'.claimedBy (.inl hlive) (by simp [View.files, Images.apply]) (by rw [after_log]; exact ha)
        | born metadata t kind hours audio extension =>
          cases hm
          refine ⟨fun hl => absurd rfl hl, fun j hj hp => ?_⟩
          simp only [MeetingRecord.new, List.mem_singleton] at hj
          rw [hj] at hp
          exact absurd rfl hp
        | artifact r₀ b n x hp hs hx =>
          rcases artifact_name hx with rfl | rfl | rfl <;> cases hm
        | _ => cases hm
      · exact (h r hr).step (show Happens rot v _ from .lawful e hl) fun id s hc => by rw [after_log]; exact confirmed_cons hc
  | bounds e he =>
    have hw : written (v.note e).log = written v.log := by
      cases e with
      | file _ | power => exact he.elim
      | _ => rfl
    rw [hw] at hr
    exact (h r hr).step (show Happens rot v _ from .bounds e he) fun _ _ => confirmed_cons
  | power => exact (h r hr).step (show Happens rot v _ from .power) fun _ _ => confirmed_cons
  | damaged n d hrot hn hl => exact (h r hr).step (.damaged n d hrot hn hl) fun _ _ => confirmed_cons

theorem Life.claimed (h : Life rot v) : Claimed v := by
  induction h with
  | blank h => intro r hr; rw [h.log] at hr; cases hr
  | @legacy v r₀ audio h =>
    intro r hr
    obtain ⟨answers, hl⟩ := h.log
    obtain ⟨metadata, t, kind, hours, extension, -, hrec⟩ := h.isNew
    rw [hl, written_legacy, List.mem_singleton] at hr
    subst hr
    rw [hrec]
    refine ⟨fun hl => absurd rfl hl, fun j hj hp => ?_⟩
    simp only [MeetingRecord.legacy, List.mem_singleton] at hj
    rw [hj] at hp
    exact absurd rfl hp
  | step h hh ih => exact ih.step h.inv hh

/-! ## Deletion -/

/-- Once a folder was moved aside, nothing unconfirmed is left of its meeting. -/
def Swept (v : View) : Prop := (∃ t, .file (.renamed .folder t) ∈ v.log) → Gone v ∧
  ∀ n ∈ submissions v.log, ∃ r ∈ written v.log, ∃ id s, r.knows n id ∧ s ≠ .pending ∧ confirmed v.log id s

theorem Swept.same (h : Swept v) (hh : Happens rot v v') (hl : v'.log = e :: v.log)
    (he : ∀ t, e ≠ .file (.renamed .folder t)) : Swept v' := by
  rintro ⟨t, ht⟩
  rw [hl] at ht
  rcases List.mem_cons.1 ht with ht | ht
  · exact absurd ht.symm (he t)
  · obtain ⟨hg, hsub⟩ := h ⟨t, ht⟩
    obtain ⟨hg', hs⟩ := hh.gone hg
    refine ⟨hg', fun n hn => ?_⟩
    rw [submissions, hs] at hn
    obtain ⟨r, hr, id, s, hk, hp, hc⟩ := hsub n hn
    refine ⟨r, ?_, id, s, hk, hp, by rw [hl]; exact confirmed_cons hc⟩
    rw [hl]
    cases hm : e.marked with
    | none => rw [written, List.filterMap_cons_none hm]; exact hr
    | some r' => rw [written, List.filterMap_cons_some hm]; exact List.mem_cons_of_mem _ hr

theorem Swept.step (h : Swept v) (hi : Inv v) (hh : Happens rot v v') : Swept v' := by
  cases hh with
  | bounds e he => exact h.same (show Happens rot v _ from .bounds e he) rfl (by rintro t rfl; exact he.elim)
  | power => exact h.same (show Happens rot v _ from .power) rfl nofun
  | damaged n d hrot hn hl => exact h.same (.damaged n d hrot hn hl) rfl nofun
  | lawful e hl =>
    by_cases he : ∃ t, e = .file (.renamed .folder t)
    swap
    · exact h.same (show Happens rot v _ from .lawful e hl) after_log fun t ht => he ⟨t, ht⟩
    obtain ⟨t, rfl⟩ := he
    cases hl with
    | renamed r _ hr hc hj hu hq =>
    rintro -
    have hin := inPlay_of_readable hr
    have hrec := files_of_readable hr
    have hact : running v.log ≠ none := by
      intro hn
      have hp := ((hi.accounted.now hin r hrec).2 hn).2
      simp [MeetingRecord.cleanupPending, hp] at hc
    have hclaim := hi.claimedBy hin hrec hact
    have hloc : r.localCleanupStatus ≠ .pending := by
      intro hp
      simp [MeetingRecord.cleanupPending, hp] at hc
    refine ⟨(Legal.renamed r t hr hc hj hu hq).gone (hclaim.here hloc), fun n hn => ?_⟩
    -- every attempt that was sent has a job, and no job is pending any more
    obtain ⟨j, hjm, rfl, -⟩ := (hi.accounted.now hin r hrec).1 n hn
    have hjp : j.cleanupStatus ≠ .pending := by
      intro hp
      have : r.jobsPending = true := List.any_eq_true.2 ⟨j, hjm, by simp [hp]⟩
      rw [hj] at this
      cases this
    rcases hclaim.there j hjm hjp with ⟨id, hid, hconf⟩ | ⟨hns, -⟩
    · exact ⟨r, hi.written hr, id, _, ⟨j, hjm, rfl, hid⟩, hjp, confirmed_cons hconf⟩
    · exact absurd hn hns

theorem Life.swept (h : Life rot v) : Swept v := by
  induction h with
  | blank h => rintro ⟨t, ht⟩; rw [h.log] at ht; cases ht
  | legacy h =>
    obtain ⟨answers, hl⟩ := h.log
    rintro ⟨t, ht⟩
    rw [hl] at ht
    simp [legacyLog] at ht
  | step h hh ih => exact ih.step h.inv hh

/-! ## The result -/

/-- What a record claims of its copies: no upload ever again, and for every job the GPU's word or no submission ever. -/
structure Truthful (rot : Prop) (c : Config) (r : MeetingRecord) : Prop where
  here : r.localCleanupStatus ≠ .pending → ∀ c', Run rot c c' → c'.world.view.uploadGone
  there : ∀ j ∈ r.jobs, j.cleanupStatus ≠ .pending →
    (∃ id, j.jobId = some id ∧ confirmed c.world.log id j.cleanupStatus) ∨
      ∀ c', Run rot c c' → j.attempt ∉ submissions c'.world.log

/-- **Cleanup is never claimed without proof.** -/
theorem cleanup_is_proven (h : Reach (Step rot) c) :
    (∀ r ∈ written c.world.log, Truthful rot c r) ∧
    ∀ suffix, running c.world.log = some (.delete suffix) → c.prog = some (.ret ()) →
      c.world.view.uploadGone ∧ ∀ n ∈ submissions c.world.log, ∃ r ∈ written c.world.log, ∃ id s,
        r.knows n id ∧ s ≠ .pending ∧ confirmed c.world.log id s := by
  have hg : Good rot c := reach_good (fun _ _ h => h) h
  refine ⟨fun r hr => ⟨fun hl c' hs => ?_, fun j hj hp => ?_⟩, fun suffix hrun hret => ?_⟩
  · exact (Run.gone h hs ((hg.life.claimed r hr).here hl)).1.1
  · rcases (hg.life.claimed r hr).there j hj hp with hc | ⟨hns, hgone⟩
    · exact .inl hc
    · refine .inr fun c' hs => ?_
      rw [submissions, (Run.gone h hs hgone).2]
      exact hns
  · obtain ⟨-, hon⟩ := hg.obeys _ hret
    obtain ⟨-, hren⟩ := hon _ hrun rfl
    obtain ⟨hgone, hsub⟩ := hg.life.swept hren
    exact ⟨hgone.1, hsub⟩

end

section
attribute [local instance] Sample.lib Sample.home

namespace Sample

/-- The meeting was processed, acknowledged, and deleted. -/
def deleted : Config := created.cues [.start .processOnce, .play never (answering (gpu first)), .finish,
  .start (.delete 5), .play never (answering (gpu first))]

end Sample

theorem cleanup_is_proven_sample : Sample.deleted.prog.isSome = true ∧
    (∀ r ∈ written Sample.deleted.world.log, Truthful False Sample.deleted r) ∧
    ∀ suffix, running Sample.deleted.world.log = some (.delete suffix) → Sample.deleted.prog = some (.ret ()) →
      Sample.deleted.world.view.uploadGone ∧ ∀ n ∈ submissions Sample.deleted.world.log,
        ∃ r ∈ written Sample.deleted.world.log, ∃ id s,
          r.knows n id ∧ s ≠ .pending ∧ confirmed Sample.deleted.world.log id s :=
  ⟨by decide +kernel, cleanup_is_proven (Sample.reach_created.cues (.inr rfl))⟩

end

end Tirke
