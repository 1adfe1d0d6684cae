import Tirke.Runs.Reviewing
/-!
# The invariant of every life
-/

set_option linter.unusedSectionVars false

namespace Tirke

open CrashProg CrashDisk

variable [Lib] [Home] [Weather] {v v' : View} {r r' : MeetingRecord} {e : Event} {rot : Prop}

/-- What is durable of the marker's history is the older part of it. -/
def Ordered (v : View) : Prop := v.backup .meeting ≠ none → v.kept <:+ v.hist

theorem Ordered.step (ho : Ordered v) (hh : Happens rot v v') : Ordered v' := by
  have hsilent : ∀ {e : Event} {v'' : View}, v''.log = e :: v.log → e.silent →
      v''.backup .meeting = v.backup .meeting → Ordered v'' := by
    intro e v'' hl he hb hne
    rw [View.kept, View.hist, hl, commits_silent he]
    exact ho (hb ▸ hne)
  cases hh with
  | power => exact fun _ => List.suffix_refl _
  | damaged n d _ hn hl =>
    refine hsilent (e := .damaged n d) rfl ⟨rfl, (by simp), (by simp)⟩ ?_
    exact Function.update_of_ne (by rintro he; cases he; simp [resultNames] at hn) _ _
  | bounds e he =>
    refine hsilent (e := e) rfl ?_ rfl
    cases e with
    | file _ | power => exact he.elim
    | _ => exact ⟨rfl, (by simp), (by simp)⟩
  | lawful e hl =>
    cases hl with
    | synced d hr =>
      by_cases hd : d = .folder
      · subst hd; exact fun _ => List.suffix_refl _
      · refine hsilent rfl (silent_synced hd) ?_
        simp only [View.backup, after_file, View.change_img, Images.apply]
        exact if_neg fun he => hd he.symm
    | moved r r' hr hok hm ha =>
      intro hb
      have hs : v.kept <:+ v.hist := ho hb
      show v.kept <:+ ⟨running v.log, r'⟩ :: if (running v.log).isSome then v.hist else []
      rw [if_pos (Option.isSome_iff_ne_none.2 ha)]
      exact hs.trans (List.suffix_cons _ _)
    | born metadata t kind hours audio extension hm hv => exact fun hb => absurd hv.2 hb
    | artifact r b n x hp hs hx hn =>
      exact hsilent rfl (silent_put (by rintro he; cases he; simp [ResultBundleV1.artifacts] at hx)) rfl
    | uploaded | manifest | archived | snapshot | review | pdf | pdfMarker =>
      exact hsilent rfl (silent_put (by simp)) rfl
    | _ => exact hsilent rfl ⟨rfl, (by simp), (by simp)⟩ rfl

structure Inv (v : View) : Prop where
  sound : Sound v
  genuine : Holds Genuine v
  ordered : Ordered v
  unsent : Unsent v
  uploaded : Uploaded v
  accounted : Holds Accounted v
  sourced : Holds Sourced v
  backed : Holds Backed v
  cleared : Holds Cleared v
  prompted : Prompted v
  reviewed : Holds Reviewed v

namespace Inv

theorem blank (h : Blank v) : Inv v where
  sound := .blank h
  genuine := .blank stable_genuine h
  ordered hb := absurd (h.files _).2 hb
  unsent _ := by rw [h.log]; rfl
  uploaded x hx := by
    rcases hx with hx | hx
    · rw [View.files, (h.files _).1] at hx; cases hx
    · rw [View.backup, (h.files _).2] at hx; cases hx
  accounted := .blank stable_accounted h
  sourced := .blank stable_sourced h
  backed := .blank stable_backed h
  cleared := .blank stable_cleared h
  prompted a ha := by rw [h.log] at ha; cases ha
  reviewed := .blank stable_reviewed h

theorem legacy {audio : Bytes} (h : Legacy v r audio) : Inv v := by
  obtain ⟨answers, hlog⟩ := h.log
  obtain ⟨metadata, t, kind, hours, extension, hmeta, hrec⟩ := h.isNew
  have hrun : running v.log = some .processOnce := by rw [hlog]; exact running_legacy
  refine ⟨.legacy h, .legacy h ?_, fun _ => ?_, fun hr => ?_, fun x hx => ?_, .legacy h (.legacy h), .legacy h (.legacy h),
    .legacy h ?_, .legacy h (.legacy h), fun a ha => ?_, .legacy h (.legacy h)⟩
  · intro d hd
    cases hd
    refine ⟨_, _, rfl, rfl, ?_, by rw [hrec]; rfl, by rw [hrec]; rfl, .singleton _⟩
    rw [hrec]
    refine ok_iff.2 ⟨meeting_valid_iff.2 ⟨hmeta, Nat.le_refl _, ?_, rfl, rfl⟩, nofun, ?_, ?_⟩
    · cases kind <;> rfl
    · simp [MeetingRecord.attempts, MeetingRecord.legacy]
    · simp [MeetingRecord.attempts, MeetingRecord.legacy, MeetingRecord.new, JobRecord.new, Meeting.new]
  · rewrite [View.kept, View.hist, hlog, commits_legacy]
    exact List.suffix_refl _
  · rw [hrun] at hr; cases hr
  · rw [hlog, stored_legacy]
    have hfile : legacyFiles r audio (.folder, .upload) = some (.blob audio) := rfl
    rw [View.files, View.backup, h.files.1, h.files.2, hfile, or_self] at hx
    exact hx
  · intro r₁ d _ hd
    cases hd
  · rw [hrun] at ha
    cases ha
    trivial

theorem step (h : Inv v) (hh : Happens rot v v') : Inv v' where
  sound := h.sound.step hh
  genuine := h.genuine.step stable_genuine trivial hh
  ordered := h.ordered.step hh
  unsent := h.unsent.step h.accounted hh
  uploaded := h.uploaded.step hh
  accounted := h.accounted.step stable_accounted h.unsent hh
  sourced := h.sourced.step stable_sourced ⟨h.unsent, h.uploaded⟩ hh
  backed := h.backed.step stable_backed trivial hh
  cleared := h.cleared.step stable_cleared h.accounted hh
  prompted := h.prompted.step hh
  reviewed := h.reviewed.step stable_reviewed ⟨h.genuine, h.backed, h.prompted⟩ hh

end Inv

/-- **Every life keeps the invariant.** -/
theorem Life.inv (h : Life rot v) : Inv v := by
  induction h with
  | blank h => exact .blank h
  | legacy h => exact .legacy h
  | step _ hh ih => exact ih.step hh

end Tirke
