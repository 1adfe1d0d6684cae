import Tirke.Spec.Store
import Tirke.Law
/-!
# `_make_directory` on a view

`Syncs v ds` is the view after the directories `ds` were made durable, one after the other. A directory
is `Rooted` when it and its parents are in place, now and after a power failure.
-/

set_option linter.unusedSectionVars false

namespace Tirke

open CrashProg CrashDisk

variable [Lib] [Home] [Weather] {A : Env host} {v : View} {d : Dir}

def View.syncs (v : View) (ds : List Dir) : View := ds.foldl View.sync v

@[simp] theorem syncs_nil : v.syncs [] = v := rfl
@[simp] theorem syncs_cons {ds : List Dir} : v.syncs (d :: ds) = (v.sync d).syncs ds := rfl

theorem vol_syncs {ds : List Dir} : (v.syncs ds).img.vol = v.img.vol := by
  induction ds generalizing v with
  | nil => rfl
  | cons d ds ih => exact ih

theorem slot_syncs {ds : List Dir} : (v.syncs ds).img.slot = v.img.slot := by
  induction ds generalizing v with
  | nil => rfl
  | cons d ds ih => exact ih

theorem look_syncs {ds : List Dir} {q : Path} : (v.syncs ds).look q = v.look q := by
  simp only [View.look, Images.look, vol_syncs, slot_syncs]

theorem reach_syncs {ds : List Dir} : (v.syncs ds).reach d = v.reach d := by
  simp only [View.reach, slot_syncs]

theorem run_syncs {α : Type} {S : Path → Prop} {p : Serv α} {ds : List Dir} (h : ReadOnly S p) :
    (v.syncs ds).run p = v.run p := run_congr h fun _ _ => look_syncs

theorem dur_syncs {ds : List Dir} {q : Path} :
    (v.syncs ds).img.dur q = if q.1 ∈ ds then v.img.vol q else v.img.dur q := by
  induction ds generalizing v with
  | nil => rfl
  | cons d ds ih =>
    rw [syncs_cons, ih]
    simp only [View.sync, View.change_img, Images.apply, List.mem_cons]
    by_cases h₁ : q.1 ∈ ds
    · simp [h₁]
    · by_cases h₂ : q.1 = d <;> simp [h₁, h₂]

theorem slotDur_syncs {ds : List Dir} {c : Dir} (h : ∃ p ∈ ds, parent c = some p) :
    (v.syncs ds).img.slotDur c = v.img.slot c := by
  induction ds generalizing v with
  | nil => obtain ⟨p, hp, -⟩ := h; cases hp
  | cons d ds ih =>
    rw [syncs_cons]
    by_cases hin : ∃ p ∈ ds, parent c = some p
    · rw [ih hin]; rfl
    · obtain ⟨p, hp, hc⟩ := h
      obtain rfl : p = d := by
        rcases List.mem_cons.1 hp with hp | hp
        · exact hp
        · exact absurd ⟨p, hp, hc⟩ hin
      -- nothing synced later concerns `c`
      have hkeep : ∀ (ds : List Dir) (w : View), (¬ ∃ p ∈ ds, parent c = some p) →
          (w.syncs ds).img.slotDur c = w.img.slotDur c := by
        intro ds
        induction ds with
        | nil => exact fun _ _ => rfl
        | cons d ds ih =>
          intro w hn
          rw [syncs_cons, ih _ fun ⟨p, hp, hc⟩ => hn ⟨p, List.mem_cons_of_mem _ hp, hc⟩]
          simp only [View.sync, View.change_img, Images.apply]
          exact if_neg fun hc => hn ⟨d, List.mem_cons_self, hc⟩
      rw [hkeep ds _ hin]
      simp only [View.sync, View.change_img, Images.apply]
      exact if_pos hc

theorem running_syncs {ds : List Dir} : running (v.syncs ds).log = running v.log := by
  induction ds generalizing v with
  | nil => rfl
  | cons d ds ih => exact ih

theorem not_void_syncs {ds : List Dir} (h : v.img.vol (.folder, .meeting) ≠ none) : ¬ (v.syncs ds).Void := by
  rintro ⟨h', -⟩
  rw [vol_syncs] at h'
  exact h h'

/-- `d` is in place, now and after a power failure. -/
structure View.Rooted (v : View) (d : Dir) : Prop where
  now : v.reach d = true
  later : CrashDisk.reach v.img.slotDur d = true

theorem reach_iff {slot : Dir → Slot UUID} : reach slot d = true ↔ ∀ c ∈ d.chain, slot c = .live := by
  simp [reach, DirTree.chain]

theorem rooted_sync (h : v.Rooted d) (d' : Dir) : (v.sync d').Rooted d := by
  refine ⟨h.now, reach_iff.2 fun c hc => ?_⟩
  simp only [View.sync, View.change_img, Images.apply]
  split
  · exact reach_iff.1 h.now c hc
  · exact reach_iff.1 h.later c hc

theorem rooted_syncs (h : v.Rooted d) (ds : List Dir) : (v.syncs ds).Rooted d := by
  induction ds generalizing v with
  | nil => exact h
  | cons d' ds ih => exact ih (rooted_sync h d')

theorem look_afterPower {q : Path} (h : v.Rooted q.1) : v.afterPower.look q = v.img.dur q :=
  if_pos h.later

/-- A directory is reached through every directory on its path. -/
theorem reach_parent {c : Dir} (h : v.reach d = true) (hc : ∀ x ∈ c.chain, x ∈ d.chain) : v.reach c = true :=
  reach_iff.2 fun x hx => reach_iff.1 h x (hc x hx)

/-- `_sync_directory` over a list of directories that are in place. -/
theorem does_syncAll {ds : List Dir} (hr : ∀ d ∈ ds, v.reach d = true) (hm : v.img.vol (.folder, .meeting) ≠ none) :
    Does A Legal (syncAll ds) v fun out v' => (out = .ok () ∧ v' = v.syncs ds) ∨
      (MayFail A ∧ out = .error .osError ∧ ∃ ds', v' = v.syncs ds') := by
  induction ds generalizing v with
  | nil => exact .ret (.inl ⟨rfl, rfl⟩)
  | cons d ds ih =>
    refine Does.bind (R := fun out v' => (out = .ok () ∧ v' = v.sync d) ∨
      (MayFail A ∧ out = .error .osError ∧ v' = v)) ?_ ?_ ?_
    · refine Does.syncDirectory (.inl (show ¬ (v.syncs []).Void from not_void_syncs hm)) (fun h => .synced d h)
        (fun _ => .inl ⟨rfl, rfl⟩) (fun h => ?_) fun hf => .inr ⟨hf.mayFail, rfl, rfl⟩
      rw [hr d List.mem_cons_self] at h; cases h
    · rintro ⟨⟩ v' (⟨-, rfl⟩ | ⟨-, h, -⟩)
      · refine (ih (v := v.sync d) (fun c hc => hr c (List.mem_cons_of_mem _ hc)) hm).mono ?_
        rintro out v' (h | ⟨hf, ho, ds', rfl⟩)
        · exact .inl h
        · exact .inr ⟨hf, ho, d :: ds', rfl⟩
      · cases h
    · rintro e v' (⟨h, -⟩ | ⟨hf, h, rfl⟩)
      · cases h
      · cases h; exact .inr ⟨hf, rfl, [], rfl⟩

/-- **`_make_directory` of the folder**, when it is there: it and its ancestors become durable. -/
theorem does_makeFolder (hr : v.reach .folder = true) (hm : v.img.vol (.folder, .meeting) ≠ none) :
    Does A Legal (makeDirectory .folder) v fun out v' => (out = .ok () ∧ v' = v.syncs Dir.folder.chain) ∨
      (MayFail A ∧ out = .error .osError ∧ ∃ ds, v' = v.syncs ds) := by
  have hchain : ∀ d ∈ Dir.folder.chain, v.reach d = true := by
    intro d hd
    simp only [Dir.chain, List.mem_cons, List.not_mem_nil, or_false] at hd
    rcases hd with rfl | rfl | rfl | rfl | rfl | rfl <;> exact reach_parent hr (by simp [Dir.chain])
  have hlive : ∀ c ∈ Dir.folder.chain, v.img.slot c = .live := reach_iff.1 hr
  refine Does.bind (R := fun out v' => v' = v ∧ (out = .ok () ∨ MayFail A ∧ out = .error .osError)) ?_ ?_ ?_
  · refine Does.handle (R := fun out v' => v' = v ∧ (out = .ok () ∨ MayFail A ∧ out = .error .osError)) ?_ ?_ ?_
    · refine Does.mkdir (fun _ h => ?_) (fun _ h => ?_) (fun _ _ => ⟨rfl, .inl rfl⟩) (fun h => ?_)
        fun hf => ⟨rfl, .inr ⟨hf, rfl⟩⟩
      · rw [hlive .folder (by simp [Dir.chain])] at h; cases h
      · rw [hlive .folder (by simp [Dir.chain])] at h; cases h
      · have : (Dir.folder.chain.tail.all fun c => decide (v.img.slot c = .live)) = true :=
          List.all_eq_true.2 fun c hc => decide_eq_true (hlive c (List.mem_of_mem_tail hc))
        rw [this] at h; cases h
    · exact fun _ _ h => h
    · rintro e v ⟨rfl, h | ⟨hf, h⟩⟩
      · cases h
      · cases h; exact .raise ⟨rfl, .inr ⟨hf, rfl⟩⟩
  · rintro ⟨⟩ v ⟨rfl, -⟩
    exact does_syncAll hchain hm
  · rintro e v ⟨rfl, h | ⟨hf, h⟩⟩
    · cases h
    · cases h; exact .inr ⟨hf, rfl, [], rfl⟩

end Tirke
