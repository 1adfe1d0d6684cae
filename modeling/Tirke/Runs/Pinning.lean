import Tirke.Runs.Uses
/-!
# Published results do not change

`Fixes n g f`: of the results `g` of attempt `n`, the copy `f` of the folder shows nothing but `g`, and shows all of
them until that attempt fails. `Pinned`: under a visible manifest, what is durable fixes what is visible. From then
on both copies fix it (`stable_fixes`), whatever happens.
-/

set_option linter.unusedSectionVars false

namespace Tirke

open CrashProg CrashDisk

variable [Lib] [Home] {v v' : View} {r r' : MeetingRecord} {e : Event} {c c' : Config}

def Fixes (n : Nat) (g f : Name → Option Doc) : Prop := ∀ r, f .meeting = some (.record r) → n ≤ r.meeting.attempt ∧
  (r.meeting.attempt = n → ∀ m ∈ resultNames, f m = g m ∨ r.meeting.status = .failed ∧ f m = none)

theorem Fixes.refl (hr : v.files .meeting = some (.record r)) : Fixes r.meeting.attempt v.files v.files := by
  intro r₁ hr₁
  rw [hr] at hr₁
  cases hr₁
  exact ⟨Nat.le_refl _, fun _ m _ => .inl rfl⟩

/-! ## What is durable fixes what is visible -/

def Pinned (v : View) : Prop := v.inPlay → ∀ r, v.files .meeting = some (.record r) → v.files .manifest ≠ none →
  Fixes r.meeting.attempt v.files v.backup

namespace Pinned

theorem same (h : Pinned v) (hb : v'.backup = v.backup) (hp : v'.inPlay → v.inPlay)
    (hf : ∀ n ∈ Name.meeting :: .manifest :: resultNames, v'.files n = v.files n) : Pinned v' := by
  intro hin r hr hm
  rw [hf _ (by simp)] at hr hm
  rw [hb]
  intro r₁ hr₁
  obtain ⟨hle, hsame⟩ := h (hp hin) r hr hm r₁ hr₁
  refine ⟨hle, fun ha m hm' => ?_⟩
  rw [hf m (List.mem_cons_of_mem _ (List.mem_cons_of_mem _ hm'))]
  exact hsame ha m hm'

theorem settled (h : v.backup = v.files) : Pinned v := by
  intro _ r hr _
  rw [h]
  exact .refl hr

theorem unpublished (h : v.files .manifest = none) : Pinned v := fun _ _ _ hm => absurd h hm

theorem unmarked (h : v.files .meeting = none) : Pinned v := by
  intro _ r hr
  rw [h] at hr
  cases hr

/-- A file of the folder that is no result is written. -/
theorem put (h : Pinned v) {n : Name} {x : Doc} (hn : n ∉ Name.meeting :: .manifest :: resultNames) :
    Pinned (v.put (.folder, n) x) := by
  refine h.same rfl (fun hp => inPlay_before hp rfl rfl nofun) fun m hm => ?_
  have hne : m ≠ n := fun he => hn (he ▸ hm)
  rw [Holds.files_put, Function.update_of_ne hne]

theorem drop (h : Pinned v) {n : Name} (hn : n ∉ Name.meeting :: .manifest :: resultNames) :
    Pinned (v.drop (.folder, n)) := by
  refine h.same rfl (fun hp => inPlay_before hp rfl rfl nofun) fun m hm => ?_
  have hne : m ≠ n := fun he => hn (he ▸ hm)
  rw [Holds.files_drop, Function.update_of_ne hne]

/-- Under a manifest, a move keeps the attempt. -/
theorem moved (h : Pinned v) (hi : Inv v) (hr : v.run readRecord = .ok r) (hm : Move v r r') :
    Pinned (v.put (.folder, .meeting) (.record r')) := by
  intro hin r₁ hr₁ hman
  have hrec := files_of_readable hr
  have hfile : ∀ n, n ≠ .meeting → (v.put (.folder, .meeting) (.record r')).files n = v.files n := by
    intro n hn
    rw [Holds.files_put, Function.update_of_ne hn]
  rw [Holds.files_put, Function.update_self] at hr₁
  cases hr₁
  rw [hfile .manifest nofun] at hman
  obtain ⟨d, hd⟩ := Option.ne_none_iff_exists'.1 hman
  obtain ⟨b, hb⟩ := hi.backed.now (inPlay_of_readable hr) r d hrec hd
  have hatt : r'.meeting.attempt = r.meeting.attempt := (hm.backed hr hd hb).1
  intro r₂ hr₂
  obtain ⟨hle, hsame⟩ := h (inPlay_of_readable hr) r hrec hman r₂ hr₂
  rw [hatt]
  refine ⟨hle, fun ha m hm' => ?_⟩
  rw [hfile m (by rintro rfl; simp [resultNames] at hm')]
  exact hsame ha m hm'

theorem lawful (h : Pinned v) (hi : Inv v) (hl : Legal v e) : Pinned (v.after e) := by
  have hnote : (∀ t, e ≠ .file (.renamed .folder t)) → Pinned (v.note e) := fun he =>
    h.same rfl (fun hp => inPlay_before hp rfl rfl he) fun _ _ => rfl
  cases hl with
  | synced d hr =>
    by_cases hd : d = .folder
    · subst hd
      refine settled ?_
      funext m
      exact dur_sync_self (q := ((.folder, m) : Path))
    · refine h.same ?_ (fun hp => inPlay_before hp rfl rfl (by simp)) fun _ _ => rfl
      funext m
      simp only [View.backup, after_file, View.change_img, Images.apply]
      exact if_neg fun he => hd he.symm
  | made d hd =>
    rcases hd with hd | hd
    · exact h.same rfl (fun hp => inPlay_before hp rfl (Function.update_of_ne hd.symm _ _) (by simp)) fun _ _ => rfl
    · exact unmarked hd.1.1
  | uploaded x hv => exact h.put (by simp [resultNames])
  | born metadata t kind hours audio extension hm hv hr hu ho =>
    refine unpublished ?_
    have hne : Name.manifest ≠ .meeting := by simp
    rw [after_put_of_ne hne]
    exact ho .manifest (by simp)
  | withdrawn => exact unmarked after_drop_self
  | moved r r' hr hok hm => exact h.moved hi hr hm
  | artifact r b n x hp hs hx hn =>
    refine unpublished ?_
    have hman : v.files .manifest = none :=
      (look_of_reach (p := (.folder, .manifest)) (readable_reach hp.readable)).symm.trans hp.unpublished
    have hne : Name.manifest ≠ n := by rintro rfl; rcases artifact_name hx with h | h | h <;> cases h
    exact (after_put_of_ne hne).trans hman
  | manifest r b hp hs hb ha hd =>
    intro _ r₁ hr₁ _ r₂ hr₂
    have hne : Name.meeting ≠ .manifest := by simp
    rw [after_put_of_ne hne] at hr₁
    have hback : v.backup .meeting = v.files .meeting := hd .meeting
    have hr₂' : v.backup .meeting = some (.record r₂) := hr₂
    rw [hback, hr₁] at hr₂'
    cases hr₂'
    refine ⟨Nat.le_refl _, fun _ m hm => .inl ?_⟩
    rw [after_put_of_ne (by rintro rfl; simp [resultNames] at hm)]
    exact hd m
  | archived r n x hr hs hx =>
    refine h.same rfl (fun _ => inPlay_of_readable hr) fun m _ => ?_
    have hne : ((.folder, m) : Path) ≠ (.attempt r.meeting.attempt, n) := by simp
    exact vol_put_of_ne (v := v) (x := x) hne
  | dropped r n x hr hs hx hn hname hfirst =>
    refine unpublished ?_
    by_cases hman : n = .manifest
    · subst hman
      exact after_drop_self
    · have hnone : v.files .manifest = none :=
        (look_of_reach (p := (.folder, .manifest)) (readable_reach hr)).symm.trans (hfirst hman)
      exact (after_drop_of_ne (Ne.symm hman)).trans hnone
  | snapshot | review | pdf | pdfMarker => exact h.put (by simp [resultNames])
  | pdfDropped r n hr hn =>
    refine h.drop ?_
    rcases hn with rfl | rfl <;> simp [resultNames]
  | uploadDropped => exact h.drop (by simp [resultNames])
  | renamed r t hr => exact h.same rfl (fun _ => inPlay_of_readable hr) fun _ _ => rfl
  | restored t log ht => exact h.same rfl (fun _ => .inr ⟨t, log, ht⟩) fun _ _ => rfl
  | wiped left hw =>
    intro hin r hr
    obtain ⟨-, hnone⟩ := wiped_inPlay hw hin
    have hvol : (v.img.apply (.wiped .folder left)).vol (.folder, .meeting) = some (.record r) := hr
    rcases Images.vol_apply hvol with hx | hx
    · cases hx.symm.trans hnone
    · cases hx
  | _ => exact hnote (by simp)

theorem step (h : Pinned v) (hi : Inv v) (hh : Happens False v v') : Pinned v' := by
  cases hh with
  | lawful e hl => exact h.lawful hi hl
  | bounds e he =>
    exact h.same rfl (fun hp => inPlay_before hp rfl rfl (by rintro t rfl; exact he.elim)) fun _ _ => rfl
  | power => exact settled rfl
  | damaged n d hrot => exact hrot.elim

end Pinned

theorem Life.pinned (h : Life False v) : Pinned v := by
  induction h with
  | blank h => exact .unmarked (h.files _).1
  | legacy h =>
    refine Pinned.settled ?_
    funext m
    rw [View.files, View.backup, h.files.1, h.files.2]
  | step h hh ih => exact ih.step h.inv hh

/-! ## They stay fixed -/

theorem Fixes.update {n : Nat} {g f : Name → Option Doc} {m : Name} {x : Option Doc} (h : Fixes n g f)
    (hm : m ∉ Name.meeting :: resultNames) : Fixes n g (Function.update f m x) := by
  intro r hr
  have hne : ∀ k ∈ Name.meeting :: resultNames, k ≠ m := fun k hk he => hm (he ▸ hk)
  rw [Function.update_of_ne (hne .meeting List.mem_cons_self)] at hr
  obtain ⟨hle, hsame⟩ := h r hr
  refine ⟨hle, fun ha k hk => ?_⟩
  rw [Function.update_of_ne (hne k (List.mem_cons_of_mem _ hk))]
  exact hsame ha k hk

theorem stable_fixes {n : Nat} {g : Name → Option Doc} (hg : ∀ m ∈ resultNames, g m ≠ none) :
    Stable (fun v => running v.log ≠ none) fun v _ f => undamaged v.log → Fixes n g f where
  absent h0 _ r hr := by rw [h0] at hr; cases hr
  frozen {v e h f} _ _ _ hp hu := by
    rw [after_log] at hu
    exact hp (undamaged_cons hu)
  bounds _ _ hp hu := hp (undamaged_cons hu)
  power _ hp hu := hp (undamaged_cons hu)
  damaged {v m d h f} _ _ _ hu := absurd List.mem_cons_self (hu m d)
  put {v m x} _ hl hm hin hp hu := by
    replace hp := hp (undamaged_cons hu)
    cases hl with
    | moved | born => exact absurd rfl hm
    | artifact r b m x hpub hs hx hn =>
      intro r₁ hr₁
      rw [Function.update_of_ne hm.symm, files_of_readable hpub.readable] at hr₁
      cases hr₁
      obtain ⟨hle, hsame⟩ := hp r (files_of_readable hpub.readable)
      refine ⟨hle, fun ha => ?_⟩
      -- an artifact is written where none is, so this is not the attempt whose results are fixed
      have hname : m ∈ resultNames := by rcases artifact_name hx with rfl | rfl | rfl <;> simp [resultNames]
      have hnone : v.files m = none :=
        (look_of_reach (p := (.folder, m)) (readable_reach hpub.readable)).symm.trans hn
      rcases hsame ha m hname with hf | ⟨hf, -⟩
      · exact absurd (hf.symm.trans hnone) (hg m hname)
      · rw [hs] at hf
        cases hf
    | uploaded | manifest | snapshot | review | pdf | pdfMarker => exact hp.update (by simp [resultNames])
  removed {v m} _ hl hm hin hp hu := by
    replace hp := hp (undamaged_cons hu)
    cases hl with
    | withdrawn => exact absurd rfl hm
    | dropped r m x hr hs =>
      intro r₁ hr₁
      rw [Function.update_of_ne hm.symm, files_of_readable hr] at hr₁
      cases hr₁
      obtain ⟨hle, hsame⟩ := hp r (files_of_readable hr)
      refine ⟨hle, fun ha k hk => ?_⟩
      by_cases hkm : k = m
      · rw [hkm, Function.update_self]
        exact .inr ⟨hs, rfl⟩
      · rw [Function.update_of_ne hkm]
        exact hsame ha k hk
    | pdfDropped r m hr hname =>
      refine hp.update ?_
      rcases hname with rfl | rfl <;> simp [resultNames]
    | uploadDropped => exact hp.update (by simp [resultNames])
  moved {v r r'} _ hr hok hm ha hp hu := by
    intro r₁ hr₁
    rw [Function.update_self] at hr₁
    cases hr₁
    obtain ⟨hle, hsame⟩ := hp (undamaged_cons hu) r (files_of_readable hr)
    have hatt : r.meeting.attempt ≤ r'.meeting.attempt := by rcases hm.attempt with h | ⟨-, -, h⟩ <;> omega
    refine ⟨Nat.le_trans hle hatt, fun hn k hk => ?_⟩
    have hsameAtt : r'.meeting.attempt = r.meeting.attempt := by omega
    rw [Function.update_of_ne (by rintro rfl; simp [resultNames] at hk)]
    rcases hsame (by omega) k hk with hf | ⟨hf, hnone⟩
    · exact .inl hf
    · exact .inr ⟨hm.failed_stays hsameAtt hf, hnone⟩
  born hI _ hr _ := absurd hr hI

end Tirke
