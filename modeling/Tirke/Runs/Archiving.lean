import Tirke.Runs.Uses
/-!
# No original is lost

`Firm`: under a failed record that is on disk, the originals of its attempt are on disk. `Preserving n O`: what the
folder of the failed attempt `n` held is still there, or safe in the archive, in what shows as in what is durable.
-/

set_option linter.unusedSectionVars false

namespace Tirke

open CrashProg CrashDisk

variable [Lib] [Home] [Weather] {v v' : View} {r r' : MeetingRecord} {e : Event} {c c' : Config} {rot : Prop}
  {n : Nat} {name : Name} {x : Doc}

/-! ## Under a failed record the originals are on disk -/

def Firm (v : View) : Prop := ∀ r r', v.files .meeting = some (.record r) → v.backup .meeting = some (.record r') →
  r.meeting.status = .failed → r'.meeting.status = .failed → r.meeting.attempt = r'.meeting.attempt →
    ∀ name ∈ originals, ∀ x, v.files name = some x → v.backup name = some x

namespace Firm

theorem same (h : Firm v) (hb : v'.backup = v.backup)
    (hf : ∀ n ∈ Name.meeting :: originals, ∀ x, v'.files n = some x → v.files n = some x) : Firm v' := by
  intro r r' hr hr' hs hs' ha name hn x hx
  rw [hb] at hr' ⊢
  exact h r r' (hf _ List.mem_cons_self _ hr) hr' hs hs' ha name hn x (hf _ (List.mem_cons_of_mem _ hn) x hx)

theorem settled (h : v.backup = v.files) : Firm v := by
  intro r r' _ _ _ _ _ name _ x hx
  rw [h]
  exact hx

/-- A file of the folder that is no original is written. -/
theorem put (h : Firm v) {m : Name} (hm : m ∉ Name.meeting :: originals) : Firm (v.put (.folder, m) x) := by
  refine h.same rfl fun n hn y hy => ?_
  have hne : n ≠ m := fun he => hm (he ▸ hn)
  rwa [Holds.files_put, Function.update_of_ne hne] at hy

theorem drop (h : Firm v) {m : Name} : Firm (v.drop (.folder, m)) := by
  refine h.same rfl fun n _ y hy => ?_
  rw [Holds.files_drop, Function.update_apply] at hy
  split at hy
  · cases hy
  · exact hy

/-- No original is written under a failed record. -/
theorem unfailed (hr : v.run readRecord = .ok r) (hs : r.meeting.status ≠ .failed) {m : Name} (hm : m ≠ .meeting) :
    Firm (v.put (.folder, m) x) := by
  intro r₁ r' hr₁ _ hs₁
  rw [Holds.files_put, Function.update_of_ne hm.symm, files_of_readable hr] at hr₁
  cases hr₁
  exact absurd hs₁ hs

/-- A record that fails is not failed on disk. -/
theorem moved (h : Firm v) (hi : Inv v) (hr : v.run readRecord = .ok r) (hm : Move v r r') :
    Firm (v.put (.folder, .meeting) (.record r')) := by
  intro r₁ r₂ hr₁ hr₂ hs₁ hs₂ ha name hn x hx
  have hne : name ≠ .meeting := by rintro rfl; simp [originals] at hn
  rw [Holds.files_put, Function.update_self] at hr₁
  cases hr₁
  rw [Holds.files_put, Function.update_of_ne hne] at hx
  replace hr₂ : v.backup .meeting = some (.record r₂) := hr₂
  have hatt : r'.meeting.attempt = r.meeting.attempt := by
    rcases hm.attempt_or with ha | ⟨t, rfl, -⟩
    · exact ha
    · cases hs₁
  obtain ⟨k, hk, rfl⟩ := hi.kept_hist hr₂
  have hs : r.meeting.status = .failed := by
    rcases hi.newest (inPlay_of_readable hr) (files_of_readable hr) hk with rfl | he
    · exact hs₂
    · exact he.failed (by omega) hs₂
  exact h r k.record (files_of_readable hr) hr₂ hs hs₂ (by omega) name hn x hx

theorem lawful (h : Firm v) (hi : Inv v) (hl : Legal v e) : Firm (v.after e) := by
  have hnote : Firm (v.note e) := h.same rfl fun _ _ _ hx => hx
  cases hl with
  | synced d =>
    by_cases hd : d = .folder
    · subst hd
      refine settled ?_
      funext m
      exact dur_sync_self (q := ((.folder, m) : Path))
    · refine h.same ?_ fun _ _ _ hx => hx
      funext m
      simp only [View.backup, after_file, View.change_img, Images.apply]
      exact if_neg fun he => hd he.symm
  | born _ _ _ _ _ _ _ hv =>
    intro r r' _ hr'
    have hn : v.backup .meeting = none := hv.2
    replace hr' : v.backup .meeting = some (.record r') := hr'
    rw [hn] at hr'
    cases hr'
  | moved r r' hr hok hm ha => exact h.moved hi hr hm
  | artifact r b m x hp hs hx =>
    refine unfailed hp.readable (by rw [hs]; rintro ⟨⟩) ?_
    rintro rfl
    simp [ResultBundleV1.artifacts] at hx
  | manifest r b hp hs => exact unfailed hp.readable (by rw [hs]; rintro ⟨⟩) (by simp)
  | archived r m x =>
    refine h.same rfl fun n _ y hy => ?_
    have hne : ((.folder, n) : Path) ≠ (.attempt r.meeting.attempt, m) := by simp
    exact (vol_put_of_ne (v := v) (x := x) hne).symm.trans hy
  | uploaded | snapshot | review | pdf | pdfMarker => exact h.put (by simp [originals])
  | withdrawn | dropped | pdfDropped | uploadDropped => exact h.drop
  | made | renamed | restored => exact h.same rfl fun _ _ _ hx => hx
  | wiped left =>
    refine h.same rfl fun n _ x hx => ?_
    have hvol : (v.img.apply (.wiped .folder left)).vol (.folder, n) = some x := hx
    rcases Images.vol_apply hvol with hy | hy
    · exact hy
    · cases hy
  | _ => exact hnote

theorem step (h : Firm v) (hi : Inv v) (hh : Happens rot v v') : Firm v' := by
  cases hh with
  | lawful e hl => exact h.lawful hi hl
  | bounds e he => exact h.same rfl fun _ _ _ hx => hx
  | power => exact settled rfl
  | damaged m d _ hm =>
    have hfile : ∀ k, k ≠ m → (v.damaged m d).files k = v.files k ∧ (v.damaged m d).backup k = v.backup k := by
      intro k hk
      have hne : ((.folder, k) : Path) ≠ (.folder, m) := fun he => hk (congrArg Prod.snd he)
      exact ⟨Function.update_of_ne hne _ _, Function.update_of_ne hne _ _⟩
    have hmark : Name.meeting ≠ m := by rintro rfl; simp [resultNames] at hm
    intro r r' hr hr' hs hs' ha name hn x hx
    rw [(hfile _ hmark).1] at hr
    rw [(hfile _ hmark).2] at hr'
    by_cases hk : name = m
    · subst hk
      have hf : (v.damaged name d).files name = d := Function.update_self ..
      have hb : (v.damaged name d).backup name = d := Function.update_self ..
      rw [hf] at hx
      rw [hb, hx]
    · rw [(hfile _ hk).1] at hx
      rw [(hfile _ hk).2]
      exact h r r' hr hr' hs hs' ha name hn x hx

end Firm

theorem Life.firm (h : Life rot v) : Firm v := by
  induction h with
  | blank h =>
    intro r r' hr
    rw [View.files, (h.files _).1] at hr
    cases hr
  | legacy h =>
    refine Firm.settled ?_
    funext m
    rw [View.files, View.backup, h.files.1, h.files.2]
  | step h hh ih => exact ih.step h.inv hh

/-! ## The marker does not go away -/

/-- As long as the folder is in play, it has a marker. -/
structure Marked (v : View) : Prop where
  acting : running v.log ≠ none
  now : v.inPlay → v.files .meeting ≠ none

theorem files_put_ne {p : Path} {y : Doc} (h : v.files .meeting ≠ none) : (v.put p y).files .meeting ≠ none := by
  simp only [View.files, View.put, View.change_img, Images.apply, Function.update_apply]
  split
  · rintro ⟨⟩
  · exact h

theorem Marked.lawful (h : Marked v) (hl : Legal v e) : Marked (v.after e) := by
  have hrun : running (v.after e).log ≠ none := by rw [after_log, hl.running]; exact h.acting
  have hput : ∀ p y, Marked (v.put p y) := by
    intro p y
    exact ⟨h.acting, fun hp => files_put_ne (h.now (inPlay_before hp rfl rfl (by simp)))⟩
  have hdrop : ∀ m : Name, m ≠ .meeting → Marked (v.drop (.folder, m)) := by
    intro m hm
    have hf : (v.drop (.folder, m)).files .meeting = v.files .meeting := by
      rw [Holds.files_drop, Function.update_of_ne hm.symm]
    refine ⟨h.acting, fun hp => ?_⟩
    rw [hf]
    exact h.now (inPlay_before hp rfl rfl (by simp))
  have hnote : ∀ e : Event, (∀ t, e ≠ .file (.renamed .folder t)) → running (e :: v.log) ≠ none → Marked (v.note e) :=
    fun e he hr => ⟨hr, fun hp => h.now (inPlay_before hp rfl rfl he)⟩
  cases hl with
  | synced d hr => exact ⟨hrun, fun hp => h.now (inPlay_before hp rfl rfl (by simp))⟩
  | made d hd =>
    have hne : d ≠ .folder := hd.resolve_right fun hv => h.acting hv.2
    exact ⟨hrun, fun hp => h.now (inPlay_before hp rfl (Function.update_of_ne hne.symm _ _) (by simp))⟩
  | uploaded | born | moved | artifact | manifest | archived | snapshot | review | pdf | pdfMarker => exact hput _ _
  | withdrawn hr => exact absurd hr h.acting
  | dropped r m x _ _ _ _ hname => exact hdrop m (by rintro rfl; simp [originals] at hname)
  | pdfDropped r m _ hm => exact hdrop m (by rcases hm with rfl | rfl <;> rintro ⟨⟩)
  | uploadDropped => exact hdrop _ (by simp)
  | renamed r t hr => exact ⟨hrun, fun _ => h.now (inPlay_of_readable hr)⟩
  | restored t log ht => exact ⟨hrun, fun _ => h.now (.inr ⟨t, log, ht⟩)⟩
  | wiped left hgone =>
    refine ⟨hrun, fun hp => ?_⟩
    obtain ⟨hin, hnone⟩ := wiped_inPlay hgone hp
    exact absurd hnone (h.now hin)
  | submit | getJob | getJobByKey | getResult | ack | responded => exact hnote _ (by simp) hrun

/-! ## What was archived is safe -/

/-- The original is in the archive of attempt `n`, and a power failure does not take it away. -/
structure Stored (v : View) (n : Nat) (name : Name) (x : Doc) : Prop where
  dur : v.img.dur (.attempt n, name) = some x
  rooted : v.img.slotDur .attempts = .live ∧ v.img.slotDur (.attempt n) = .live
  now : v.inPlay → v.img.slot .attempts = .live ∧ v.img.slot (.attempt n) = .live ∧
    v.img.vol (.attempt n, name) = some x

namespace Stored

theorem same (h : Stored v n name x) (hd : v'.img.dur = v.img.dur) (hs : v'.img.slotDur = v.img.slotDur)
    (hp : v'.inPlay → v.inPlay) (hl : ∀ d, d ≠ .folder → v'.img.slot d = v.img.slot d)
    (hv : v'.img.vol (.attempt n, name) = v.img.vol (.attempt n, name)) : Stored v' n name x := by
  refine ⟨by rw [hd]; exact h.dur, by rw [hs]; exact h.rooted, fun hplay => ?_⟩
  obtain ⟨ha, hn, hx⟩ := h.now (hp hplay)
  exact ⟨(hl .attempts nofun).trans ha, (hl (.attempt n) nofun).trans hn, hv.trans hx⟩

theorem note (h : Stored v n name x) (he : ∀ t, e ≠ .file (.renamed .folder t)) : Stored (v.note e) n name x :=
  h.same rfl rfl (fun hp => inPlay_before hp rfl rfl he) (fun _ _ => rfl) rfl

theorem put (h : Stored v n name x) {p : Path} {y : Doc} (hp : p ≠ (.attempt n, name)) : Stored (v.put p y) n name x :=
  h.same rfl rfl (fun hp => inPlay_before hp rfl rfl nofun) (fun _ _ => rfl) (vol_put_of_ne hp.symm)

theorem drop (h : Stored v n name x) {m : Name} : Stored (v.drop (.folder, m)) n name x := by
  have hne : ((.attempt n, name) : Path) ≠ (.folder, m) := nofun
  exact h.same rfl rfl (fun hp => inPlay_before hp rfl rfl nofun) (fun _ _ => rfl) (Function.update_of_ne hne none v.img.vol)

theorem sync (h : Stored v n name x) {d : Dir} (hr : v.reach d = true) : Stored (v.sync d) n name x := by
  have hplay : Dir.folder ∈ d.chain → v.inPlay := fun hd => inPlay_of_live (live_of_reach hr hd)
  have hslot : ∀ c, CrashDisk.parent c = some d → Dir.folder ∈ d.chain → v.img.slotDur c = .live →
      (v.inPlay → v.img.slot c = .live) → (v.sync d).img.slotDur c = .live := by
    intro c hc hd _ hnow
    simp only [View.sync, View.change_img, Images.apply, if_pos hc]
    exact hnow (hplay hd)
  have hother : ∀ c, CrashDisk.parent c ≠ some d → v.img.slotDur c = .live → (v.sync d).img.slotDur c = .live := by
    intro c hc hl
    simp only [View.sync, View.change_img, Images.apply, if_neg hc]
    exact hl
  refine ⟨?_, ⟨?_, ?_⟩, fun hp => h.now (inPlay_before hp rfl rfl (by simp))⟩
  · by_cases hd : Dir.attempt n = d
    · subst hd
      simp only [View.sync, View.change_img, Images.apply]
      exact (h.now (hplay (by simp [Dir.chain]))).2.2
    · simp only [View.sync, View.change_img, Images.apply, if_neg hd]
      exact h.dur
  · by_cases hd : d = .folder
    · subst hd
      exact hslot .attempts rfl (by simp [Dir.chain]) h.rooted.1 fun hp => (h.now hp).1
    · exact hother .attempts (fun he => hd (Option.some.inj he).symm) h.rooted.1
  · by_cases hd : d = .attempts
    · subst hd
      exact hslot (.attempt n) rfl (by simp [Dir.chain]) h.rooted.2 fun hp => (h.now hp).2.1
    · exact hother (.attempt n) (fun he => hd (Option.some.inj he).symm) h.rooted.2

theorem power (h : Stored v n name x) : Stored v.restarted n name x :=
  ⟨h.dur, h.rooted, fun _ => ⟨h.rooted.1, h.rooted.2, h.dur⟩⟩

/-- What is saved stays saved, as long as there is a marker. -/
theorem lawful (h : Stored v n name x) (hl : Legal v e) (hm : Marked v) : Stored (v.after e) n name x := by
  cases hl with
  | synced d hr => exact h.sync hr
  | made d hd =>
    have hne : d ≠ .folder := hd.resolve_right fun hv => hm.acting hv.2
    refine ⟨h.dur, h.rooted, fun hp => ?_⟩
    have hp' : v.inPlay := inPlay_before hp rfl (Function.update_of_ne hne.symm _ _) (by simp)
    obtain ⟨ha, hn, hx⟩ := h.now hp'
    have hlive : ∀ c, v.img.slot c = .live → (v.change (.made d)).img.slot c = .live := by
      intro c hc
      simp only [View.change_img, Images.apply, Function.update_apply]
      split
      · rfl
      · exact hc
    exact ⟨hlive _ ha, hlive _ hn, hx⟩
  | archived r m y hr hs hy hfree hname =>
    refine h.put fun he => ?_
    cases he
    obtain ⟨ha, hn, hx⟩ := h.now (inPlay_of_readable hr)
    have hreach : v.reach (.attempt r.meeting.attempt) = true := by
      refine reach_iff.2 fun c hc => ?_
      rcases List.mem_cons.1 hc with rfl | hc
      · exact hn
      rcases List.mem_cons.1 hc with rfl | hc
      · exact ha
      exact reach_iff.1 (readable_reach hr) c hc
    rw [look_of_reach (p := (.attempt r.meeting.attempt, name)) hreach, hx] at hfree
    cases hfree
  | artifact | uploaded | born | moved | manifest | snapshot | review | pdf | pdfMarker => exact h.put (by simp)
  | withdrawn | dropped | pdfDropped | uploadDropped => exact h.drop
  | renamed r t hr =>
    obtain ⟨ha, hn, hx⟩ := h.now (inPlay_of_readable hr)
    exact ⟨h.dur, h.rooted, fun _ => ⟨ha, hn, hx⟩⟩
  | restored t log ht =>
    obtain ⟨ha, hn, hx⟩ := h.now (.inr ⟨t, log, ht⟩)
    exact ⟨h.dur, h.rooted, fun _ => ⟨ha, hn, hx⟩⟩
  | wiped left hgone =>
    refine ⟨h.dur, h.rooted, fun hp => ?_⟩
    obtain ⟨hin, hnone⟩ := wiped_inPlay hgone hp
    exact absurd hnone (hm.now hin)
  | _ => exact h.note (by simp)

/-- As long as the folder is in place, the saved original shows, and will after a power failure. -/
theorem durable (h : Stored v n name x) (hr : v.Rooted .folder) : v.Durable (.attempt n, name) x := by
  obtain ⟨ha, hn, hx⟩ := h.now (inPlay_of_live (live_of_reach hr.now (by simp [Dir.chain])))
  have hroot : v.Rooted (.attempt n) := by
    refine ⟨reach_iff.2 fun c hc => ?_, reach_iff.2 fun c hc => ?_⟩
    · rcases List.mem_cons.1 hc with rfl | hc
      · exact hn
      rcases List.mem_cons.1 hc with rfl | hc
      · exact ha
      exact reach_iff.1 hr.now c hc
    · rcases List.mem_cons.1 hc with rfl | hc
      · exact h.rooted.2
      rcases List.mem_cons.1 hc with rfl | hc
      · exact h.rooted.1
      exact reach_iff.1 hr.later c hc
  exact ⟨(look_of_reach hroot.now).trans hx, (look_afterPower hroot).trans h.dur⟩

theorem of_durable (h : v.Durable (.attempt n, name) x) : Stored v n name x := by
  have hnow := reach_of_look h.now
  have hlater := reach_of_look h.later
  have hmem : Dir.attempts ∈ (Dir.attempt n).chain ∧ Dir.attempt n ∈ (Dir.attempt n).chain := by simp [Dir.chain]
  refine ⟨vol_of_look h.later, ⟨reach_iff.1 hlater _ hmem.1, reach_iff.1 hlater _ hmem.2⟩, fun _ => ?_⟩
  exact ⟨reach_iff.1 hnow _ hmem.1, reach_iff.1 hnow _ hmem.2, vol_of_look h.now⟩

end Stored

/-! ## Runs over a failed attempt -/

/-- Whoever reads the meeting finds attempt `n` failed, or a later one. -/
def Still (n : Nat) (v : View) : Prop := ∀ r, v.run readRecord = .ok r →
  n < r.meeting.attempt ∨ r.meeting.attempt = n ∧ r.meeting.status = .failed

/-- The originals `O` of attempt `n` are in the folder or in the archive. -/
structure Preserving (n : Nat) (O : Name → Doc → Prop) (v : View) : Prop where
  acting : running v.log ≠ none
  marked : v.inPlay → v.backup .meeting ≠ none → v.files .meeting ≠ none
  now : v.inPlay → ∀ r, v.files .meeting = some (.record r) → r.meeting.attempt = n →
    ∀ name x, O name x → v.files name = some x ∨ Stored v n name x
  later : ∀ r, v.backup .meeting = some (.record r) → r.meeting.attempt = n → r.meeting.status = .failed →
    ∀ name x, O name x → v.backup name = some x ∨ Stored v n name x

namespace Preserving
variable {O : Name → Doc → Prop}

/-- What the folder of a failed attempt holds. -/
theorem start (hf : Firm v) (hr : v.run readRecord = .ok r) (hs : r.meeting.status = .failed)
    (ha : running v.log ≠ none) :
    Preserving r.meeting.attempt (fun name x => name ∈ originals ∧ v.look (.folder, name) = some x) v := by
  have hrec := files_of_readable hr
  refine ⟨ha, fun _ _ => by rw [hrec]; nofun, fun _ r₁ _ _ name x hO => .inl (vol_of_look hO.2), ?_⟩
  intro r' hr' hatt hs' name x hO
  exact .inl (hf r r' hrec hr' hs hs' hatt.symm name hO.1 x (vol_of_look hO.2))

/-- An event that leaves the marker alone, and every original where it is or in the archive. -/
theorem same (h : Preserving n O v) (ha : running v'.log = running v.log) (hp : v'.inPlay → v.inPlay)
    (hm : v'.inPlay → v'.files .meeting = v.files .meeting) (hb : v'.backup = v.backup)
    (hf : v'.inPlay → ∀ r, v.files .meeting = some (.record r) → r.meeting.attempt = n →
      ∀ name x, O name x → v.files name = some x → v'.files name = some x ∨ Stored v' n name x)
    (hs : ∀ name x, Marked v → Stored v n name x → Stored v' n name x) :
    Preserving n O v' := by
  refine ⟨by rw [ha]; exact h.acting, fun hin hne => ?_, fun hin r hr hatt name x hO => ?_, fun r hr hatt hfail name x hO => ?_⟩
  · rw [hm hin]
    exact h.marked (hp hin) (by rwa [hb] at hne)
  · rw [hm hin] at hr
    rcases h.now (hp hin) r hr hatt name x hO with hx | hx
    · exact hf hin r hr hatt name x hO hx
    · exact .inr (hs name x ⟨h.acting, fun _ => by rw [hr]; nofun⟩ hx)
  · rw [hb] at hr ⊢
    refine (h.later r hr hatt hfail name x hO).imp_right (hs name x ⟨h.acting, fun hin => h.marked hin ?_⟩)
    rw [hr]
    nofun

/-- A file of the folder other than the marker is written. -/
theorem put (h : Preserving n O v) (hO : ∀ name x, O name x → name ∈ originals) {m : Name} {y : Doc}
    (hl : Legal v (.file (.put (.folder, m) y))) (hm : m ≠ .meeting)
    (hno : m ∈ originals → ∀ r, v.files .meeting = some (.record r) → r.meeting.attempt ≠ n) :
    Preserving n O (v.put (.folder, m) y) := by
  refine h.same rfl (fun hp => inPlay_before hp rfl rfl nofun) (fun _ => ?_) rfl (fun _ r hr hatt name x hx hn => .inl ?_)
    fun name x hm hs => hs.lawful hl hm
  · rw [Holds.files_put, Function.update_of_ne hm.symm]
  · have hne : name ≠ m := by
      rintro rfl
      exact hno (hO name x hx) r hr hatt
    rwa [Holds.files_put, Function.update_of_ne hne]

theorem drop (h : Preserving n O v) (hO : ∀ name x, O name x → name ∈ originals) {m : Name}
    (hl : Legal v (.file (.removed (.folder, m)))) (hm : m ≠ .meeting)
    (hsafe : m ∈ originals → ∀ r, v.files .meeting = some (.record r) → r.meeting.attempt = n →
      ∀ x, v.files m = some x → Stored v n m x) : Preserving n O (v.drop (.folder, m)) := by
  have hkeep : ∀ name x, Marked v → Stored v n name x → Stored (v.drop (.folder, m)) n name x :=
    fun name x hm hs => hs.lawful hl hm
  refine h.same rfl (fun hp => inPlay_before hp rfl rfl nofun) (fun _ => ?_) rfl (fun _ r hr hatt name x hx hn => ?_) hkeep
  · rw [Holds.files_drop, Function.update_of_ne hm.symm]
  · by_cases he : name = m
    · subst he
      exact .inr ((hsafe (hO name x hx) r hr hatt x hn).drop)
    · exact .inl (by rwa [Holds.files_drop, Function.update_of_ne he])

theorem moved (h : Preserving n O v) (hO : ∀ name x, O name x → name ∈ originals) (hst : Still n v)
    (hr : v.run readRecord = .ok r) (hm : Move v r r') : Preserving n O (v.put (.folder, .meeting) (.record r')) := by
  have hin := inPlay_of_readable hr
  have hrec := files_of_readable hr
  refine ⟨h.acting, fun _ _ => ?_, fun _ r₁ hr₁ hatt name x hx => ?_, fun r₁ hr₁ hatt hfail name x hx => ?_⟩
  · rw [Holds.files_put, Function.update_self]
    rintro ⟨⟩
  · rw [Holds.files_put, Function.update_self] at hr₁
    cases hr₁
    have hle : r.meeting.attempt = n := by
      have hge := hst r hr
      rcases hm.attempt with ha | ⟨-, -, ha⟩ <;> omega
    have hne : name ≠ .meeting := by
      rintro rfl
      simpa [originals] using hO _ _ hx
    rw [Holds.files_put, Function.update_of_ne hne]
    exact (h.now hin r hrec hle name x hx).imp_right fun hs => hs.put (by simp)
  · exact (h.later r₁ hr₁ hatt hfail name x hx).imp_right fun hs => hs.put (by simp)

theorem sync (h : Preserving n O v) {d : Dir} (hr : v.reach d = true) : Preserving n O (v.sync d) := by
  have hplay : (v.sync d).inPlay → v.inPlay := fun hp => inPlay_before hp rfl rfl nofun
  by_cases hd : d = .folder
  · subst hd
    have hb : (v.sync .folder).backup = v.files := by
      funext m
      exact dur_sync_self (q := ((.folder, m) : Path))
    have hin : v.inPlay := inPlay_of_live (live_of_reach hr (by simp [Dir.chain]))
    refine ⟨h.acting, fun _ hne => by rw [hb] at hne; exact hne, fun hp r hr₁ hatt name x hx => ?_,
      fun r hr₁ hatt _ name x hx => ?_⟩
    · exact (h.now (hplay hp) r hr₁ hatt name x hx).imp_right fun hs => hs.sync hr
    · rw [hb] at hr₁ ⊢
      exact (h.now hin r hr₁ hatt name x hx).imp_right fun hs => hs.sync hr
  · refine h.same rfl hplay (fun _ => rfl) ?_ (fun _ _ _ _ _ _ _ hn => .inl hn) fun _ _ _ hs => hs.sync hr
    funext m
    simp only [View.backup, View.sync, View.change_img, Images.apply]
    exact if_neg fun he => hd he.symm

theorem lawful (h : Preserving n O v) (hO : ∀ name x, O name x → name ∈ originals) (hst : Still n v) (hl : Legal v e) :
    Preserving n O (v.after e) := by
  have hkeep : ∀ name x, Marked v → Stored v n name x → Stored (v.after e) n name x := fun name x hm hs => hs.lawful hl hm
  have hnote : (∀ t, e ≠ .file (.renamed .folder t)) → (v.after e).img = v.img → running (v.after e).log = running v.log →
      Preserving n O (v.after e) := by
    intro he himg hrun
    have hf : (v.after e).files = v.files := by funext m; rw [View.files, himg]; rfl
    have hb : (v.after e).backup = v.backup := by funext m; rw [View.backup, himg]; rfl
    refine h.same hrun (fun hp => inPlay_before hp after_log (by rw [himg]) he) (fun _ => by rw [hf]) hb
      (fun _ _ _ _ _ _ _ hn => .inl (by rw [hf]; exact hn)) hkeep
  cases hl with
  | synced d hr => exact h.sync hr
  | made d hd =>
    have hne : d ≠ .folder := hd.resolve_right fun hv => h.acting hv.2
    exact h.same rfl (fun hp => inPlay_before hp rfl (Function.update_of_ne hne.symm _ _) (by simp)) (fun _ => rfl) rfl
      (fun _ _ _ _ _ _ _ hn => .inl hn) hkeep
  | uploaded _ _ hrun | born _ _ _ _ _ _ _ _ hrun | withdrawn hrun => exact absurd hrun h.acting
  | moved r r' hr hok hm ha => exact h.moved hO hst hr hm
  | artifact r b m x hp hs hx hn =>
    refine h.put hO (.artifact r b m x hp hs hx hn) ?_ fun _ r₁ hr₁ hatt => ?_
    · rintro rfl
      simp [ResultBundleV1.artifacts] at hx
    · rw [files_of_readable hp.readable] at hr₁
      cases hr₁
      rcases hst r hp.readable with hlt | ⟨-, hf⟩
      · omega
      · rw [hs] at hf; cases hf
  | manifest r b hp hs hb ha hd =>
    refine h.put hO (.manifest r b hp hs hb ha hd) (by simp) fun _ r₁ hr₁ hatt => ?_
    rw [files_of_readable hp.readable] at hr₁
    cases hr₁
    rcases hst r hp.readable with hlt | ⟨-, hf⟩
    · omega
    · rw [hs] at hf; cases hf
  | archived r m x hr hs hx hn hname =>
    have hne : ∀ k : Name, ((.folder, k) : Path) ≠ (.attempt r.meeting.attempt, m) := by simp
    exact h.same rfl (fun hp => inPlay_before hp rfl rfl (by simp)) (fun _ => vol_put_of_ne (hne _)) rfl
      (fun _ _ _ _ name _ _ hn => .inl ((vol_put_of_ne (hne name)).trans hn)) hkeep
  | dropped r m x hr hs hx hd hname hfirst =>
    refine h.drop hO (.dropped r m x hr hs hx hd hname hfirst) (by rintro rfl; simp [originals] at hname)
      fun _ r₁ hr₁ hatt y hy => ?_
    rw [files_of_readable hr] at hr₁
    cases hr₁
    cases hy.symm.trans (vol_of_look hx)
    exact .of_durable (hatt ▸ hd)
  | snapshot r s hr hs => exact h.put hO (.snapshot r s hr hs) (by simp) fun hm => by simp [originals] at hm
  | review x => exact h.put hO (.review x) (by simp) fun hm => by simp [originals] at hm
  | pdf r t i hr hs hc => exact h.put hO (.pdf r t i hr hs hc) (by simp) fun hm => by simp [originals] at hm
  | pdfMarker r t i hr hs hc => exact h.put hO (.pdfMarker r t i hr hs hc) (by simp) fun hm => by simp [originals] at hm
  | pdfDropped r m hr hm =>
    rcases hm with rfl | rfl
    · exact h.drop hO (.pdfDropped r _ hr (.inl rfl)) (by simp) fun hm => by simp [originals] at hm
    · exact h.drop hO (.pdfDropped r _ hr (.inr rfl)) (by simp) fun hm => by simp [originals] at hm
  | uploadDropped r hr hc => exact h.drop hO (.uploadDropped r hr hc) (by simp) fun hm => by simp [originals] at hm
  | renamed r t hr hc hj hu hq =>
    exact h.same rfl (fun _ => inPlay_of_readable hr) (fun _ => rfl) rfl (fun _ _ _ _ _ _ _ hn => .inl hn) hkeep
  | restored t log ht =>
    exact h.same rfl (fun _ => .inr ⟨t, log, ht⟩) (fun _ => rfl) rfl (fun _ _ _ _ _ _ _ hn => .inl hn) hkeep
  | wiped left hgone hrun =>
    have hnone : (v.after (.file (.wiped .folder left))).inPlay → v.inPlay ∧ v.files .meeting = none := wiped_inPlay hgone
    refine h.same rfl (fun hp => (hnone hp).1) (fun hp => ?_) rfl (fun hp r hr => ?_) hkeep
    · rw [(hnone hp).2]
      by_contra hne
      obtain ⟨x, hx⟩ := Option.ne_none_iff_exists'.1 hne
      have hvol : (v.img.apply (.wiped .folder left)).vol (.folder, .meeting) = some x := hx
      rcases Images.vol_apply hvol with hy | hy
      · have := (hnone hp).2
        rw [View.files, hy] at this
        cases this
      · cases hy
    · rw [(hnone hp).2] at hr
      cases hr
  | submit | getJob | getJobByKey | getResult | ack | responded => exact hnote (by simp) rfl rfl

theorem step (h : Preserving n O v) (hO : ∀ name x, O name x → name ∈ originals) (hst : Still n v)
    (hst' : Still n v') (hi' : Inv v') (hh : Happens False v v') : Preserving n O v' := by
  cases hh with
  | lawful e hl => exact h.lawful hO hst hl
  | bounds e he =>
    refine ⟨fun hr => h.acting (bounds_running he hr), fun hp => h.marked (inPlay_before hp rfl rfl ?_),
      fun hp r hr hatt name x hx => ?_, fun r hr hatt hf name x hx => ?_⟩
    · rintro t rfl; exact he.elim
    · exact (h.now (inPlay_before hp rfl rfl (by rintro t rfl; exact he.elim)) r hr hatt name x hx).imp_right fun hs =>
        hs.note (by rintro t rfl; exact he.elim)
    · exact (h.later r hr hatt hf name x hx).imp_right fun hs => hs.note (by rintro t rfl; exact he.elim)
  | power =>
    refine ⟨h.acting, fun _ hne => hne, fun hp r hr hatt name x hx => ?_, fun r hr hatt hf name x hx =>
      (h.later r hr hatt hf name x hx).imp_right .power⟩
    have hlook : v.restarted.look (.folder, .meeting) = some (.record r) := by
      refine (look_of_reach (p := (.folder, .meeting)) (reach_iff.2 fun c hc => ?_)).trans hr
      rcases List.mem_cons.1 hc with rfl | hc
      · rcases hp with hp | ⟨t, log, hp⟩
        · exact hp
        · cases hp
      · exact (hi'.sound.parents (.inl (by rw [show v.restarted.img.vol (.folder, .meeting) = _ from hr]; nofun)) c hc).1
    obtain ⟨r₁, hr₁, hread⟩ := hi'.readable hlook
    cases hr₁
    rcases hst' r hread with hlt | ⟨-, hfail⟩
    · omega
    · exact (h.later r hr hatt hfail name x hx).imp_right .power
  | damaged n d hrot => exact hrot.elim

end Preserving

end Tirke
