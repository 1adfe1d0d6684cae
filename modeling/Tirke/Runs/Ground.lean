import Tirke.Runs.Lawful
/-!
# What every life keeps of the directories

`Sound v`: once there is a marker, the directories above the folder stay in place; only the folder is ever moved
aside, and it is not lost to a power failure while it is in play; `meetings` holds no files.
-/

set_option linter.unusedSectionVars false

namespace Tirke

open CrashProg CrashDisk

variable [Lib] [Home] [Weather] {v v' : View} {rot : Prop}

structure Sound (v : View) : Prop where
  files : ∀ n, v.img.vol (.meetings, n) = none ∧ v.img.dur (.meetings, n) = none
  plain : ∀ d t, v.img.slot d = .moved t ∨ v.img.slotDur d = .moved t → d = .folder
  parents : v.img.vol (.folder, .meeting) ≠ none ∨ v.img.dur (.folder, .meeting) ≠ none →
    ∀ c ∈ Dir.meetings.chain, v.img.slot c = .live ∧ v.img.slotDur c = .live
  later : v.inPlay → v.img.vol (.folder, .meeting) ≠ none → v.img.slotDur .folder = .live

namespace Sound

theorem blank (h : Blank v) : Sound v := by
  refine ⟨fun n => h.files _, fun d t ht => ?_, fun hm => ?_, fun _ hm => absurd (h.files _).1 hm⟩
  · rcases ht with ht | ht
    · exact absurd ht (h.plain d t).1
    · exact absurd ht (h.plain d t).2
  · rcases hm with hm | hm
    · exact absurd (h.files _).1 hm
    · exact absurd (h.files _).2 hm

theorem legacy {r : MeetingRecord} {audio : Bytes} (h : Legacy v r audio) : Sound v := by
  refine ⟨fun n => ⟨by rw [h.files.1]; rfl, by rw [h.files.2]; rfl⟩, fun d t ht => ?_, fun _ c hc => ?_, fun _ _ => ?_⟩
  · rcases ht with ht | ht
    · exact absurd ht (h.plain d t).1
    · exact absurd ht (h.plain d t).2
  · have hc' : c ∈ Dir.folder.chain := List.mem_cons_of_mem _ hc
    exact ⟨reach_iff.1 h.rooted.now c hc', reach_iff.1 h.rooted.later c hc'⟩
  · exact reach_iff.1 h.rooted.later _ (by simp [Dir.chain])

/-- The folder of a readable record is in place, now and after a power failure. -/
theorem rooted (h : Sound v) {x : Doc} (hx : v.look (.folder, .meeting) = some x) : v.Rooted .folder := by
  have hr := reach_of_look hx
  have hm : v.img.vol (.folder, .meeting) ≠ none := by rw [vol_of_look hx]; simp
  refine ⟨hr, reach_iff.2 fun c hc => ?_⟩
  rcases List.mem_cons.1 hc with rfl | hc
  · exact h.later (inPlay_of_live (live_of_reach hr (by simp [Dir.chain]))) hm
  · exact (h.parents (.inl hm) c hc).2

/-- What the event leaves of the directories is enough. -/
theorem of_slots (h : Sound v) (hs : v'.img.slot = v.img.slot) (hsd : v'.img.slotDur = v.img.slotDur)
    (hf : ∀ n, v'.img.vol (.meetings, n) = v.img.vol (.meetings, n) ∧ v'.img.dur (.meetings, n) = v.img.dur (.meetings, n))
    (hv : v'.img.vol (.folder, .meeting) = v.img.vol (.folder, .meeting) ∨ v'.img.vol (.folder, .meeting) = none)
    (hd : v'.img.dur (.folder, .meeting) = v.img.dur (.folder, .meeting)) (hp : v'.inPlay → v.inPlay) : Sound v' := by
  refine ⟨fun n => by rw [(hf n).1, (hf n).2]; exact h.files n, fun d t => by rw [hs, hsd]; exact h.plain d t,
    fun hm c hc => ?_, fun hp' hm => ?_⟩
  · rw [hs, hsd]
    refine h.parents (hm.imp (fun hm => ?_) fun hm => by rwa [hd] at hm) c hc
    rcases hv with hv | hv
    · rwa [hv] at hm
    · exact absurd hv hm
  · rw [hsd]
    refine h.later (hp hp') ?_
    rcases hv with hv | hv
    · rwa [hv] at hm
    · exact absurd hv hm

theorem put (h : Sound v) {p : Path} {x : Doc} (hp : p.1 ≠ .meetings) (hm : p ≠ (.folder, .meeting)) :
    Sound (v.put p x) := by
  refine h.of_slots rfl rfl (fun n => ⟨vol_put_of_ne ?_, rfl⟩) (.inl (vol_put_of_ne hm.symm)) rfl
    fun hp' => inPlay_before hp' rfl rfl nofun
  rintro rfl
  exact hp rfl

theorem drop (h : Sound v) {p : Path} : Sound (v.drop p) := by
  have hdrop : ∀ q, (v.drop p).img.vol q = v.img.vol q ∨ (v.drop p).img.vol q = none := by
    intro q
    simp only [View.drop, View.change_img, Images.apply, Function.update_apply]
    split
    · exact .inr rfl
    · exact .inl rfl
  refine h.of_slots rfl rfl (fun n => ⟨?_, rfl⟩) (hdrop _) rfl fun hp' => inPlay_before hp' rfl rfl (by simp)
  rcases hdrop (.meetings, n) with he | he
  · exact he
  · rw [he, (h.files n).1]

/-- The marker is written: the folder was in place, or has just been made durable. -/
theorem mark (h : Sound v) {x : Doc} (hn : ∀ c ∈ Dir.meetings.chain, v.img.slot c = .live ∧ v.img.slotDur c = .live)
    (hf : v.img.slotDur .folder = .live) : Sound (v.put (.folder, .meeting) x) :=
  ⟨fun n => ⟨(vol_put_of_ne (by simp)).trans (h.files n).1, (h.files n).2⟩, h.plain, fun _ => hn,
    fun _ _ => hf⟩

theorem sync (h : Sound v) {d : Dir} : Sound (v.sync d) := by
  have hslot : ∀ c, (v.sync d).img.slotDur c = v.img.slotDur c ∨ (v.sync d).img.slotDur c = v.img.slot c := by
    intro c
    simp only [View.sync, View.change_img, Images.apply]
    split
    · exact .inr rfl
    · exact .inl rfl
  have hdur : ∀ q, (v.sync d).img.dur q = v.img.dur q ∨ (v.sync d).img.dur q = v.img.vol q := by
    intro q
    simp only [View.sync, View.change_img, Images.apply]
    split
    · exact .inr rfl
    · exact .inl rfl
  refine ⟨fun n => ⟨(h.files n).1, ?_⟩, fun c t hc => ?_, fun hm c hc => ?_, fun hp hm => ?_⟩
  · rcases hdur (.meetings, n) with hd | hd
    · rw [hd, (h.files n).2]
    · rw [hd, (h.files n).1]
  · rcases hc with hc | hc
    · exact h.plain c t (.inl hc)
    · rcases hslot c with hs | hs
      · exact h.plain c t (.inr (hs ▸ hc))
      · exact h.plain c t (.inl (hs ▸ hc))
  · have hm' : v.img.vol (.folder, .meeting) ≠ none ∨ v.img.dur (.folder, .meeting) ≠ none := by
      rcases hm with hm | hm
      · exact .inl hm
      · rcases hdur (.folder, .meeting) with hd | hd
        · exact .inr (hd ▸ hm)
        · exact .inl (hd ▸ hm)
    obtain ⟨hl, hd⟩ := h.parents hm' c hc
    refine ⟨hl, ?_⟩
    rcases hslot c with hs | hs
    · rw [hs]; exact hd
    · rw [hs]; exact hl
  · have hp' : v.inPlay := inPlay_before hp rfl rfl (by simp)
    rcases hslot .folder with hs | hs
    · rw [hs]; exact h.later hp' hm
    · rw [hs]
      rcases hp with hp | ⟨t, log, hp⟩
      · exact hp
      · cases hp

theorem lawful (h : Sound v) {e : Event} (hl : Legal v e) : Sound (v.after e) := by
  have hnote : ∀ e : Event, (∀ t, e ≠ .file (.renamed .folder t)) → Sound (v.note e) := fun e he =>
    h.of_slots rfl rfl (fun _ => ⟨rfl, rfl⟩) (.inl rfl) rfl fun hp => inPlay_before hp rfl rfl he
  cases hl with
  | synced d hr => exact h.sync
  | made d hd =>
    refine ⟨h.files, fun c t hc => ?_, fun hm c hc => ?_, fun hp hm => ?_⟩
    · refine h.plain c t (hc.imp_left fun hc => ?_)
      simp only [after_file, View.change_img, Images.apply, Function.update_apply] at hc
      split at hc
      · cases hc
      · exact hc
    · obtain ⟨hs, hs'⟩ := h.parents hm c hc
      refine ⟨?_, hs'⟩
      simp only [after_file, View.change_img, Images.apply, Function.update_apply]
      split
      · rfl
      · exact hs
    · rcases hd with hd | hd
      · exact h.later (inPlay_before hp rfl (Function.update_of_ne hd.symm _ _) (by simp)) hm
      · exact absurd hd.1.1 hm
  | uploaded x hv hr hd => exact h.put (by simp) (by simp)
  | born metadata t kind hours audio extension hm hv hr hu ho hs =>
    refine h.mark (fun c hc => ⟨?_, ?_⟩) (reach_iff.1 hs _ (by simp [Dir.chain]))
    · exact reach_iff.1 (reach_of_look hu) c (List.mem_cons_of_mem _ hc)
    · exact reach_iff.1 hs c (List.mem_cons_of_mem _ hc)
  | withdrawn hr => exact h.drop
  | moved r r' hr hok hm ha =>
    have hl := readable_look hr
    have hv : v.img.vol (.folder, .meeting) ≠ none := by rw [vol_of_look hl]; simp
    exact h.mark (h.parents (.inl hv)) (h.later (inPlay_of_live (live_of_reach (readable_reach hr) (by simp [Dir.chain]))) hv)
  | artifact r b n x hp hst hx hn =>
    refine h.put (by simp) fun he => ?_
    cases he
    simp [ResultBundleV1.artifacts] at hx
  | manifest r b hp hst hb ha => exact h.put (by simp) (by simp)
  | archived r n x hr hst hx hn hname => exact h.put (by simp) (by simp)
  | dropped r n x hr hst hx hn hname hfirst => exact h.drop
  | snapshot r s hr hst => exact h.put (by simp) (by simp)
  | review x => exact h.put (by simp) (by simp)
  | pdf r t i hr hst hc => exact h.put (by simp) (by simp)
  | pdfMarker r t i hr hst hc => exact h.put (by simp) (by simp)
  | pdfDropped r n hr hn => exact h.drop
  | uploadDropped r hr => exact h.drop
  | renamed r t hr hc hj hu hq =>
    have hlive := live_of_reach (readable_reach hr) (by simp [Dir.chain])
    refine ⟨h.files, fun c t' hc => ?_, fun hm c hc => ?_, fun _ hm => h.later (inPlay_of_live hlive) hm⟩
    · simp only [after_file, View.change_img, Images.apply, Function.update_apply] at hc
      split at hc
      · next he => exact he
      · exact h.plain c t' hc
    · obtain ⟨hs, hs'⟩ := h.parents hm c hc
      refine ⟨?_, hs'⟩
      simp only [after_file, View.change_img, Images.apply]
      rw [Function.update_of_ne]
      · exact hs
      · rintro rfl; simp [Dir.chain] at hc
  | restored t log ht =>
    refine ⟨h.files, fun c t' hc => ?_, fun hm c hc => ?_, fun _ hm => h.later (.inr ⟨t, log, ht⟩) hm⟩
    · simp only [after_file, View.change_img, Images.apply, Function.update_apply] at hc
      split at hc
      · next he => exact he
      · exact h.plain c t' hc
    · obtain ⟨hs, hs'⟩ := h.parents hm c hc
      refine ⟨?_, hs'⟩
      simp only [after_file, View.change_img, Images.apply, Function.update_apply]
      split
      · rfl
      · exact hs
  | wiped left hw hr =>
    have hvol : ∀ q, (v.change (.wiped .folder left)).img.vol q = v.img.vol q ∨
        (v.change (.wiped .folder left)).img.vol q = none := by
      intro q
      simp only [View.change_img, Images.apply]
      split
      · split
        · split
          · exact .inl rfl
          · exact .inr rfl
        · exact .inr rfl
      · exact .inl rfl
    have hslot : ∀ c, c ≠ .folder → (v.change (.wiped .folder left)).img.slot c = v.img.slot c := by
      intro c hc
      simp only [View.change_img, Images.apply]
      split
      · rfl
      · exact Function.update_of_ne hc _ _
    have hlive : (v.change (.wiped .folder left)).img.slot .folder = .live → v.img.slot .folder = .live := by
      simp only [View.change_img, Images.apply]
      split
      · exact id
      · intro hl; simp at hl
    have hmark : (v.change (.wiped .folder left)).img.vol (.folder, .meeting) ≠ none → v.img.vol (.folder, .meeting) ≠ none := by
      intro hm
      rcases hvol (.folder, .meeting) with he | he
      · rwa [he] at hm
      · exact absurd he hm
    refine ⟨fun n => ⟨?_, (h.files n).2⟩, fun c t hc => ?_, fun hm c hc => ?_, fun hp hm => ?_⟩
    · rcases hvol (.meetings, n) with he | he
      · exact he.trans (h.files n).1
      · exact he
    · by_cases hcf : c = .folder
      · exact hcf
      · exact h.plain c t (hc.imp_left fun hc => (hslot c hcf) ▸ hc)
    · obtain ⟨hs, hs'⟩ := h.parents (hm.imp_left hmark) c hc
      refine ⟨(hslot c ?_).trans hs, hs'⟩
      rintro rfl
      simp [Dir.chain] at hc
    · refine h.later (inPlay_of_live (hlive ?_)) (hmark hm)
      rcases hp with hp | ⟨t, log, hp⟩
      · exact hp
      · cases hp
  | submit key context audio suffix a r job sha hsub => exact hnote _ (by simp)
  | getJob id a => exact hnote _ (by simp)
  | getJobByKey key a => exact hnote _ (by simp)
  | getResult id a => exact hnote _ (by simp)
  | ack id hash a m t i hack => exact hnote _ (by simp)
  | responded r pdf hr hst hp => exact hnote _ (by simp)

/-- **The directories stay sound.** -/
theorem step (h : Sound v) (hh : Happens rot v v') : Sound v' := by
  cases hh with
  | lawful e hl => exact h.lawful hl
  | bounds e he =>
    exact h.of_slots rfl rfl (fun _ => ⟨rfl, rfl⟩) (.inl rfl) rfl fun hp => inPlay_before hp rfl rfl fun t ht => by
      subst ht; exact he.elim
  | power =>
    refine ⟨fun n => ⟨(h.files n).2, (h.files n).2⟩, fun d t ht => h.plain d t (.inr (ht.elim id id)), fun hm c hc => ?_,
      fun hp _ => ?_⟩
    · have := (h.parents (.inr (hm.elim id id)) c hc).2
      exact ⟨this, this⟩
    · rcases hp with hp | ⟨t, log, hp⟩
      · exact hp
      · cases hp
  | damaged n d _ hn hl =>
    have hne : n ≠ .meeting := by rintro rfl; simp [resultNames] at hn
    have hupd : ∀ (g : Path → Option Doc) q, q ≠ (.folder, n) → Function.update g (.folder, n) d q = g q :=
      fun g q hq => Function.update_of_ne hq _ _
    have hmark : ((.folder, .meeting) : Path) ≠ (.folder, n) := fun he => hne (congrArg Prod.snd he).symm
    exact h.of_slots rfl rfl (fun m => ⟨hupd _ (.meetings, m) (by simp), hupd _ (.meetings, m) (by simp)⟩)
      (.inl (hupd _ _ hmark)) (hupd _ _ hmark) fun hp => inPlay_before hp rfl rfl nofun

end Sound

end Tirke
