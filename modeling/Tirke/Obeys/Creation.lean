import Tirke.Spec.Directories
/-!
# `create_meeting` obeys the law

A creation starts from a folder without files (`Empty`). While the upload is written in place (`Uploading`)
its content is not durable, which is why the marker is written only after its `fsync`; from there on the disk
is without pending content.
-/

set_option linter.unusedSectionVars false

namespace Tirke

open CrashProg CrashDisk

variable [Lib] [Home] [Weather] {A : Env host} [Forecast A] {v v' : View} {w : World}

/-! ## The folder -/

structure Empty (v : View) : Prop where
  files : ∀ q, v.img.vol q = none ∧ v.img.dur q = none
  idle : running v.log = none
  unwritten : written v.log = []
  above : v.img.slotDur .above = .live

theorem Empty.void (h : Empty v) : v.Void := h.files _

theorem does_mkdirParents (h : Empty v) {ds : List Dir} :
    Does A Legal (mkdirParents ds) v fun _ v' => Empty v' := by
  have hmk : ∀ (w : View) (d : Dir), Empty w → Does A Legal (call (.mkdir d)) w fun _ v' => Empty v' := by
    intro w d hw
    exact Does.mkdir (fun _ _ => .made d (.inr ⟨hw.void, hw.idle⟩)) (fun _ _ => ⟨hw.files, hw.idle, hw.unwritten, hw.above⟩) (fun _ _ => hw)
      (fun _ => hw) fun _ => hw
  induction ds generalizing v with
  | nil => exact .ret h
  | cons d ds ih =>
    refine Does.handle (hmk v d h) (fun _ _ h => h) fun e v₁ h₁ => ?_
    split
    · exact Does.bind (ih h₁) (fun _ v₂ h₂ => hmk v₂ d h₂) fun _ _ h => h
    · exact .raise h₁

theorem Empty.sync (h : Empty v) (d : Dir) : Empty (v.sync d) := by
  refine ⟨fun q => ⟨(h.files q).1, ?_⟩, h.idle, h.unwritten, ?_⟩
  · simp only [View.sync, View.change_img, Images.apply]
    split
    · exact (h.files q).1
    · exact (h.files q).2
  · simp only [View.sync, View.change_img, Images.apply]
    rw [if_neg (by simp [parent, DirTree.chain, Dir.chain])]
    exact h.above

theorem Empty.syncs (h : Empty v) (ds : List Dir) : Empty (v.syncs ds) := by
  induction ds generalizing v with
  | nil => exact h
  | cons d ds ih => exact ih (h.sync d)

theorem does_syncEmpty (h : Empty v) {ds : List Dir} : Does A Legal (syncAll ds) v fun out v' => Empty v' ∧
    (out = .ok () → v' = v.syncs ds ∧ ∀ d ∈ ds, v.reach d = true) := by
  induction ds generalizing v with
  | nil => exact .ret ⟨h, fun _ => ⟨rfl, by simp⟩⟩
  | cons d ds ih =>
    refine Does.bind (R := fun out v' => Empty v' ∧ (out = .ok () → v' = v.sync d ∧ v.reach d = true)) ?_ ?_ ?_
    · exact Does.syncDirectory (.inr fun n => (h.files _).1) (fun hr => .synced d hr) (fun hr => ⟨h.sync d, fun _ => ⟨rfl, hr⟩⟩)
        (fun _ => ⟨h, nofun⟩) fun _ => ⟨h, nofun⟩
    · rintro ⟨⟩ v₁ ⟨h₁, hq⟩
      obtain ⟨rfl, hr⟩ := hq rfl
      refine (ih h₁).mono fun out v₂ ⟨h₂, hq₂⟩ => ⟨h₂, fun ho => ?_⟩
      obtain ⟨rfl, hr₂⟩ := hq₂ ho
      exact ⟨rfl, List.forall_mem_cons.2 ⟨hr, hr₂⟩⟩
    · exact fun e v₁ h => ⟨h.1, nofun⟩

/-- **`_make_directory` of a new folder**: it is there and durable. -/
theorem does_makeEmpty (h : Empty v) : Does A Legal (makeDirectory .folder) v fun out v' => Empty v' ∧
    (out = .ok () → v'.Rooted .folder) := by
  refine Does.bind (does_mkdirParents h) ?_ fun _ _ h => ⟨h, nofun⟩
  rintro ⟨⟩ v₁ h₁
  refine (does_syncEmpty h₁).mono fun out v₂ ⟨h₂, hq⟩ => ⟨h₂, fun ho => ?_⟩
  obtain ⟨rfl, hr⟩ := hq ho
  have hreach := hr .folder (by simp [Dir.chain])
  refine ⟨by rw [reach_syncs]; exact hreach, reach_iff.2 fun c hc => ?_⟩
  by_cases ha : c = .above
  · rw [ha]; exact h₂.above
  · have hp : ∃ p ∈ Dir.folder.chain, parent c = some p := by
      simp only [Dir.chain, List.mem_cons, List.not_mem_nil, or_false] at hc
      rcases hc with rfl | rfl | rfl | rfl | rfl | rfl
      on_goal 6 => exact absurd rfl ha
      all_goals exact ⟨_, by simp [Dir.chain], rfl⟩
    rw [slotDur_syncs hp]
    exact reach_iff.1 hreach c hc

/-! ## The upload -/

abbrev uploadFile : Path := (.folder, .upload)

/-- The upload is being written: it is the folder's only file, and not durable. -/
structure Uploading (w : World) (i : Nat) (x : Doc) : Prop where
  fit : Fit w.disk
  idle : running w.log = none
  unwritten : written w.log = []
  rooted : w.view.Rooted .folder
  ent : w.disk.ent uploadFile.entry = some i
  only : ∀ d n j, w.disk.ent (d, .named n) = some j → (d, n) = uploadFile
  pending : ∀ d n, w.disk.entDur (d, .named n) = none
  data : w.disk.data i = x

namespace Uploading
variable {i : Nat} {x : Doc}

theorem voidDisk (h : Uploading w i x) : voidDisk w.disk := by
  refine ⟨?_, h.pending _ _⟩
  cases hm : w.disk.ent (.folder, .named .meeting) with
  | none => rfl
  | some j => cases h.only _ _ _ hm

theorem void (h : Uploading w i x) : w.view.Void := voidDisk_iff.1 h.voidDisk

theorem lookup (h : Uploading w i x) : w.disk.lookup uploadFile.entry = some i := by
  have hr : CrashDisk.reach w.disk.slot .folder = true := h.rooted.now
  simp only [Disk.lookup, Path.entry, hr, if_true]
  exact h.ent

theorem look (h : Uploading w i x) : w.view.look uploadFile = some x := by
  rw [look_view, h.lookup, Option.map_some, h.data]

/-- There is no other file. -/
theorem alone (h : Uploading w i x) {n : Name} (hn : n ≠ .upload) : w.view.img.vol (.folder, n) = none := by
  cases he : w.disk.ent (.folder, .named n) with
  | none => simp only [World.view, Disk.images, he, Option.map_none]
  | some j => exact absurd (congrArg Prod.snd (h.only _ _ _ he)) hn

theorem owned (h : Uploading w i x) : w.disk.Disciplined (.write uploadFile.entry x) := by
  intro j _ d n
  exact ⟨fun hd => h.only d n j hd, by rw [h.pending]; simp⟩

/-- The clock and the log of file events aside, only the content changed. -/
theorem rewrite {w' : World} {y : Doc} (h : Uploading w i x)
    (hd : w'.disk = { w.disk with data := Function.update w.disk.data i y })
    (hl : w'.log = w.log ∨ ∃ z, w'.log = .file (.put uploadFile z) :: w.log) : Uploading w' i y := by
  have hlog : running w'.log = none ∧ written w'.log = [] := by
    rcases hl with hl | ⟨z, hl⟩
    · rw [hl]; exact ⟨h.idle, h.unwritten⟩
    · rw [hl]; exact ⟨h.idle, h.unwritten⟩
  have ha : w'.disk.Allocated := by rw [hd]; exact h.fit.1
  have hv : Tirke.voidDisk w'.disk := by rw [hd]; exact h.voidDisk
  refine ⟨⟨ha, .inr hv⟩, hlog.1, hlog.2, ?_, by rw [hd]; exact h.ent, by rw [hd]; exact h.only, by rw [hd]; exact h.pending, by
    rw [hd]; exact Function.update_self ..⟩
  have : w'.view.img.slot = w.view.img.slot ∧ w'.view.img.slotDur = w.view.img.slotDur := by
    simp only [World.view, Disk.images, hd, and_self]
  exact ⟨by rw [View.reach, this.1]; exact h.rooted.now, by rw [this.2]; exact h.rooted.later⟩

end Uploading

theorem sat_createUpload (hf : Fit w.disk) (he : Empty w.view) (hr : w.view.Rooted .folder) :
    Sat A (Guarded Legal) (fun out (w' : World) => Fit w'.disk ∧ w'.view.Void ∧
      (out = .ok () → ∃ i, Uploading w' i default)) (call (.create uploadFile.entry)) w := by
  have hreach : CrashDisk.reach w.disk.slot .folder = true := hr.now
  have hnone : ∀ d n, w.disk.ent (d, .named n) = none := by
    intro d n
    have := (he.files (d, n)).1
    simpa [World.view, Disk.images] using this
  have hnoneDur : ∀ d n, w.disk.entDur (d, .named n) = none := by
    intro d n
    have := (he.files (d, n)).2
    simpa [World.view, Disk.images] using this
  have heff : w.disk.stepEffect (.create uploadFile.entry) = some (.put uploadFile default) := by
    simp [Disk.stepEffect, Path.entry, hreach, hnone]
  have hstep : w.disk.step (.create uploadFile.entry) = (.ok (), w.disk.newFile uploadFile.entry) := by
    simp [Disk.step, Path.entry, hreach, hnone]
  refine sat_callOf hf trivial rfl (.inr (by decide)) (by rw [heff]; exact lawful_some.2 (.uploaded _ he.void he.idle (he.files _).2))
    (fun _ => lawful_none) ?_ fun w' _ _ _ hv hf' => ⟨hf', hv ▸ he.void, (by simp)⟩
  intro w' hd hv hf'
  rw [hstep] at hd
  rw [heff] at hv
  have hlog : w'.log = .file (.put uploadFile default) :: w.log := congrArg View.log hv
  have hslot : w'.view.img.slot = w.view.img.slot ∧ w'.view.img.slotDur = w.view.img.slotDur := by
    rw [hv]; exact ⟨rfl, rfl⟩
  have hvoid : w'.view.Void := by
    rw [hv]
    exact ⟨(vol_put_of_ne (p := uploadFile) (by simp)).trans he.void.1, he.void.2⟩
  refine ⟨hf', hvoid, fun _ => ⟨w.disk.next, hf', by rw [hlog]; exact he.idle, by rw [hlog]; exact he.unwritten, ⟨by rw [View.reach, hslot.1]; exact hr.now, by
    rw [hslot.2]; exact hr.later⟩, by rw [hd]; simp [Disk.newFile], fun d n j hj => ?_, fun d n => by
      rw [hd]; exact hnoneDur d n, by rw [hd]; simp [Disk.newFile]⟩⟩
  rw [hd] at hj
  simp only [Disk.newFile] at hj
  by_cases hq : ((d, Entry.named n) : Dir × Entry Name) = uploadFile.entry
  · simp only [Path.entry, Prod.mk.injEq, Entry.named.injEq] at hq
    exact Prod.ext hq.1 hq.2
  · rw [Function.update_of_ne hq, hnone] at hj
    cases hj

theorem sat_writeUpload {i : Nat} {x y : Doc} (h : Uploading w i x) :
    Sat A (Guarded Legal) (fun out (w' : World) => Fit w'.disk ∧ w'.view.Void ∧ (out = .ok () → Uploading w' i y))
      (call (.write uploadFile.entry y)) w := by
  have hl := h.lookup
  have hdisk : ∀ f, ∃ z, (w.disk.act (.write uploadFile.entry y) f).2 =
      { w.disk with data := Function.update w.disk.data i z } := by
    rintro (_ | f)
    · exact ⟨y, by simp only [Disk.act, Disk.step, hl]⟩
    · exact ⟨f.torn, by simp only [Disk.act, Disk.fail, hl]⟩
  have hput : ∀ f e, w.disk.effect (.write uploadFile.entry y) f = some e → ∃ z, e = .put uploadFile z := by
    intro f e he
    cases f with
    | none =>
      simp only [Disk.effect, Disk.stepEffect, Path.entry, Disk.onName_named] at he
      cases hl' : w.disk.lookup (uploadFile.1, .named uploadFile.2) with
      | none => rw [hl'] at he; cases he
      | some j => rw [hl'] at he; cases he; exact ⟨_, rfl⟩
    | some f =>
      simp only [Disk.effect, Disk.failEffect, Path.entry, Disk.onName_named] at he
      cases hl' : w.disk.lookup (uploadFile.1, .named uploadFile.2) with
      | none => rw [hl'] at he; cases he
      | some j => rw [hl'] at he; cases he; exact ⟨_, rfl⟩
  have hlog : ∀ c : Choice, (World.act (.file (.write uploadFile.entry y)) c w).2.log = w.log ∨
      ∃ z, (World.act (.file (.write uploadFile.entry y)) c w).2.log = .file (.put uploadFile z) :: w.log := by
    intro c
    cases he : w.disk.effect (.write uploadFile.entry y) c.fault with
    | none =>
      left
      simp only [World.act, World.tick, he]
    | some e =>
      obtain ⟨z, rfl⟩ := hput _ e he
      exact .inr ⟨z, by simp only [World.act, World.tick, he]⟩
  have hafter : ∀ c, ∃ z, Uploading (World.act (.file (.write uploadFile.entry y)) c w).2 i z ∧ (c.fault = none → z = y) := by
    intro c
    cases hc : c.fault with
    | none =>
      refine ⟨y, h.rewrite ?_ (hlog c), fun _ => rfl⟩
      show (w.disk.act _ c.fault).2 = _
      simp only [hc, Disk.act, Disk.step, hl]
    | some f =>
      refine ⟨f.torn, h.rewrite ?_ (hlog c), (by simp)⟩
      show (w.disk.act _ c.fault).2 = _
      simp only [hc, Disk.act, Disk.fail, hl]
  refine sat_call.2 ⟨⟨h.owned, fun f => ?_, fun f e he => ?_⟩, fun c _ => ?_⟩
  · obtain ⟨z, hz⟩ := hdisk f
    rw [hz]
    exact ⟨h.fit.1, .inr h.voidDisk⟩
  · obtain ⟨z, rfl⟩ := hput f e he
    exact .uploaded z h.void h.idle (by simp only [World.view, Disk.images, h.pending, Option.map_none])
  · obtain ⟨z, hz, hy⟩ := hafter c
    refine ⟨hz.fit, hz.void, fun ho => ?_⟩
    cases hc : c.fault with
    | none => exact hy hc ▸ hz
    | some f => rw [hc] at ho; cases ho

theorem sat_copyAudio {i : Nat} {chunks : List Bytes} {done : Bytes} (h : Uploading w i (.blob done)) :
    Sat A (Guarded Legal) (fun out (w' : World) => Fit w'.disk ∧ w'.view.Void ∧
      ∀ audio, out = .ok audio → Uploading w' i (.blob audio)) (copyAudio done chunks) w := by
  induction chunks generalizing done w with
  | nil =>
    refine ⟨h.fit, h.void, fun audio ho => ?_⟩
    cases ho
    exact h
  | cons chunk rest ih =>
    unfold copyAudio
    split
    · refine ⟨h.fit, h.void, fun audio ho => ?_⟩
      cases ho
      exact h
    · refine (sat_writeUpload h).bind ?_
      rintro (e | ⟨⟩) w₁ ⟨hf₁, hv₁, h₁⟩
      · exact ⟨hf₁, hv₁, fun _ ho => by cases ho⟩
      · exact ih (h₁ rfl)

/-- After its `fsync` the upload is durable content under a name that is not durable yet. -/
theorem sat_fsyncUpload {i : Nat} {x : Doc} (h : Uploading w i x) :
    Sat A (Guarded Legal) (fun out (w' : World) => Fit w'.disk ∧ w'.view.Void ∧
      (out = .ok () → Uploading w' i x ∧ w'.disk.Clean)) (call (.fsync uploadFile.entry)) w := by
  have hl := h.lookup
  have hd : w.disk.Disciplined (.fsync uploadFile.entry) := fun j _ => .inr fun d n => by rw [h.pending]; simp
  refine sat_callOf h.fit hd rfl (.inr rfl) lawful_none (fun _ => lawful_none) ?_ fun w' _ _ _ hv' hf' => ⟨hf', hv' ▸ h.void, nofun⟩
  intro w' hd' hv' hf'
  simp only [Disk.step, hl] at hd'
  have hlog : w'.log = w.log := congrArg View.log hv'
  have hslot : w'.view.img = w.view.img := congrArg View.img hv'
  refine ⟨hf', hv' ▸ h.void, fun _ => ⟨⟨hf', by rw [hlog]; exact h.idle, by rw [hlog]; exact h.unwritten, ⟨by rw [View.reach, hslot]; exact h.rooted.now, by
    rw [hslot]; exact h.rooted.later⟩, by rw [hd']; exact h.ent, by rw [hd']; exact h.only, by rw [hd']; exact h.pending,
    by rw [hd']; exact h.data⟩, fun d n j hj => ?_⟩⟩
  rw [hd'] at hj ⊢
  have hq := h.only d n j hj
  obtain rfl : j = i := by
    have he := h.ent
    rw [← hq] at he
    exact Option.some.inj (hj.symm.trans he)
  exact Function.update_self ..

/-! ## The marker -/

/-- The creation is undone or left, on a disk without pending content. -/
structure Leaving (w : World) : Prop where
  fit : Fit w.disk
  clean : w.disk.Clean
  idle : running w.log = none
  reach : w.view.reach .folder = true

theorem Leaving.of_view {w' : World} (h : Leaving w) (hf : Fit w'.disk) (hc : w'.disk.Clean) (e : Option FileEffect)
    (hv : w'.view = w.view.changed e) (hs : ∀ x, e = some x → (w.view.img.apply x).slot = w.view.img.slot) : Leaving w' := by
  cases e with
  | none =>
    exact ⟨hf, hc, (congrArg (fun u : View => running u.log) hv).trans h.idle, by rw [hv]; exact h.reach⟩
  | some x =>
    refine ⟨hf, hc, (congrArg (fun u : View => running u.log) hv).trans h.idle, ?_⟩
    rw [hv]
    show CrashDisk.reach (w.view.img.apply x).slot .folder = true
    rw [hs x rfl]
    exact h.reach

theorem reach_meetings (h : v.reach .folder = true) : v.reach .meetings = true := reach_parent h (by simp [Dir.chain])

theorem sat_leavingSync {d : Dir} (h : Leaving w) (hd : w.view.reach d = true) :
    Sat A (Guarded Legal) (fun _ (w' : World) => Leaving w' ∧ w'.view.img.vol = w.view.img.vol ∧
      w'.view.img.slot = w.view.img.slot) (syncDirectory d) w := by
  refine (sat_syncDirectory h.fit h.clean hd (.synced d hd)).mono ?_
  rintro (e | ⟨⟩) w' ⟨hf, hc, h'⟩
  · refine ⟨h.of_view hf hc none h'.2.2 fun _ hx => (by cases hx), ?_⟩
    rw [h'.2.2]
    exact ⟨rfl, rfl⟩
  · refine ⟨h.of_view hf hc (some (.synced d)) h' fun x hx => (by cases hx; rfl), ?_⟩
    rw [h']
    exact ⟨rfl, rfl⟩

/-- The undoing of a creation may fail to remove the marker. -/
def MayRemain (A : Env host) : Prop := MayFailAt A (.unlink (Path.entry (.folder, .meeting)) true)

/-- **A marker that may be visible is taken back.** -/
theorem sat_withdraw {α : Type} {e : Exn} (h : Leaving w) :
    Sat A (Guarded Legal) (fun out (w' : World) => Fit w'.disk ∧ (∀ a, out ≠ .ok a) ∧
      (w'.view.img.vol (.folder, .meeting) = none ∨ MayRemain A)) (withdraw e : Serv α) w := by
  have he : w.disk.stepEffect (.unlink (Path.entry (.folder, .meeting)) true) =
      if (w.view.look (.folder, .meeting)).isSome then some (.removed (.folder, .meeting)) else none :=
    stepEffect_unlink
  have hclean : ∀ f, ((w.disk.act (.unlink (Path.entry (.folder, .meeting)) true) f).2).Clean := fun f =>
    Disk.clean_act h.fit.1 h.clean _ f trivial rfl
  refine Sat.bind (R := fun _ (w' : World) => Leaving w' ∧
    (w'.view.img.vol (.folder, .meeting) = none ∨ MayRemain A)) ?_ ?_
  · refine sat_callOf h.fit trivial rfl (.inl h.clean) ?_ (fun _ => lawful_none) ?_ ?_
    · rw [he]
      intro x hx
      split at hx
      · cases hx; exact .withdrawn h.idle
      · cases hx
    · intro w' hd hv hf
      refine ⟨h.of_view hf (hd ▸ hclean none) _ hv fun x hx => ?_, .inl ?_⟩
      · rw [he] at hx
        split at hx
        · cases hx; rfl
        · cases hx
      · rw [hv, he]
        split
        · exact Function.update_self (f := w.view.img.vol) ((.folder, .meeting) : Path) none
        · next hn =>
          have hl : w.view.look (.folder, .meeting) = none := by simpa using hn
          rwa [look_of_reach (p := (.folder, .meeting)) h.reach] at hl
    · exact fun w' f hm hd hv hf => ⟨h.of_view hf (hd ▸ hclean (some f)) none hv fun _ hx => (by cases hx), .inr hm⟩
  · rintro (e' | ⟨⟩) w₁ ⟨h₁, hgone⟩
    · exact ⟨h₁.fit, nofun, hgone⟩
    refine Sat.bind (sat_leavingSync h₁ h₁.reach) ?_
    rintro (e' | ⟨⟩) w₂ ⟨h₂, hvol₂, -⟩
    · exact ⟨h₂.fit, nofun, by rw [hvol₂]; exact hgone⟩
    refine Sat.bind (sat_leavingSync h₂ (reach_meetings h₂.reach)) ?_
    rintro (e' | ⟨⟩) w₃ ⟨h₃, hvol₃, -⟩
    · exact ⟨h₃.fit, nofun, by rw [hvol₃, hvol₂]; exact hgone⟩
    · exact ⟨h₃.fit, nofun, by rw [hvol₃, hvol₂]; exact hgone⟩

/-- The marker shows, next to the upload alone. -/
structure NewlyStored (v : View) (r : MeetingRecord) : Prop where
  marker : v.look (.folder, .meeting) = some (.record r)
  alone : ∀ n, n ≠ .upload → n ≠ .meeting → v.img.vol (.folder, n) = none

/-- **The marker of a new meeting** names the audio that was stored before it. -/
theorem sat_commitMeeting {metadata : MeetingMetadata} {t : Time} {kind : PublicSourceKind} {hours : Nat}
    {audio : Bytes} {extension : Option AudioExtension} {i : Nat} (h : Uploading w i (.blob audio))
    (hc : w.disk.Clean) (hm : metadata.valid Lib.validTimezone = true) :
    Sat A (Guarded Legal) (fun out (w' : World) => Leaving w' ∧ (out = .ok () →
        NewlyStored w'.view (MeetingRecord.new (Meeting.new metadata t kind hours) audio extension))) (do
      atomicWrite (.folder, .meeting) (.record (MeetingRecord.new (Meeting.new metadata t kind hours) audio extension))
      syncDirectory .meetings : Serv Unit) w := by
  have hl : Leaving w := ⟨h.fit, hc, h.idle, h.rooted.now⟩
  refine Sat.bind (sat_writeTemporary h.fit hc h.rooted.now (fun hi => by cases hi)
    (.born metadata t kind hours audio extension hm h.void h.idle h.look (fun n => h.alone) h.rooted.later h.unwritten) (.synced _ h.rooted.now)) ?_
  have hwrote : ∀ out (w' : World), Fit w'.disk ∧ w'.disk.Clean ∧ Wrote A (.folder, .meeting)
      (.record (MeetingRecord.new (Meeting.new metadata t kind hours) audio extension)) w.view out w'.view →
      Leaving w' ∧ (out = .ok () →
        NewlyStored w'.view (MeetingRecord.new (Meeting.new metadata t kind hours) audio extension)) := by
    rintro out w' ⟨hf', hc', hw⟩
    have hidle := h.idle
    have hreach := h.rooted.now
    have hwas : ∀ n, n ≠ .upload → w.view.img.vol (.folder, n) = none := fun n => h.alone
    suffices hs : running w'.view.log = none ∧ w'.view.reach .folder = true ∧ (out = .ok () →
        NewlyStored w'.view (MeetingRecord.new (Meeting.new metadata t kind hours) audio extension)) from
      ⟨⟨hf', hc', hs.1, hs.2.1⟩, hs.2.2⟩
    generalize w'.view = v' at hw
    cases hw with
    | done =>
      refine ⟨hidle, hreach, fun _ => ⟨look_put_self (p := (.folder, .meeting)) hreach, fun n hu hn => ?_⟩⟩
      exact (vol_put_of_ne (p := (.folder, .meeting)) (by simpa using hn)).trans (hwas n hu)
    | nothing | shown | synced => exact ⟨hidle, hreach, nofun⟩
  rintro (e | ⟨⟩) w₁ h₁
  · exact ⟨(hwrote _ _ h₁).1, nofun⟩
  · obtain ⟨hl₁, hs₁⟩ := hwrote _ _ h₁
    refine (sat_leavingSync hl₁ (reach_meetings hl₁.reach)).mono ?_
    rintro out w₂ ⟨hl₂, hvol, hslot⟩
    obtain ⟨hlook, halone⟩ := hs₁ rfl
    refine ⟨hl₂, fun _ => ⟨?_, by rw [hvol]; exact halone⟩⟩
    simp only [View.look, Images.look, hvol, hslot]
    exact hlook

/-- What a creation leaves: the record of the meeting it returns, or no marker. -/
def Created (A : Env host) (metadata : MeetingMetadata) (kind : PublicSourceKind) (extension : Option AudioExtension)
    (hours : Nat) (out : Except Exn Meeting) (v : View) : Prop :=
  match out with
  | .ok m => ∃ t audio, m = Meeting.new metadata t kind hours ∧ NewlyStored v (MeetingRecord.new m audio extension)
  | .error _ => v.img.vol (.folder, .meeting) = none ∨ MayRemain A

/-- **`create_meeting`** in a folder without files. -/
theorem does_createMeeting {metadata : MeetingMetadata} {chunks : List Bytes} {kind : PublicSourceKind}
    {extension : Option AudioExtension} {hours : Nat} (h : Empty v) :
    Does A Legal (createMeeting metadata chunks kind extension hours) v (Created A metadata kind extension hours) := by
  refine Does.bind does_demand ?_ fun _ _ hd => .inl (hd.1 ▸ h.void.1)
  rintro ⟨⟩ v ⟨rfl, hm⟩
  refine Does.bind does_demand ?_ fun _ _ hd => .inl (hd.1 ▸ h.void.1)
  rintro ⟨⟩ v ⟨rfl, -⟩
  refine Does.bind (does_makeEmpty h) ?_ fun _ _ hd => .inl hd.1.void.1
  rintro ⟨⟩ v ⟨h, hroot⟩
  refine Does.bind (Does.now (Q := fun out v' => v' = v ∧ ∃ t, out = .ok t) fun t _ => ⟨rfl, t, rfl⟩) ?_ ?_
  swap
  · rintro e _ ⟨-, t, ht⟩
    cases ht
  rintro t v ⟨rfl, -⟩ w rfl hf
  refine Sat.bind (sat_createUpload hf h (hroot rfl)) ?_
  rintro (e | ⟨⟩) w₁ ⟨hf₁, hv₁, h₁⟩
  · exact ⟨hf₁, .inl hv₁.1⟩
  obtain ⟨i, h₁⟩ := h₁ rfl
  refine Sat.bind (sat_copyAudio (show Uploading _ _ (.blob []) from h₁)) ?_
  rintro (e | audio) w₂ ⟨hf₂, hv₂, h₂⟩
  · exact ⟨hf₂, .inl hv₂.1⟩
  refine Sat.bind (sat_fsyncUpload (h₂ audio rfl)) ?_
  rintro (e | ⟨⟩) w₃ ⟨hf₃, hv₃, h₃⟩
  · exact ⟨hf₃, .inl hv₃.1⟩
  obtain ⟨h₃, hc₃⟩ := h₃ rfl
  refine Sat.bind (R := fun out (w' : World) => Fit w'.disk ∧ Outcome
      (fun _ => NewlyStored w'.view (MeetingRecord.new (Meeting.new metadata t kind hours) audio extension))
      (fun _ => w'.view.img.vol (.folder, .meeting) = none ∨ MayRemain A) out) ?_ ?_
  · refine Sat.handle (sat_commitMeeting h₃ hc₃ hm) ?_
    rintro (e | ⟨⟩) w₄ ⟨h₄, hs₄⟩
    · refine (sat_withdraw h₄).mono ?_
      rintro (e | a) w₅ ⟨hf₅, hne, hgone⟩
      · exact ⟨hf₅, hgone⟩
      · exact absurd rfl (hne a)
    · exact ⟨h₄.fit, hs₄ rfl⟩
  · rintro (e | ⟨⟩) w₄ ⟨hf₄, hq⟩
    · exact ⟨hf₄, hq⟩
    · exact ⟨hf₄, t, audio, rfl, hq⟩

end Tirke
