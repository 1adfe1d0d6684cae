import Tirke.Obeys.Removal
/-!
# `retry_meeting` obeys the law

`_archive_attempt` makes the attempt's directory, stores the record, and moves the originals one by one.
`Retried` is what a retry may leave; besides a fault, only a file of the archive that differs from the one
to be stored can stop it (`ArchiveConflict`).
-/

set_option linter.unusedSectionVars false

namespace Tirke

open CrashProg CrashDisk

variable [Lib] [Home] [Weather] {A : Env host} [Forecast A] {v v' v'' : View} {r r' : MeetingRecord} {n : Nat} {name : Name} {d : Dir}

/-! ## Making the attempt's directory -/

/-- Directories were made and synced; no file changed. -/
structure Grew (v v' : View) : Prop where
  vol : v'.img.vol = v.img.vol
  dur : ∀ q, v'.img.dur q = v.img.dur q ∨ v'.img.dur q = v.img.vol q
  live : ∀ d, v.img.slot d = .live → v'.img.slot d = .live
  plain : ∀ d t, v'.img.slot d = .moved t → v.img.slot d = .moved t
  rooted : ∀ d, v.Rooted d → v'.Rooted d
  log : Quiet v.log v'.log

namespace Grew

theorem refl (v : View) : Grew v v :=
  ⟨rfl, fun _ => .inl rfl, fun _ h => h, fun _ _ h => h, fun _ h => h, .refl _⟩

theorem trans (h : Grew v v') (h' : Grew v' v'') : Grew v v'' := by
  refine ⟨h'.vol.trans h.vol, fun q => ?_, fun d hd => h'.live d (h.live d hd),
    fun d t hd => h.plain d t (h'.plain d t hd), fun d hd => h'.rooted d (h.rooted d hd), h.log.trans h'.log⟩
  rcases h'.dur q with hd | hd
  · rw [hd]; exact h.dur q
  · rw [hd, h.vol]; exact .inr rfl

theorem reach (h : Grew v v') (hr : v.reach d = true) : v'.reach d = true :=
  reach_iff.2 fun c hc => h.live c (reach_iff.1 hr c hc)

theorem look (h : Grew v v') {q : Path} (hr : v.reach q.1 = true) : v'.look q = v.look q := by
  rw [look_of_reach hr, look_of_reach (h.reach hr), h.vol]

theorem readable (h : Grew v v') (hr : v.run readRecord = .ok r) : v'.run readRecord = .ok r := by
  refine (run_congr readOnly_readRecord fun q hq => ?_).trans hr
  rw [hq]
  exact h.look (readable_reach hr)

theorem made (ha : v.img.slot d = .absent) : Grew v (v.change (.made d)) := by
  have hlive : ∀ c, v.img.slot c = .live → (v.change (.made d)).img.slot c = .live := by
    intro c hc
    have hne : c ≠ d := by rintro rfl; rw [ha] at hc; cases hc
    simp only [View.change_img, Images.apply, Function.update_of_ne hne]
    exact hc
  refine ⟨rfl, fun _ => .inl rfl, hlive, fun c t hc => ?_,
    fun c hc => ⟨reach_iff.2 fun x hx => hlive x (reach_iff.1 hc.now x hx), hc.later⟩, .cons _ rfl⟩
  simp only [View.change_img, Images.apply] at hc
  by_cases hcd : c = d
  · subst hcd; simp at hc
  · rwa [Function.update_of_ne hcd] at hc

theorem syncs (ds : List Dir) : Grew v (v.syncs ds) := by
  refine ⟨vol_syncs, fun q => ?_, fun c hc => by rw [slot_syncs]; exact hc, fun c t hc => by rwa [slot_syncs] at hc,
    fun c hc => rooted_syncs hc ds, (Frame.syncs (S := fun _ => False) ds).log⟩
  rw [dur_syncs]
  split
  · exact .inr rfl
  · exact .inl rfl

end Grew

/-- One `mkdir` whose parents are in place. -/
theorem does_mkdirIn (hd : d ≠ .folder) (hplain : ∀ t, v.img.slot d ≠ .moved t)
    (hp : ∀ c ∈ d.chain.tail, v.img.slot c = .live) : Does A Legal (call (.mkdir d)) v fun out v' => Grew v v' ∧
      ((out = .ok () ∧ v'.img.slot d = .live) ∨ (out = .error .osError ∧ MayFail A)) := by
  refine Does.mkdir (fun _ _ => .made d (.inl hd)) (fun _ ha => ⟨.made ha, .inl ⟨rfl, ?_⟩⟩)
    (fun _ hne => ⟨.refl v, .inl ⟨rfl, ?_⟩⟩) (fun h => ?_) fun hf => ⟨.refl v, .inr ⟨rfl, hf⟩⟩
  · simp [Images.apply]
  · cases hs : v.img.slot d with
    | absent => exact absurd hs hne
    | live => rfl
    | moved t => exact absurd hs (hplain t)
  · have : (d.chain.tail.all fun c => decide (v.img.slot c = .live)) = true :=
      List.all_eq_true.2 fun c hc => decide_eq_true (hp c hc)
    rw [this] at h; cases h

/-- `Path.mkdir(parents=True)` of an attempt's directory. -/
theorem does_mkdirAttempt (hr : v.reach .folder = true) (hplain : ∀ d t, v.img.slot d = .moved t → d = .folder) :
    Does A Legal (mkdirParents (Dir.attempt n).chain) v fun out v' => Grew v v' ∧
      ((out = .ok () ∧ v'.reach (.attempt n) = true) ∨ (out = .error .osError ∧ MayFail A)) := by
  have hfolder := reach_iff.1 hr
  have hmoved : ∀ w, Grew v w → ∀ d, d ≠ .folder → ∀ t, w.img.slot d ≠ .moved t :=
    fun w hw d hd t h => hd (hplain d t (hw.plain d t h))
  have hreach : ∀ w : View, Grew v w → w.img.slot .attempts = .live → w.img.slot (.attempt n) = .live →
      w.reach (.attempt n) = true := by
    intro w hw ha hn
    refine reach_iff.2 fun c hc => ?_
    rcases List.mem_cons.1 hc with rfl | hc
    · exact hn
    rcases List.mem_cons.1 hc with rfl | hc
    · exact ha
    · exact hw.live c (hfolder c hc)
  have hmk : ∀ w, Grew v w → w.img.slot .attempts = .live → Does A Legal (call (.mkdir (.attempt n))) w fun out v' =>
      Grew v v' ∧ ((out = .ok () ∧ v'.reach (.attempt n) = true) ∨ (out = .error .osError ∧ MayFail A)) := by
    intro w hw ha
    refine (does_mkdirIn (d := .attempt n) (by simp) (hmoved w hw _ (by simp)) fun c hc => ?_).mono ?_
    · rcases List.mem_cons.1 hc with rfl | hc
      · exact ha
      · exact hw.live c (hfolder c hc)
    · rintro out w' ⟨hw', ⟨ho, hs⟩ | h⟩
      · exact ⟨hw.trans hw', .inl ⟨ho, hreach w' (hw.trans hw') (hw'.live _ ha) hs⟩⟩
      · exact ⟨hw.trans hw', .inr h⟩
  by_cases ha : v.img.slot .attempts = .live
  · refine Does.handle (hmk v (.refl v) ha) (fun _ _ h => h) ?_
    rintro e w ⟨hw, ⟨h, -⟩ | ⟨h, hf⟩⟩
    · cases h
    · cases h; exact .raise ⟨hw, .inr ⟨rfl, hf⟩⟩
  · -- the first `mkdir` fails for want of `attempts`, which is made first then
    have hall : ((Dir.attempt n).chain.tail.all fun c => decide (v.img.slot c = .live)) = false := by
      simp [Dir.chain, ha]
    refine Does.handle (R := fun out w => w = v ∧ (out = .error .fileNotFound ∨ (out = .error .osError ∧ MayFail A)))
      (Does.mkdir (fun h => ?_) (fun h => ?_) (fun h => ?_) (fun _ => ⟨rfl, .inl rfl⟩) fun hf => ⟨rfl, .inr ⟨rfl, hf⟩⟩)
      ?_ ?_
    · rw [hall] at h; cases h
    · rw [hall] at h; cases h
    · rw [hall] at h; cases h
    · rintro a w ⟨-, h | ⟨h, -⟩⟩ <;> cases h
    · rintro e w ⟨rfl, h | ⟨h, hf⟩⟩
      swap
      · cases h; exact .raise ⟨.refl w, .inr ⟨rfl, hf⟩⟩
      cases h
      refine Does.bind (R := fun out w' => Grew w w' ∧
        ((out = .ok () ∧ w'.img.slot .attempts = .live) ∨ (out = .error .osError ∧ MayFail A))) ?_ ?_ ?_
      · refine Does.handle (does_mkdirIn (d := .attempts) (by simp) (hmoved w (.refl w) _ (by simp))
          fun c hc => hfolder c hc) (fun _ _ h => h) ?_
        rintro e w' ⟨hw, ⟨h, -⟩ | ⟨h, hf⟩⟩
        · cases h
        · cases h; exact .raise ⟨hw, .inr ⟨rfl, hf⟩⟩
      · rintro ⟨⟩ w' ⟨hw, ⟨-, hs⟩ | ⟨h, -⟩⟩
        · exact hmk w' hw hs
        · cases h
      · rintro e w' ⟨hw, ⟨h, -⟩ | ⟨h, hf⟩⟩
        · cases h
        · cases h; exact ⟨hw, .inr ⟨rfl, hf⟩⟩

/-- **`_make_directory` of an attempt**: it is there and durable. -/
theorem does_makeAttempt (hroot : v.Rooted .folder) (hm : v.img.vol marker ≠ none)
    (hplain : ∀ d t, v.img.slot d = .moved t → d = .folder) :
    Does A Legal (makeDirectory (.attempt n)) v fun out v' => Grew v v' ∧
      ((out = .ok () ∧ v'.Rooted (.attempt n)) ∨ (out = .error .osError ∧ MayFail A)) := by
  refine Does.bind (does_mkdirAttempt hroot.now hplain) ?_ ?_
  swap
  · rintro e w ⟨hw, ⟨h, -⟩ | ⟨h, hf⟩⟩
    · cases h
    · cases h; exact ⟨hw, .inr ⟨rfl, hf⟩⟩
  rintro ⟨⟩ w ⟨hw, ⟨-, hr⟩ | ⟨h, -⟩⟩
  swap
  · cases h
  have hchain : ∀ d ∈ (Dir.attempt n).chain, w.reach d = true := by
    intro d hd
    simp only [Dir.chain, List.mem_cons, List.not_mem_nil, or_false] at hd
    rcases hd with rfl | rfl | rfl | rfl | rfl | rfl | rfl | rfl <;> exact reach_parent hr (by simp [Dir.chain])
  refine (does_syncAll hchain (by rw [hw.vol]; exact hm)).mono ?_
  rintro out w' (⟨ho, rfl⟩ | ⟨hf, ho, ds, rfl⟩)
  swap
  · exact ⟨hw.trans (.syncs ds), .inr ⟨ho, hf⟩⟩
  refine ⟨hw.trans (.syncs _), .inl ⟨ho, by rw [reach_syncs]; exact hr, reach_iff.2 fun c hc => ?_⟩⟩
  by_cases habove : c = .above
  · subst habove
    exact reach_iff.1 ((hw.trans (.syncs _)).rooted _ hroot).later _ (by simp [Dir.chain])
  · rw [slotDur_syncs]
    · exact reach_iff.1 hr c hc
    · simp only [Dir.chain, List.mem_cons, List.not_mem_nil, or_false] at hc
      rcases hc with rfl | rfl | rfl | rfl | rfl | rfl | rfl | rfl
      on_goal 8 => exact absurd rfl habove
      all_goals exact ⟨_, by simp [Dir.chain], rfl⟩

/-! ## `_archive_attempt` -/

/-- A file of the attempt's archive differs from what is to be stored there. -/
def ArchiveConflict (v : View) (n : Nat) (name : Name) (x : Doc) : Prop :=
  ∃ y, v.img.vol (.attempt n, name) = some y ∧ y ≠ x

/-- A failed meeting whose attempt is being archived. -/
structure Archiving (v : View) (r : MeetingRecord) : Prop where
  readable : v.run readRecord = .ok r
  failed : r.meeting.status = .failed
  rooted : v.Rooted .folder
  attempt : v.Rooted (.attempt r.meeting.attempt)
  acting : running v.log ≠ none

theorem Archiving.frame {S : Path → Prop} (h : Archiving v r) (hf : Frame S v v') (hm : ¬ S marker) : Archiving v' r :=
  ⟨(hf.run readOnly_readRecord fun q hq => hq ▸ hm).trans h.readable, h.failed, hf.rooted _ h.rooted,
    hf.rooted _ h.attempt, by rw [hf.log.running]; exact h.acting⟩

theorem durable_of {q : Path} {x : Doc} (hr : v.Rooted q.1) (hl : v.look q = some x) (hd : v.img.dur q = some x) :
    v.Durable q x := ⟨hl, by rw [look_afterPower hr, hd]⟩

theorem View.Durable.frame {S : Path → Prop} {q : Path} {x : Doc} (h : v.Durable q x) (hf : Frame S v v')
    (hq : ¬ S q) (hr : v.Rooted q.1) : v'.Durable q x := by
  have hd : v.img.dur q = some x := (look_afterPower hr).symm.trans h.later
  refine durable_of (hf.rooted _ hr) ((hf.look hq).trans h.now) ?_
  rw [hf.durable hq (hd.trans (vol_of_look h.now).symm), hf.vol q hq, vol_of_look h.now]

/-- Storing an original in the archive. -/
theorem does_archive (h : Archiving v r) {x : Doc} (hx : v.look (.folder, name) = some x)
    (hname : name = .meeting ∨ name ∈ originals) :
    Does A Legal (writeOriginal (.attempt r.meeting.attempt, name) x) v fun out v' =>
      Frame (· = ((.attempt r.meeting.attempt, name) : Path)) v v' ∧ match out with
        | .ok () => v'.Durable (.attempt r.meeting.attempt, name) x ∧ ¬ ArchiveConflict v r.meeting.attempt name x
        | .error e => (e = .osError ∧ MayFail A) ∨ (e = .integrity "Original artifact already exists" ∧
            ArchiveConflict v r.meeting.attempt name x) := by
  have hreach : v.reach (.attempt r.meeting.attempt) = true := h.attempt.now
  refine (does_writeOriginal (p := (.attempt r.meeting.attempt, name)) (readable_notVoid h.readable) hreach
    (fun hfree => .archived r name x h.readable h.failed hx hfree hname) (fun _ => .synced _ hreach)
    fun _ => .synced _ hreach).mono ?_
  rintro (e | ⟨⟩) v' hw
  · refine ⟨hw.frame rfl, ?_⟩
    cases hw with
    | new _ hw => cases hw with
      | nothing hf | shown hf | synced hf => exact .inl ⟨rfl, hf⟩
    | other hy hne => exact .inr ⟨rfl, _, vol_of_look hy, hne⟩
    | failed hf => exact .inl ⟨rfl, hf⟩
  · have hf : Frame (· = ((.attempt r.meeting.attempt, name) : Path)) v v' := hw.frame rfl
    obtain ⟨hl, hd⟩ := hw.done hreach
    refine ⟨hf, durable_of (hf.rooted _ h.attempt) hl hd, ?_⟩
    rintro ⟨y, hy, hne⟩
    have hvol : v.look (.attempt r.meeting.attempt, name) = some y := (look_of_reach (p := (.attempt _, name)) hreach).trans hy
    cases hw with
    | new hfree _ => rw [hfree] at hvol; cases hvol
    | same hl => exact hne (Option.some.inj (hvol.symm.trans hl))

/-- The two places of an original. -/
def places (n : Nat) (name : Name) (q : Path) : Prop := q = (.folder, name) ∨ q = (.attempt n, name)

/-- What moving one original leaves. -/
def Moved (A : Env host) (v : View) (n : Nat) (name : Name) (out : Except Exn Unit) (v' : View) : Prop :=
  Frame (places n name) v v' ∧ match out with
    | .ok () => v'.look (.folder, name) = none ∧
        ∀ x, v.look (.folder, name) = some x → v'.Durable (.attempt n, name) x ∧ ¬ ArchiveConflict v n name x
    | .error e => (e = .osError ∧ MayFail A) ∨ (e = .integrity "Original artifact already exists" ∧
        ∃ x, v.look (.folder, name) = some x ∧ ArchiveConflict v n name x)

theorem does_archiveOriginal (h : Archiving v r) (hname : name ∈ originals)
    (hfirst : name ≠ .manifest → v.look (.folder, .manifest) = none) :
    Does A Legal (archiveOriginal r.meeting.attempt name) v (Moved A v r.meeting.attempt name) := by
  have hmk : ¬ places r.meeting.attempt name marker := by
    rintro (h | h) <;> cases h
    simp [originals] at hname
  refine Does.bind (R := fun out v' => v' = v ∧ (out = .ok (v.look (.folder, name)).isSome ∨
    out = .error .osError ∧ MayFail A)) (Does.exists ⟨rfl, .inl rfl⟩ fun hf => ⟨rfl, .inr ⟨rfl, hf⟩⟩) ?_ ?_
  swap
  · rintro e v ⟨rfl, he | ⟨he, hf⟩⟩
    · cases he
    · cases he; exact ⟨.refl v, .inl ⟨rfl, hf⟩⟩
  rintro there v ⟨rfl, he | ⟨he, -⟩⟩
  swap
  · cases he
  cases he
  cases hx : v.look (.folder, name) with
  | none => exact .ret ⟨.refl v, hx, fun x h' => by rw [hx] at h'; cases h'⟩
  | some x =>
    simp only [Option.isSome_some, if_true]
    refine Does.readThen (readOnly_read (S := fun _ => True) trivial) (fun y hy => ?_) (fun e he => ?_)
      fun hf => ⟨.refl v, .inl ⟨rfl, hf⟩⟩
    swap
    · rw [run_read, hx] at he; cases he
    rw [run_read, hx] at hy
    cases hy
    refine Does.bind (does_archive h hx (.inr hname)) ?_ ?_
    swap
    · rintro e v' ⟨hf, he⟩
      exact ⟨hf.mono fun q hq => .inr hq, he.imp_right fun ⟨he, hc⟩ => ⟨he, x, hx, hc⟩⟩
    rintro ⟨⟩ v₁ ⟨hf₁, hd₁, hfree⟩
    have hne : ((.folder, name) : Path) ≠ (.attempt r.meeting.attempt, name) := nofun
    have h₁ : Archiving v₁ r := h.frame hf₁ nofun
    have hx₁ : v₁.look (.folder, name) = some x := (hf₁.look hne).trans hx
    have hman₁ : name ≠ .manifest → v₁.look (.folder, .manifest) = none := fun hn =>
      (hf₁.look (q := (.folder, .manifest)) nofun).trans (hfirst hn)
    refine Does.bind (R := fun out v' => (out = .ok () ∧ v' = v₁.drop (.folder, name)) ∨
        (out = .error .osError ∧ MayFail A ∧ v' = v₁))
      (Does.unlink (p := (.folder, name)) (fun _ => .dropped r name x h₁.readable h₁.failed hx₁ hd₁ hname hman₁)
        (fun _ => .inl ⟨rfl, rfl⟩) (fun hn => ?_) fun hf => .inr ⟨rfl, hf.mayFail, rfl⟩) ?_ ?_
    · rw [hx₁] at hn; cases hn
    · rintro ⟨⟩ v₂ (⟨-, rfl⟩ | ⟨he, -⟩)
      swap
      · cases he
      have hf₂ : Frame (· = ((.folder, name) : Path)) v₁ (v₁.drop (.folder, name)) := .drop rfl
      have hf₂' : Frame (places r.meeting.attempt name) v (v₁.drop (.folder, name)) :=
        (hf₁.mono fun q hq => .inr hq).trans (hf₂.mono fun q hq => .inl hq)
      have h₂ := h.frame hf₂' hmk
      refine Does.syncDirectory (.inl (readable_notVoid h₂.readable)) (fun hr => .synced _ hr)
        (fun _ => ⟨hf₂'.trans (.sync _), look_drop_self (v := v₁), fun y hy => ?_⟩) (fun hr => ?_)
        fun hf => ⟨hf₂', .inl ⟨rfl, hf.mayFail⟩⟩
      · rw [hx] at hy
        cases hy
        exact ⟨hd₁.frame (hf₂.trans (.sync _)) (fun h => hne h.symm) h₁.attempt, hfree⟩
      · rw [readable_reach h₂.readable] at hr; cases hr
    · rintro e v₂ (⟨he, -⟩ | ⟨he, hf, rfl⟩)
      · cases he
      · cases he; exact ⟨hf₁.mono fun q hq => .inr hq, .inl ⟨rfl, hf⟩⟩

/-- What moving a list of originals leaves. -/
def MovedAll (A : Env host) (v : View) (n : Nat) (names : List Name) (out : Except Exn Unit) (v' : View) : Prop :=
  Frame (fun q => ∃ name ∈ names, places n name q) v v' ∧ match out with
    | .ok () => ∀ name ∈ names, v'.look (.folder, name) = none ∧
        ∀ x, v.look (.folder, name) = some x → v'.Durable (.attempt n, name) x ∧ ¬ ArchiveConflict v n name x
    | .error e => (e = .osError ∧ MayFail A) ∨ (e = .integrity "Original artifact already exists" ∧
        ∃ name ∈ names, ∃ x, v.look (.folder, name) = some x ∧ ArchiveConflict v n name x)

theorem not_places {names : List Name} {name : Name} (h : name ∉ names) {d : Dir} :
    ¬ ∃ name' ∈ names, places n name' (d, name) := by
  rintro ⟨name', hm, hp | hp⟩ <;> cases hp <;> exact h hm

theorem does_archiveOriginals {names : List Name} (h : Archiving v r) (hnames : ∀ name ∈ names, name ∈ originals)
    (hnd : names.Nodup) (hfirst : v.look (.folder, .manifest) = none ∨ ∃ rest, names = .manifest :: rest) :
    Does A Legal (archiveOriginals r.meeting.attempt names) v (MovedAll A v r.meeting.attempt names) := by
  induction names generalizing v with
  | nil => exact .ret ⟨.refl v, by simp⟩
  | cons name names ih =>
    rw [List.nodup_cons] at hnd
    have hname := hnames name List.mem_cons_self
    refine Does.bind (does_archiveOriginal h hname fun hne => ?_) ?_ ?_
    · rcases hfirst with hn | ⟨rest, hc⟩
      · exact hn
      · cases hc; exact absurd rfl hne
    swap
    · rintro e v₁ ⟨hf, he⟩
      exact ⟨hf.mono fun q hq => ⟨name, List.mem_cons_self, hq⟩,
        he.imp_right fun ⟨he, hc⟩ => ⟨he, name, List.mem_cons_self, hc⟩⟩
    rintro ⟨⟩ v₁ ⟨hf₁, hgone₁, hd₁⟩
    have hmk : ¬ places r.meeting.attempt name marker := by
      rintro (h | h) <;> cases h
      simp [originals] at hname
    have h₁ := h.frame hf₁ hmk
    have hman₁ : v₁.look (.folder, .manifest) = none := by
      by_cases hm : name = .manifest
      · rw [← hm]; exact hgone₁
      · rcases hfirst with hn | ⟨rest, hc⟩
        · refine (hf₁.look ?_).trans hn
          rintro (hp | hp)
          · cases hp; exact hm rfl
          · cases hp
        · cases hc; exact absurd rfl hm
    refine (ih h₁ (fun x hx => hnames x (List.mem_cons_of_mem _ hx)) hnd.2 (.inl hman₁)).mono ?_
    rintro out v₂ ⟨hf₂, hq⟩
    have hother : ∀ d x, x ∈ names → ¬ places r.meeting.attempt name (d, x) := by
      rintro d x hx (hp | hp) <;> cases hp <;> exact hnd.1 hx
    refine ⟨(hf₁.mono fun q hq => ⟨name, List.mem_cons_self, hq⟩).trans
      (hf₂.mono fun q ⟨x, hx, hq⟩ => ⟨x, List.mem_cons_of_mem _ hx, hq⟩), ?_⟩
    cases out with
    | ok u =>
      intro x hx
      rcases List.mem_cons.1 hx with rfl | hx
      · exact ⟨(hf₂.look (not_places hnd.1)).trans hgone₁,
          fun y hy => ⟨(hd₁ y hy).1.frame hf₂ (not_places hnd.1) h₁.attempt, (hd₁ y hy).2⟩⟩
      · obtain ⟨hg, hd⟩ := hq x hx
        refine ⟨hg, fun y hy => ?_⟩
        obtain ⟨hdur, hfree⟩ := hd y ((hf₁.look (hother _ x hx)).trans hy)
        refine ⟨hdur, ?_⟩
        rintro ⟨z, hz, hne⟩
        exact hfree ⟨z, (hf₁.vol _ (hother _ x hx)).trans hz, hne⟩
    | error e =>
      refine Or.imp_right ?_ hq
      rintro ⟨he, x, hx, y, hy, z, hz, hne⟩
      exact ⟨he, x, List.mem_cons_of_mem _ hx, y, (hf₁.look (hother _ x hx)).symm.trans hy, z,
        (hf₁.vol _ (hother _ x hx)).symm.trans hz, hne⟩

/-- Everything the archive of the attempt is to hold is there. -/
structure Archived (v v' : View) (r : MeetingRecord) : Prop where
  record : v'.Durable (.attempt r.meeting.attempt, .meeting) (.record r)
  originals : ∀ name ∈ originals, ∀ x, v.look (.folder, name) = some x →
    v'.Durable (.attempt r.meeting.attempt, name) x

/-- What stands in the way of the archive. -/
def Blocked (v : View) (r : MeetingRecord) : Prop :=
  ArchiveConflict v r.meeting.attempt .meeting (.record r) ∨
    ∃ name ∈ originals, ∃ x, v.look (.folder, name) = some x ∧ ArchiveConflict v r.meeting.attempt name x

/-- What `_archive_attempt` leaves. -/
def ArchivedAttempt (A : Env host) (v : View) (r : MeetingRecord) (out : Except Exn Unit) (v' : View) : Prop :=
  match out with
  | .ok () => Archiving v' r ∧ Archived v v' r ∧ (∀ name ∈ originals, v'.look (.folder, name) = none) ∧
      v'.look (.folder, .upload) = v.look (.folder, .upload) ∧ Quiet v.log v'.log ∧ ¬ Blocked v r
  | .error e => (e = .osError ∧ MayFail A) ∨ (e = .integrity "Original artifact already exists" ∧ Blocked v r)

theorem does_archiveAttempt (hr : v.run readRecord = .ok r) (hs : r.meeting.status = .failed)
    (hroot : v.Rooted .folder) (hg : Grounded v) (hact : running v.log ≠ none) :
    Does A Legal (archiveAttempt r) v (ArchivedAttempt A v r) := by
  have hreach := readable_reach hr
  refine Does.bind (does_makeAttempt hroot (by rw [vol_of_look (readable_look hr)]; simp) hg.plain) ?_ ?_
  swap
  · rintro e v₁ ⟨-, ⟨h, -⟩ | ⟨h, hf⟩⟩
    · cases h
    · cases h; exact .inl ⟨rfl, hf⟩
  rintro ⟨⟩ v₁ ⟨hv₁, ⟨-, hroot₁⟩ | ⟨h, -⟩⟩
  swap
  · cases h
  have h₁ : Archiving v₁ r :=
    ⟨hv₁.readable hr, hs, hv₁.rooted _ hroot, hroot₁, by rw [hv₁.log.running]; exact hact⟩
  have hlook₁ : ∀ name, v₁.look (.folder, name) = v.look (.folder, name) := fun name => hv₁.look hreach
  have hconf₁ : ∀ name x, ArchiveConflict v₁ r.meeting.attempt name x → ArchiveConflict v r.meeting.attempt name x := by
    rintro name x ⟨y, hy, hne⟩
    exact ⟨y, by rw [← hv₁.vol]; exact hy, hne⟩
  refine Does.bind (does_archive h₁ (readable_look h₁.readable) (.inl rfl)) ?_ ?_
  swap
  · rintro e v₂ ⟨-, he⟩
    exact he.imp_right fun ⟨he, hc⟩ => ⟨he, .inl (hconf₁ _ _ hc)⟩
  rintro ⟨⟩ v₂ ⟨hf₂, hd₂, hfree₂⟩
  have h₂ : Archiving v₂ r := h₁.frame hf₂ nofun
  have hlook₂ : ∀ name, v₂.look (.folder, name) = v.look (.folder, name) :=
    fun name => (hf₂.look (q := (.folder, name)) nofun).trans (hlook₁ name)
  refine Does.bind (does_archiveOriginals h₂ (fun _ h => h) (by decide) (.inr ⟨_, rfl⟩)) ?_ ?_
  swap
  · rintro e v₃ ⟨-, he⟩
    refine he.imp_right fun ⟨he, name, hn, x, hx, y, hy, hne⟩ => ⟨he, .inr ⟨name, hn, x, (hlook₂ name).symm.trans hx, ?_⟩⟩
    have hne' : ((.attempt r.meeting.attempt, name) : Path) ≠ (.attempt r.meeting.attempt, .meeting) := by
      intro h
      cases h
      simp [originals] at hn
    exact hconf₁ name x ⟨y, (hf₂.vol _ hne').symm.trans hy, hne⟩
  rintro ⟨⟩ v₃ ⟨hf₃, hmoved⟩
  have hmk : ¬ ∃ name ∈ originals, places r.meeting.attempt name marker := by
    rintro ⟨name, hn, hp | hp⟩ <;> cases hp
    simp [originals] at hn
  have h₃ := h₂.frame hf₃ hmk
  have hsync : Frame (fun _ => False) v₃ (v₃.sync .attempts) := .sync _
  refine Does.syncDirectory (.inl (readable_notVoid h₃.readable)) (fun hr => .synced _ hr) (fun _ => ?_) (fun hr => ?_)
    fun hf => .inl ⟨rfl, hf.mayFail⟩
  · have hrec₃ : v₃.Durable (.attempt r.meeting.attempt, .meeting) (.record r) := by
      refine hd₂.frame hf₃ ?_ h₂.attempt
      rintro ⟨name, hn, hp | hp⟩ <;> cases hp
      simp [originals] at hn
    refine ⟨h₃.frame hsync id, ⟨hrec₃.frame hsync id h₃.attempt, fun name hn x hx => ?_⟩, fun name hn => ?_, ?_, ?_, ?_⟩
    · exact ((hmoved name hn).2 x ((hlook₂ name).trans hx)).1.frame hsync id h₃.attempt
    · exact (hmoved name hn).1
    · refine (hf₃.look ?_).trans (hlook₂ .upload)
      rintro ⟨name, hn, hp | hp⟩ <;> cases hp
      simp [originals] at hn
    · exact ((hv₁.log.trans hf₂.log).trans hf₃.log).trans hsync.log
    · rintro (⟨y, hy, hne⟩ | ⟨name, hn, x, hx, y, hy, hne⟩)
      · exact hfree₂ ⟨y, by rw [hv₁.vol]; exact hy, hne⟩
      · refine ((hmoved name hn).2 x ((hlook₂ name).trans hx)).2 ⟨y, ?_, hne⟩
        refine (hf₂.vol _ ?_).trans (by rw [hv₁.vol]; exact hy)
        rintro h
        cases h
        simp [originals] at hn
  · have : v₃.reach .attempts = true := reach_parent h₃.attempt.now (by simp +contextual [Dir.chain])
    rw [this] at hr; cases hr

/-! ## `retry_meeting` -/

/-- Why a retry is refused. -/
inductive RetryRefused (A : Env host) (v : View) (r : MeetingRecord) : LifecycleCode → Prop where
  | state (h : r.meeting.status ≠ .failed) : RetryRefused A v r .invalidState
  | attempts (h : 3 ≤ r.meeting.attempt) : RetryRefused A v r .attemptsExhausted
  | missing (h : v.look (.folder, .upload) = none) : RetryRefused A v r .sourceExpired
  | unlimited (h : r.meeting.temporaryExpiresAt = none) : RetryRefused A v r .sourceExpired
  | late (deadline t : Time) (hd : r.meeting.temporaryExpiresAt = some deadline) (ht : MayShow A t)
      (h : deadline ≤ t) : RetryRefused A v r .sourceExpired

/-- What `retry_meeting` leaves. -/
def Retried (A : Env host) (v : View) (r : MeetingRecord) (out : Except Exn Meeting) (v' : View) : Prop :=
  match out with
  | .ok m => (∃ t, v'.run readRecord = .ok (r.retried t)) ∧ Archived v v' r ∧ m.status = .queued ∧
      m.attempt = r.meeting.attempt + 1 ∧ ¬ Blocked v r
  | .error e => (e = .osError ∧ MayFail A) ∨ (e = .integrity "Original artifact already exists" ∧ Blocked v r) ∨
      ∃ c, e = .lifecycleConflict c ∧ RetryRefused A v r c

theorem does_updateRetried {t : Time} (hr : v.run readRecord = .ok r) (hs : r.meeting.status = .failed)
    (ha : r.meeting.attempt < 3) (hu : (v.look (.folder, .upload)).isSome) (hd : r.timely) (hroot : v.Rooted .folder)
    (hg : Grounded v) (hact : running v.log = some .retry) :
    Does A Legal (updateMeeting (r.retried t)) v (Retried A v r) := by
  obtain ⟨-, hok, ho, -⟩ := readRecord_ok.1 hr
  unfold updateMeeting
  simp only [ok_retried hok, demand, if_true, Prog.bind_eq, Prog.ret_bind]
  refine Does.readThen readOnly_readRecord (fun old hold => ?_) (fun e h => ?_) fun hf => .inl ⟨rfl, hf⟩
  swap
  · rw [hr] at h; cases h
  rw [hr] at hold
  cases hold
  have hne : ¬ (r.retried t).meeting.attempt = r.meeting.attempt := by
    show ¬ r.meeting.attempt + 1 = r.meeting.attempt
    omega
  have hretries : (r.retried t).retries r = true := by simp [MeetingRecord.retries, MeetingRecord.retried, hs]
  have hown : (r.retried t).ownerId = Home.ownerId := ho
  have hcreated : (r.retried t).meeting.createdAt = r.meeting.createdAt := rfl
  simp only [hown, hcreated, decide_true, Bool.and_self, if_true, Prog.ret_bind, archiveBefore, if_neg hne, demand,
    hretries, Prog.bind_eq]
  refine Does.bind (does_archiveAttempt hr hs hroot hg (by rw [hact]; rintro ⟨⟩)) ?_ ?_
  swap
  · rintro e v₁ he
    exact he.imp_right .inl
  rintro ⟨⟩ v₁ ⟨h₁, harch, hgone, hup, hq, hfree⟩
  show Does A Legal ((checkResults (r.retried t)).bind _) v₁ _
  have hcheck : checkResults (r.retried t) = .ret () := rfl
  rw [hcheck, Prog.ret_bind]
  have hmove : Move v₁ r (r.retried t) := .retried t hs ha (hup ▸ hu) hgone harch.record hd
    (hq.running.trans hact)
  have hreach := readable_reach h₁.readable
  have hmk : ∀ d n, Dir.attempt d ≠ Dir.folder ∧ ((.attempt d, n) : Path) ≠ marker := fun _ _ => ⟨(by simp), (by simp)⟩
  refine Does.bind (does_atomicWrite (readable_notVoid h₁.readable) hreach
    (.moved r _ h₁.readable (hmove.ok hok) hmove h₁.acting) (.synced _ hreach)) ?_ ?_
  swap
  · rintro e v₂ hw
    cases hw with
    | nothing hf | shown hf | synced hf => exact .inl ⟨rfl, hf⟩
  rintro ⟨⟩ v₂ hw
  have hf₂ : Frame (· = marker) v₁ v₂ := hw.frame rfl
  have hr₂ : v₂.run readRecord = .ok (r.retried t) := by
    cases hw
    exact hmove.readable_marked h₁.readable
  refine does_readMeeting.mono ?_
  rintro out v₃ ⟨rfl, hs'⟩
  cases hs' with
  | shown r₁ m b h hm hb =>
    rw [hr₂] at h
    cases h
    rw [run_showStatus] at hm
    cases hm
    exact ⟨⟨t, hr₂⟩, ⟨harch.record.frame hf₂ (by simp) h₁.attempt,
      fun name hn x hx => (harch.originals name hn x hx).frame hf₂ (by simp) h₁.attempt⟩, rfl, rfl, hfree⟩
  | unreadable e h => rw [hr₂] at h; cases h
  | unshown r₁ e h hm =>
    rw [hr₂] at h
    cases h
    rw [run_showStatus] at hm
    cases hm
  | failed hf => exact .inl ⟨rfl, hf⟩

/-- **`retry_meeting` obeys the law**, and this is all it may leave. -/
theorem does_retry (hr : v.run readRecord = .ok r) (hroot : v.Rooted .folder) (hg : Grounded v)
    (hact : running v.log = some .retry) : Does A Legal Lifecycle.retryMeeting v (Retried A v r) := by
  refine does_lifecycleLock (fun r₁ b h _ => ?_) (fun e h => ?_) fun hf => .inl ⟨rfl, hf⟩
  swap
  · rw [hr] at h; cases h
  rw [hr] at h
  cases h
  refine Does.readThen readOnly_readRecord (fun r₁ h => ?_) (fun e h => ?_) fun hf => .inl ⟨rfl, hf⟩
  swap
  · rw [hr] at h; cases h
  rw [hr] at h
  cases h
  refine Does.bind does_demand ?_ ?_
  swap
  · rintro e v ⟨rfl, rfl, hno⟩
    exact .inr (.inr ⟨_, rfl, .state (by simpa using hno)⟩)
  rintro ⟨⟩ v ⟨rfl, hs⟩
  replace hs : r.meeting.status = .failed := by simpa using hs
  refine Does.bind does_demand ?_ ?_
  swap
  · rintro e v ⟨rfl, rfl, hno⟩
    exact .inr (.inr ⟨_, rfl, .attempts (by simpa using hno)⟩)
  rintro ⟨⟩ v ⟨rfl, ha⟩
  replace ha : r.meeting.attempt < 3 := by simpa using ha
  have hp : r.meeting.status.published = false := by rw [hs]; rfl
  refine Does.bind does_readMeeting ?_ ?_
  swap
  · rintro e v ⟨rfl, he⟩
    exact .inl (he.fault hr hp)
  rintro shown v ⟨rfl, hshown⟩
  have hav := hshown.available hr hp
  refine Does.bind does_demand ?_ ?_
  swap
  · rintro e v ⟨rfl, rfl, hno⟩
    refine .inr (.inr ⟨_, rfl, ?_⟩)
    generalize shown.sourceAvailable = b at hno hav
    cases hav with
    | missing h => exact .missing h
    | unlimited h => exact .unlimited h
    | timed deadline t hu hd ht => exact .late deadline t hd ht (by simpa using hno)
  rintro ⟨⟩ v ⟨rfl, hyes⟩
  obtain ⟨hu, htimely⟩ := hav.timely hyes
  refine Does.bind (R := fun out v' => v' = v ∧ ∃ t, out = .ok t) (Does.now fun t _ => ⟨rfl, t, rfl⟩) ?_ ?_
  · rintro t v ⟨rfl, _, ht⟩
    cases ht
    exact does_updateRetried hr hs ha hu htimely hroot hg hact
  · rintro e v ⟨-, t, ht⟩
    cases ht

end Tirke
