import Tirke.Runs.Playing
/-!
# Runs, one use of the meeting at a time

A program that is under way began in some reachable configuration at rest, and has only performed operations since
(`Run.split`). So what a service promises (`Does`) can be used of any run that reaches its end.

`Traced` is the other tool of the theorems: what every move does to the record holds along the marker's history.
-/

set_option linter.unusedSectionVars false

namespace Tirke

open CrashProg CrashDisk

variable [Lib] [Home] {v v' : View} {r r' : MeetingRecord} {c c' : Config} {rot : Prop}

/-! ## Uses -/

/-- One operation of the program under way. -/
inductive Performed : Config → Config → Prop where
  | op (w : World) (o : Op) (k : o.Reply → Serv Unit) (ch : Choice) :
      Performed ⟨w, some (.op o k)⟩ ⟨(w.act o ch).2, some (k (w.act o ch).1)⟩

abbrev Performs : Config → Config → Prop := Relation.ReflTransGen Performed

theorem Performed.step (h : Performed c c') : Step rot c c' := by
  cases h
  exact .op _ _ _ _

theorem Performs.run (h : Performs c c') : Run rot c c' := by
  induction h with
  | refl => exact .refl
  | tail _ hs ih => exact ih.tail hs.step

theorem Happens.log (h : Happens rot v v') : ∃ e, v'.log = e :: v.log := by
  cases h with
  | lawful e hl => exact ⟨e, after_log⟩
  | bounds e he => exact ⟨e, rfl⟩
  | power => exact ⟨.power, rfl⟩
  | damaged n d => exact ⟨.damaged n d, rfl⟩

theorem Step.log (h : Step rot c c') (hg : Good rot c) : c.world.log <:+ c'.world.log := by
  rcases h.happens hg with he | hh
  · have hlog : c'.world.log = c.world.log := congrArg View.log he
    exact hlog ▸ List.suffix_refl _
  · obtain ⟨e, hlog⟩ := hh.log
    have hlog' : c'.world.log = e :: c.world.log := hlog
    exact hlog' ▸ List.suffix_cons _ _

theorem Run.log (h : Reach (Step rot) c) (hs : Run rot c c') : c.world.log <:+ c'.world.log := by
  induction hs with
  | refl => exact List.suffix_refl _
  | tail hs hstep ih => exact ih.trans (hstep.log (reach_good (fun _ _ h => h) (h.trans hs)))

theorem performs_play {p : Serv Unit} {stop : World → Op → Bool} {f : World → Op → Choice} {w : World} :
    Performs ⟨w, some p⟩ ⟨(host.play stop f p w).2, some (host.play stop f p w).1⟩ := by
  induction p generalizing w with
  | ret u => exact .refl
  | raise e => exact .refl
  | op o k ih =>
    unfold Machine.play
    split
    · exact .refl
    · exact .head (.op w o k (f w o)) (ih _)

/-- The configuration in which a use of the meeting begins. -/
def Config.begin (c : Config) (a : Action) : Config := ⟨c.world.note (.started a), some a.program⟩

/-- Nothing is under way. -/
def Config.idle (c : Config) : Prop := c.prog = none

theorem step_begin {a : Action} (hc : c.idle) (ha : a.valid) : Step rot c (c.begin a) := by
  obtain ⟨w, p⟩ := c
  cases hc
  exact .start w a ha

/-- **A program under way began at rest.** -/
theorem Run.split (h : Run rot c c') (hc : c.idle) {p : Serv Unit} (hp : c'.prog = some p) :
    ∃ c₁ a, Run rot c c₁ ∧ c₁.idle ∧ a.valid ∧ Performs (c₁.begin a) c' := by
  induction h generalizing p with
  | refl => cases hc.symm.trans hp
  | @tail c₁ c₂ hs hstep ih =>
    cases hstep with
    | start w a ha => exact ⟨_, a, hs, rfl, ha, .refl⟩
    | op w o k ch =>
      obtain ⟨c₀, a, hrun, hidle, ha, hperf⟩ := ih rfl
      exact ⟨c₀, a, hrun, hidle, ha, hperf.tail (.op w o k ch)⟩
    | returned | raised | killed | waited | damaged => cases hp
    | power w q => cases hp

/-- Every use of a stored meeting began at rest. -/
theorem Reach.split (h : Reach (Step rot) c) {p : Serv Unit} (hp : c.prog = some p) (hr : running c.world.log ≠ none) :
    ∃ c₁ a, Reach (Step rot) c₁ ∧ Run rot c₁ c ∧ c₁.idle ∧ a.valid ∧ Performs (c₁.begin a) c ∧
      running c.world.log = some a := by
  obtain ⟨c₀, h₀, hs⟩ := h
  induction hs generalizing p with
  | refl =>
    cases h₀ with
    | created w _ _ _ _ _ hb =>
      have hlog : w.log = [] := hb.log
      exact absurd (by rw [hlog]; rfl) hr
    | legacy => cases hp
  | @tail c₁ c₂ hs hstep ih =>
    have hreach : Reach (Step rot) c₁ := ⟨c₀, h₀, hs⟩
    have hg : Good rot c₁ := reach_good (fun _ _ h => h) hreach
    cases hstep with
    | start w a ha => exact ⟨_, a, hreach, .single (.start w a ha), rfl, ha, .refl, rfl⟩
    | op w o k ch =>
      have hrun := guarded_running hg.fit (hg.obeys _ rfl).1 ch
      obtain ⟨c, a, hc, hcrun, hidle, ha, hperf, hrun'⟩ := ih rfl (by rw [← hrun]; exact hr)
      exact ⟨c, a, hc, hcrun.tail (.op w o k ch), hidle, ha, hperf.tail (.op w o k ch), hrun.trans hrun'⟩
    | returned | raised | killed | waited | damaged => cases hp
    | power w q => cases hp

/-- What is promised of a program holds of all that it may still do. -/
theorem Performs.sat {G : Guard host} {Q : Post host Exn Unit} {p p' : Serv Unit} (h : Performs c c') (hp : c.prog = some p)
    (hs : Sat anything G Q p c.world) (hp' : c'.prog = some p') : Sat anything G Q p' c'.world := by
  induction h generalizing p' with
  | refl =>
    cases hp.symm.trans hp'
    exact hs
  | tail _ hstep ih =>
    cases hstep with
    | op w o k ch =>
      cases hp'
      exact (ih rfl).2 ch trivial

/-- **What a service promises of every end, holds when it ends.** -/
theorem Performs.ends {Q : Except Exn Unit → View → Prop} {p : Serv Unit} {o : Except Exn Unit} (h : Performs c c')
    (hp : c.prog = some p) (hf : Fit c.world.disk) (hd : Does anything Legal p c.world.view Q)
    (he : c'.prog = some (.ofExcept o)) : Q o c'.world.view := by
  have hs := h.sat hp (hd _ rfl hf) he
  cases o with
  | ok _ => exact hs.2
  | error _ => exact hs.2

theorem Performs.running (h : Performs c c') (hg : Good rot c) : running c'.world.log = running c.world.log := by
  have hgood : Good rot c' ∧ Tirke.running c'.world.log = Tirke.running c.world.log := by
    induction h with
    | refl => exact ⟨hg, rfl⟩
    | tail _ hstep ih =>
      refine ⟨hstep.step.good ih.1, ?_⟩
      cases hstep with
      | op w o k ch => exact (guarded_running ih.1.fit (ih.1.obeys _ rfl).1 ch).trans ih.2
  exact hgood.2

/-! ## What lasts -/

theorem suffix_commits {H : History} {log : List Event} {e : Event} (hr : running log ≠ none)
    (h : H <:+ (commits log).2 ∧ H <:+ (commits log).1) : H <:+ (commits (e :: log)).2 ∧ H <:+ (commits (e :: log)).1 := by
  cases hm : e.marked with
  | some r =>
    simp only [commits, hm]
    rw [if_pos (Option.isSome_iff_ne_none.2 hr)]
    exact ⟨h.1, h.2.trans (List.suffix_cons _ _)⟩
  | none =>
    simp only [commits, hm]
    split
    · exact ⟨h.2, h.2⟩
    · exact ⟨h.1, h.1⟩
    · exact h

/-- What is durable of the history stays, whatever happens. -/
theorem Happens.lasting {H : History} (h : Happens rot v v') (hr : Tirke.running v.log ≠ none)
    (hk : H <:+ v.kept ∧ H <:+ v.hist) : H <:+ v'.kept ∧ H <:+ v'.hist := by
  cases h with
  | lawful e hl =>
    rw [View.kept, View.hist, after_log]
    exact suffix_commits hr hk
  | bounds e he => exact suffix_commits (e := e) hr hk
  | power => exact suffix_commits (e := .power) hr hk
  | damaged n d => exact suffix_commits (e := .damaged n d) hr hk

theorem Run.lasting {H : History} (h : Reach (Step rot) c) (hs : Run rot c c') (hr : running c.world.log ≠ none)
    (hk : H <:+ c.world.view.kept ∧ H <:+ c.world.view.hist) :
    H <:+ c'.world.view.kept ∧ H <:+ c'.world.view.hist := by
  have hboth : Tirke.running c'.world.log ≠ none ∧ H <:+ c'.world.view.kept ∧ H <:+ c'.world.view.hist := by
    induction hs with
    | refl => exact ⟨hr, hk⟩
    | @tail c₁ c₂ hs hstep ih =>
      have hg : Good rot c₁ := reach_good (fun _ _ h => h) (h.trans hs)
      rcases hstep.happens hg with he | hh
      · rw [show c₂.world.log = c₁.world.log from congrArg View.log he, he]
        exact ih
      · exact ⟨hh.running ih.1, hh.lasting ih.1 ih.2⟩
  exact hboth.2

/-! ## What holds along the history -/

/-- The record that shows evolved from every one of its history. -/
theorem Inv.newest (h : Inv v) (hp : v.inPlay) (hr : v.files .meeting = some (.record r')) {k : Commit}
    (hk : k ∈ v.hist) : k.record = r' ∨ Evolves k.record r' := by
  obtain ⟨k', h', hhist, hd, -, -, -, hchain⟩ := h.genuine.now hp _ hr
  cases hd
  rw [hhist] at hchain hk
  let _ : Trans (fun c c' : Commit => Evolves c'.record c.record) (fun c c' : Commit => Evolves c'.record c.record)
    (fun c c' : Commit => Evolves c'.record c.record) := ⟨fun h h' => Evolves.trans h' h⟩
  have hall : (k' :: h').Pairwise fun c c' => Evolves c'.record c.record := List.isChain_iff_pairwise.1 hchain
  rcases List.mem_cons.1 hk with rfl | hk
  · exact .inl rfl
  · exact .inr ((List.pairwise_cons.1 hall).1 k hk)

/-- What is durable is part of what shows. -/
theorem Inv.kept_hist (h : Inv v) (hd : v.backup .meeting = some (.record r)) : ∃ k ∈ v.hist, k.record = r := by
  obtain ⟨k, h', hkept, hk, -⟩ := h.genuine.later _ hd
  cases hk
  refine ⟨k, (h.ordered (by rw [hd]; nofun)).subset ?_, rfl⟩
  rw [View.kept] at hkept
  rw [View.kept, hkept]
  exact List.mem_cons_self

/-- A folder that is wiped is not in play, or has no marker. -/
theorem wiped_inPlay {left : Option (Dir × Name → Bool)} (h : v.img.slot .folder ≠ .live ∨ v.img.vol (.folder, .meeting) = none)
    (hp : (v.change (.wiped .folder left)).inPlay) : v.inPlay ∧ v.files .meeting = none := by
  have hlive : v.img.slot .folder = .live := by
    rcases hp with hp | ⟨t, log, hp⟩
    · cases left with
      | some f => exact hp
      | none =>
        have habs : (v.img.apply (.wiped .folder none)).slot .folder = .absent := by simp [Images.apply]
        cases habs.symm.trans hp
    · cases hp
  exact ⟨.inl hlive, h.resolve_left fun hne => hne hlive⟩

/-- A marker that shows is read. -/
theorem Inv.readable (h : Inv v) {d : Doc} (hd : v.look (.folder, .meeting) = some d) :
    ∃ r, d = .record r ∧ v.run readRecord = .ok r := by
  have hlive : v.inPlay :=
    inPlay_of_live (live_of_reach (reach_of_look hd) (by simp [Dir.chain]))
  obtain ⟨k, h', -, rfl, hok, ho, hid, -⟩ := h.genuine.now hlive d (vol_of_look hd)
  exact ⟨k.record, rfl, readRecord_ok.2 ⟨hd, hok, ho, hid⟩⟩

section
variable {n m : Name} {x : Doc}

@[simp] theorem after_put_self : (v.after (.file (.put (.folder, n) x))).files n = some x :=
  (congrFun (Holds.files_put (v := v)) n).trans (Function.update_self ..)

theorem after_put_of_ne (h : m ≠ n) : (v.after (.file (.put (.folder, n) x))).files m = v.files m :=
  (congrFun (Holds.files_put (v := v)) m).trans (Function.update_of_ne h _ _)

@[simp] theorem after_drop_self : (v.after (.file (.removed (.folder, n)))).files n = none :=
  (congrFun (Holds.files_drop (v := v)) n).trans (Function.update_self ..)

theorem after_drop_of_ne (h : m ≠ n) : (v.after (.file (.removed (.folder, n)))).files m = v.files m :=
  (congrFun (Holds.files_drop (v := v)) m).trans (Function.update_of_ne h _ _)

end

/-- Every record of the history is `R` of the one before it. -/
def Traced (R : MeetingRecord → MeetingRecord → Prop) : Property := fun _ h _ => h.IsChain fun c c' => R c'.record c.record

theorem stable_traced {I : View → Prop} {R : MeetingRecord → MeetingRecord → Prop} (hi : ∀ v, I v → Holds Genuine v)
    (hR : ∀ v r r', I v → v.run readRecord = .ok r → r'.ok = true → Move v r r' → R r r') :
    Stable (fun v => I v) fun v h f => f .meeting ≠ none → Traced R v h f where
  absent h0 h := absurd h0 h
  frozen _ _ _ hp := hp
  bounds _ _ hp := hp
  power _ hp := hp
  damaged _ hn hp := fun h => hp (by rwa [Function.update_of_ne (by rintro rfl; simp [resultNames] at hn)] at h)
  put _ _ hn _ hp := fun h => hp (by rwa [Function.update_of_ne hn.symm] at h)
  removed _ _ hn _ hp := fun h => hp (by rwa [Function.update_of_ne hn.symm] at h)
  moved {v r r'} hI hr hok hm ha hp := by
    intro _
    obtain ⟨c, h', hh, rfl⟩ := (hi v hI).head hr
    have hchain := hp (by rw [files_of_readable hr]; rintro ⟨⟩)
    rw [hh] at hchain ⊢
    exact .cons_cons (hR v _ r' hI hr hok hm) hchain
  born _ _ _ _ := fun _ => .singleton _

end Tirke
