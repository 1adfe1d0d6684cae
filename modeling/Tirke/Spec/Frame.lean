import Tirke.Spec.Directories
/-!
# Frames: what a service left alone

`Frame S v v'`: between `v` and `v'` only files in `S` changed, nothing was renamed, nothing became less
durable, and nothing was submitted or looked up by key.
-/

set_option linter.unusedSectionVars false

namespace Tirke

open CrashProg CrashDisk

variable [Lib] [Home] {S S' : Path → Prop} {v v' v'' : View} {d : Dir} {p : Path} {x : Doc}

/-- Files, and the messages that neither submit a job nor look one up. -/
def Event.quiet : Event → Bool
  | .file _ | .asked (.getJob _) _ | .asked (.getResult _) _ | .asked (.ack _ _) _ => true
  | _ => false

/-- Only quiet events since `log`. -/
def Quiet (log log' : List Event) : Prop := ∃ es, log' = es ++ log ∧ ∀ e ∈ es, Event.quiet e = true

structure Frame (S : Path → Prop) (v v' : View) : Prop where
  vol : ∀ q, ¬ S q → v'.img.vol q = v.img.vol q
  durs : ∀ d, (∀ n, ¬ S (d, n) → v'.img.dur (d, n) = v.img.dur (d, n)) ∨
    ∀ n, ¬ S (d, n) → v'.img.dur (d, n) = v.img.vol (d, n)
  slot : v'.img.slot = v.img.slot
  rooted : ∀ d, v.Rooted d → v'.Rooted d
  log : Quiet v.log v'.log
  written : ¬ S (.folder, .meeting) → written v'.log = written v.log

theorem Quiet.refl (log : List Event) : Quiet log log := ⟨[], rfl, by simp⟩

theorem Quiet.trans {l₁ l₂ l₃ : List Event} (h : Quiet l₁ l₂) (h' : Quiet l₂ l₃) : Quiet l₁ l₃ := by
  obtain ⟨es, rfl, he⟩ := h
  obtain ⟨es', rfl, he'⟩ := h'
  refine ⟨es' ++ es, (List.append_assoc ..).symm, fun e hm => ?_⟩
  rcases List.mem_append.1 hm with hm | hm
  · exact he' e hm
  · exact he e hm

theorem Quiet.cons (log : List Event) {e : Event} (h : e.quiet = true) : Quiet log (e :: log) :=
  ⟨[e], rfl, by simpa using h⟩

theorem Quiet.mem {l₁ l₂ : List Event} (h : Quiet l₁ l₂) {e : Event} (he : e ∈ l₁) : e ∈ l₂ := by
  obtain ⟨es, rfl, -⟩ := h
  exact List.mem_append_right _ he

/-- A fold over the log that quiet events do not count in. -/
theorem Quiet.fold {α : Type} {f : List Event → α} (hf : ∀ e l, Event.quiet e = true → f (e :: l) = f l)
    {l₁ l₂ : List Event} (h : Quiet l₁ l₂) : f l₂ = f l₁ := by
  obtain ⟨es, rfl, he⟩ := h
  induction es with
  | nil => rfl
  | cons e es ih =>
    exact (hf e _ (he e List.mem_cons_self)).trans (ih fun e' hm => he e' (List.mem_cons_of_mem _ hm))

theorem quiet_cases {P : Event → Prop} (file : ∀ x, P (.file x)) (getJob : ∀ id a, P (.asked (.getJob id) a))
    (getResult : ∀ id a, P (.asked (.getResult id) a)) (ack : ∀ id h a, P (.asked (.ack id h) a)) {e : Event}
    (he : e.quiet = true) : P e := by
  cases e with
  | file x => exact file x
  | asked q a => cases q with
    | getJob id => exact getJob id a
    | getResult id => exact getResult id a
    | ack id h => exact ack id h a
    | _ => cases he
  | _ => cases he

theorem Quiet.running {l₁ l₂ : List Event} (h : Quiet l₁ l₂) : running l₂ = running l₁ :=
  h.fold fun _ l he => quiet_cases (P := fun e => Tirke.running (e :: l) = Tirke.running l)
    (fun _ => rfl) (fun _ _ => rfl) (fun _ _ => rfl) (fun _ _ _ => rfl) he

theorem Quiet.submissions {l₁ l₂ : List Event} (h : Quiet l₁ l₂) : submissions l₂ = submissions l₁ :=
  h.fold fun _ l he => quiet_cases (P := fun e => Tirke.submissions (e :: l) = Tirke.submissions l)
    (fun _ => rfl) (fun _ _ => rfl) (fun _ _ => rfl) (fun _ _ _ => rfl) he

theorem Quiet.lookups {l₁ l₂ : List Event} (h : Quiet l₁ l₂) :
    lookups (current l₂) = lookups (current l₁) :=
  h.fold (f := fun l => Tirke.lookups (current l)) fun _ l he =>
    quiet_cases (P := fun e => Tirke.lookups (current (e :: l)) = Tirke.lookups (current l))
      (fun _ => rfl) (fun _ _ => rfl) (fun _ _ => rfl) (fun _ _ _ => rfl) he

theorem Quiet.submitted {l₁ l₂ : List Event} (h : Quiet l₁ l₂) :
    Tirke.submissions (current l₂) = Tirke.submissions (current l₁) :=
  h.fold (f := fun l => Tirke.submissions (current l)) fun _ l he =>
    quiet_cases (P := fun e => Tirke.submissions (current (e :: l)) = Tirke.submissions (current l))
      (fun _ => rfl) (fun _ _ => rfl) (fun _ _ => rfl) (fun _ _ _ => rfl) he

theorem Quiet.mem_current {l₁ l₂ : List Event} (h : Quiet l₁ l₂) {e : Event} (he : e ∈ current l₁) : e ∈ current l₂ := by
  obtain ⟨es, rfl, hes⟩ := h
  induction es with
  | nil => exact he
  | cons e' es ih =>
    have hq : e'.quiet = true := hes e' List.mem_cons_self
    have hcons : current (e' :: (es ++ l₁)) = e' :: current (es ++ l₁) := by
      cases e' with
      | started a => cases hq
      | _ => rfl
    rw [List.cons_append, hcons]
    exact List.mem_cons_of_mem _ (ih fun e'' h => hes e'' (List.mem_cons_of_mem _ h))

namespace Frame

theorem refl (v : View) : Frame S v v :=
  ⟨fun _ _ => rfl, fun _ => .inl fun _ _ => rfl, rfl, fun _ h => h, .refl _, fun _ => rfl⟩

theorem trans (h : Frame S v v') (h' : Frame S v' v'') : Frame S v v'' := by
  refine ⟨fun q hq => (h'.vol q hq).trans (h.vol q hq), fun d => ?_, h'.slot.trans h.slot,
    fun d hd => h'.rooted d (h.rooted d hd), h.log.trans h'.log, fun hm => (h'.written hm).trans (h.written hm)⟩
  rcases h'.durs d with hd' | hd'
  · rcases h.durs d with hd | hd
    · exact .inl fun n hn => (hd' n hn).trans (hd n hn)
    · exact .inr fun n hn => (hd' n hn).trans (hd n hn)
  · exact .inr fun n hn => (hd' n hn).trans (h.vol _ hn)

theorem dur (h : Frame S v v') {q : Path} (hq : ¬ S q) :
    v'.img.dur q = v.img.dur q ∨ v'.img.dur q = v.img.vol q :=
  (h.durs q.1).imp (fun hd => hd q.2 hq) fun hd => hd q.2 hq

theorem mono (h : Frame S v v') (hs : ∀ q, S q → S' q) : Frame S' v v' :=
  ⟨fun q hq => h.vol q fun hq' => hq (hs q hq'), fun d => (h.durs d).imp
    (fun hd n hn => hd n fun hn' => hn (hs _ hn')) fun hd n hn => hd n fun hn' => hn (hs _ hn'),
    h.slot, h.rooted, h.log, fun hm => h.written fun hm' => hm (hs _ hm')⟩

theorem written_put (hp : p ≠ (.folder, .meeting)) {log : List Event} :
    Tirke.written (.file (.put p x) :: log) = Tirke.written log := by
  have hm : Event.marked (.file (.put p x)) = none := by
    unfold Event.marked
    split
    · next h => cases h; exact absurd rfl hp
    · rfl
  simp only [Tirke.written, List.filterMap_cons, hm]

theorem put (hp : S p) : Frame S v (v.put p x) := by
  refine ⟨fun q hq => ?_, fun _ => .inl fun _ _ => rfl, rfl, fun _ h => ⟨h.now, h.later⟩, .cons _ rfl,
    fun hm => written_put fun he => hm (he ▸ hp)⟩
  have hne : q ≠ p := fun h => hq (h ▸ hp)
  simp only [View.put, View.change_img, Images.apply, Function.update_of_ne hne]

theorem drop (hp : S p) : Frame S v (v.drop p) := by
  refine ⟨fun q hq => ?_, fun _ => .inl fun _ _ => rfl, rfl, fun _ h => ⟨h.now, h.later⟩, .cons _ rfl, fun _ => rfl⟩
  have hne : q ≠ p := fun h => hq (h ▸ hp)
  simp only [View.drop, View.change_img, Images.apply, Function.update_of_ne hne]

theorem sync (d : Dir) : Frame S v (v.sync d) := by
  refine ⟨fun _ _ => rfl, fun c => ?_, rfl, fun _ h => rooted_sync h d, .cons _ rfl, fun _ => rfl⟩
  simp only [View.sync, View.change_img, Images.apply]
  by_cases hc : c = d
  · exact .inr fun n _ => if_pos hc
  · exact .inl fun n _ => if_neg hc

theorem asked {q : Request} {a : Response} (h : (Event.asked q a).quiet = true) : Frame S v (v.note (.asked q a)) :=
  ⟨fun _ _ => rfl, fun _ => .inl fun _ _ => rfl, rfl, fun _ h => ⟨h.now, h.later⟩, .cons _ h, fun _ => rfl⟩

theorem syncs (ds : List Dir) : Frame S v (v.syncs ds) := by
  induction ds generalizing v with
  | nil => exact refl v
  | cons d ds ih => exact (sync d).trans ih

theorem look (h : Frame S v v') {q : Path} (hq : ¬ S q) : v'.look q = v.look q := by
  simp only [View.look, Images.look, h.vol q hq, h.slot]

theorem reach (h : Frame S v v') : v'.reach d = v.reach d := by simp only [View.reach, h.slot]

theorem run {α : Type} {R : Path → Prop} {p : Serv α} (h : Frame S v v') (hr : ReadOnly R p)
    (hd : ∀ q, R q → ¬ S q) : v'.run p = v.run p := run_congr hr fun q hq => h.look (hd q hq)

/-- A file that is durable and left alone stays durable. -/
theorem durable (h : Frame S v v') {q : Path} (hq : ¬ S q) (hd : v.img.dur q = v.img.vol q) :
    v'.img.dur q = v'.img.vol q := by
  rw [h.vol q hq]
  rcases h.dur hq with hd' | hd'
  · rw [hd', hd]
  · exact hd'

end Frame

/-- What a first write leaves, in frames. -/
theorem Wrote.frame {A : Env host} {out : Except Exn Unit} (h : Wrote A p x v out v') (hp : S p) : Frame S v v' := by
  cases h with
  | done | synced _ => exact (Frame.put hp).trans (.sync _)
  | nothing _ => exact .refl _
  | shown _ => exact .put hp

theorem WroteOriginal.frame {A : Env host} {out : Except Exn Unit} (h : WroteOriginal A p x v out v') (hp : S p) :
    Frame S v v' := by
  cases h with
  | new _ h => exact h.frame hp
  | same _ => exact .sync _
  | other _ _ | failed _ => exact .refl _

theorem dur_sync_self {q : Path} : (v.sync q.1).img.dur q = (v.sync q.1).img.vol q := by
  simp [View.sync, Images.apply]

/-- A write of an original that went through: the content shows and is durable. -/
theorem WroteOriginal.done {A : Env host} (h : WroteOriginal A p x v (.ok ()) v') (hr : v.reach p.1 = true) :
    v'.look p = some x ∧ v'.img.dur p = some x := by
  have hsync : ∀ w : View, w.look p = some x → (w.sync p.1).look p = some x ∧ (w.sync p.1).img.dur p = some x := by
    intro w hw
    refine ⟨hw, ?_⟩
    rw [dur_sync_self]
    exact vol_of_look hw
  cases h with
  | new free hw =>
    cases hw
    exact hsync _ (look_put_self hr)
  | same hl => exact hsync _ hl

theorem WroteOriginal.justSynced {A : Env host} {n : Name} (h : WroteOriginal A (.folder, n) x v (.ok ()) v') :
    v'.justSynced := by
  cases h with
  | new _ hw => cases hw; rfl
  | same _ => rfl

end Tirke
