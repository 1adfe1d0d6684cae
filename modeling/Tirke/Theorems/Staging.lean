import Tirke.Services.Staging
/-!
# What staging leaves behind

`Goes` is what a service may have done to the directory while the files of the call stay as they are; each service has one
lemma that says which events it adds and what is known when it returns.
-/

namespace Tirke.Staging

open CrashProg

variable {α β : Type} {w w' w₁ w₂ : World} {path source target : UUID} {P P' : Event → Prop} {extension : UploadExtension}
  {probe : ProbeResult} {Q R : Except Exn α → World → Prop}

/-- However the operations turn out, `p` ends as `Q` says. -/
abbrev Yields {ε : Type} (Q : Except ε α → World → Prop) (p : Prog Ops ε α) (w : World) : Prop :=
  Sat (M := host) (fun _ _ _ => True) (fun _ _ => True) Q p w

/-- The call's files are as they were, and what has happened satisfies `P`. -/
structure Goes (P : Event → Prop) (w w' : World) : Prop where
  mine : w'.mine = w.mine
  files : ∀ q ∈ w.mine, w'.files q = w.files q
  log : ∃ es, w'.log = es ++ w.log ∧ ∀ e ∈ es, P e

namespace Goes

theorem refl : Goes P w w := ⟨rfl, fun _ _ => rfl, [], rfl, nofun⟩

theorem trans (h : Goes P w w₁) (h' : Goes P w₁ w₂) : Goes P w w₂ := by
  obtain ⟨es, hes, hp⟩ := h.log
  obtain ⟨es', hes', hp'⟩ := h'.log
  refine ⟨h'.mine.trans h.mine, fun q hq => ?_, es' ++ es, by rw [hes', hes, List.append_assoc], fun e he => ?_⟩
  · rw [h'.files q (h.mine ▸ hq), h.files q hq]
  · exact (List.mem_append.1 he).elim (hp' e) (hp e)

theorem mono (h : Goes P w w') (hp : ∀ e, P e → P' e) : Goes P' w w' := by
  obtain ⟨es, hes, hpe⟩ := h.log
  exact ⟨h.mine, h.files, es, hes, fun e he => hp e (hpe e he)⟩

theorem mem_log (h : Goes P w w') {e : Event} (he : e ∈ w.log) : e ∈ w'.log := by
  obtain ⟨es, hes, -⟩ := h.log
  rw [hes]
  exact List.mem_append_right _ he

theorem disturb (elsewhere : UUID → Option Bytes) : Goes P w (w.disturb elsewhere) :=
  ⟨rfl, fun _ hq => if_pos hq, [], rfl, nofun⟩

theorem note {e : Event} (he : P e) : Goes P w (w.note e) :=
  ⟨rfl, fun _ _ => rfl, [e], rfl, fun _ hm => List.mem_singleton.1 hm ▸ he⟩

end Goes

theorem yields_call {o : Op} {Q : Except Exn o.Value → World → Prop}
    (h : ∀ c : Choice, Q ((w.disturb c.elsewhere).perform c o).1 ((w.disturb c.elsewhere).perform c o).2) :
    Yields Q (call o) w :=
  ⟨trivial, fun c _ => sat_ofExcept.2 (h c)⟩

/-- The operation creates and changes no file of the call. -/
theorem yields_look {o : Op} (h : ∀ (c : Choice) (v : World), Goes P v (v.perform c o).2) :
    Yields (fun _ => Goes P w) (call o) w :=
  yields_call fun c => (Goes.disturb c.elsewhere).trans (h c _)

theorem yields_refuse {b : Bool} {Q : Except Exn Unit → World → Prop} (h : b = false → Q (.ok ()) w)
    (he : Q (.error unsupportedMediaType) w) : Yields Q (refuse b) w := by
  cases b with
  | true => exact he
  | false => exact h rfl

/-! ## `_validate_wav` -/

/-- How many frames of the file were read in full. -/
def framesRead (path : UUID) (frameSize : Nat) : List Event → Nat
  | [] => 0
  | .read q frames length :: log =>
    (if q = path ∧ length = frames * frameSize then frames else 0) + framesRead path frameSize log
  | _ :: log => framesRead path frameSize log

/-- The stream is not empty, and all its frames were there to be read. -/
def WavPassed (path : UUID) (content : Option Bytes) (log : List Event) : Prop :=
  ∃ stream : Wave, .opened path content stream ∈ log ∧ 1 ≤ stream.nchannels ∧ 1 ≤ stream.framerate ∧ 1 ≤ stream.nframes ∧
    stream.nframes ≤ framesRead path (stream.nchannels * stream.sampwidth) log

/-- An event of `_validate_wav`. -/
def Event.ofWave : Event → Prop
  | .opened _ _ _ | .read _ _ _ => True
  | _ => False

theorem yields_readAll {frameSize framesPerChunk : Nat} {h : 0 < framesPerChunk} (remaining : Nat) (w : World) :
    Yields (fun out w' => Goes Event.ofWave w w' ∧
        (out = .ok () → remaining + framesRead path frameSize w.log ≤ framesRead path frameSize w'.log))
      (readAll path frameSize framesPerChunk h remaining) w := by
  induction remaining using Nat.strongRecOn generalizing w with
  | ind remaining ih =>
    unfold readAll
    by_cases hz : remaining = 0
    · rw [dif_pos hz]
      exact ⟨.refl, fun _ => by omega⟩
    · rw [dif_neg hz]
      refine sat_bind.2 (yields_call fun c => ?_)
      simp only [World.perform]
      cases c.error with
      | some e => exact ⟨.disturb _, (by simp)⟩
      | none =>
        have hgo : Goes Event.ofWave w ((w.disturb c.elsewhere).note (.read path (min remaining framesPerChunk) c.length)) :=
          (Goes.disturb _).trans (.note trivial)
        simp only [andThen_ok]
        split
        · exact ⟨hgo, (by simp)⟩
        · next hlen =>
          refine (ih (remaining - min remaining framesPerChunk) (by omega) _).mono fun out w' hout => ⟨hgo.trans hout.1, fun ho => ?_⟩
          have hmore := hout.2 ho
          have hlen : c.length = min remaining framesPerChunk * frameSize := by simpa using hlen
          simp only [World.note, framesRead, World.disturb, hlen, and_self, if_true] at hmore
          omega

theorem yields_validateWav (hp : path ∈ w.mine) :
    Yields (fun out w' => Goes Event.ofWave w w' ∧ (out = .ok () → WavPassed path (w.files path) w'.log))
      (validateWav path) w := by
  refine Sat.handle (R := fun out (w' : World) => Goes Event.ofWave w w' ∧ (out = .ok () → WavPassed path (w.files path) w'.log)) ?_ ?_
  · refine sat_bind.2 (yields_call fun c => ?_)
    simp only [World.perform]
    cases c.error with
    | some e => exact ⟨.disturb _, (by simp)⟩
    | none =>
      have hfile : (w.disturb c.elsewhere).files path = w.files path := if_pos hp
      have hgo : Goes Event.ofWave w ((w.disturb c.elsewhere).note (.opened path (w.files path) c.stream)) :=
        (Goes.disturb _).trans (.note trivial)
      simp only [andThen_ok, hfile]
      split
      · exact ⟨hgo, (by simp)⟩
      · next hsome =>
        split
        · exact ⟨hgo, (by simp)⟩
        · refine (yields_readAll c.stream.nframes _).mono fun out w' hout => ⟨hgo.trans hout.1, fun ho => ?_⟩
          have hread := hout.2 ho
          have hmem := hout.1.mem_log (List.mem_cons_self : Event.opened path (w.files path) c.stream ∈ _)
          simp only [Bool.or_eq_true, decide_eq_true_eq, not_or, Nat.not_lt] at hsome
          exact ⟨c.stream, hmem, hsome.1.1, hsome.1.2, hsome.2, by omega⟩
  · intro out w' hout
    cases out with
    | ok _ => exact hout
    | error e => exact ⟨hout.1, (by simp)⟩

/-! ## `_probe_media` and the checks -/

/-- `ffprobe` has reported this about the content. -/
def Probed (path : UUID) (content : Option Bytes) (probe : ProbeResult) (log : List Event) : Prop :=
  ∃ json, .probed path content 0 (some json) ∈ log ∧ ProbeResult.load json = some probe

def Event.probes (path : UUID) : Event → Prop
  | .probed q _ _ _ => q = path
  | _ => False

/-- The only report it has made about the file, if it is the one that the call goes on with. -/
theorem yields_probeMedia (hp : path ∈ w.mine) :
    Yields (fun out w' => Goes (Event.probes path) w w' ∧ ∀ probe, out = .ok probe →
      ∃ json, w'.log = .probed path (w.files path) 0 (some json) :: w.log ∧ ProbeResult.load json = some probe)
      (probeMedia path) w := by
  refine sat_bind.2 (sat_handle.2 (yields_call fun c => ?_))
  simp only [World.perform]
  cases c.spawn with
  | some e => exact ⟨.disturb _, nofun⟩
  | none =>
    have hfile : (w.disturb c.elsewhere).files path = w.files path := if_pos hp
    rw [hfile]
    have hgo : Goes (Event.probes path) w
        ((w.disturb c.elsewhere).note (.probed path (w.files path) c.returncode c.stdout)) :=
      (Goes.disturb _).trans (.note rfl)
    refine sat_bind.2 (yields_refuse (fun hb => ?_) ⟨hgo, nofun⟩)
    have hzero : c.returncode = 0 := by simpa using hb
    simp only [andThen_ok]
    cases hj : c.stdout with
    | none => exact ⟨hj ▸ hgo, nofun⟩
    | some json =>
      rw [hj] at hgo
      cases hl : ProbeResult.load json with
      | none =>
        simp only [Option.bind, hl]
        exact ⟨hgo, nofun⟩
      | some probe =>
        simp only [Option.bind, hl]
        refine ⟨hgo, fun probe' ho => ?_⟩
        cases ho
        refine ⟨json, ?_, hl⟩
        rw [hzero]
        rfl

/-- The content is what its suffix says. -/
def ContainerPassed (extension : UploadExtension) (content : Option Bytes) (probe : ProbeResult) : Prop :=
  ∃ expected, expectedFormats extension = some expected ∧ fitsContainer expected probe = true ∧
    (extension = .audio .webm → ∃ data, content = some data ∧ hasWebmDoctype (some data) = .ok true)

theorem hasWebmDoctype_take {data : Bytes} : hasWebmDoctype (some (data.take 4096)) = hasWebmDoctype (some data) := by
  simp only [hasWebmDoctype, List.take_take, Nat.min_self]

theorem yields_readHead (hp : path ∈ w.mine) :
    Yields (fun out w' => Goes (fun _ => False) w w' ∧
      ∀ head, out = .ok (some head) → ∃ data, w.files path = some data ∧ head = data.take 4096) (readHead path) w := by
  refine sat_handle.2 (sat_bind.2 (yields_call fun c => ?_))
  have hfile : (w.disturb c.elsewhere).files path = w.files path := if_pos hp
  simp only [World.perform, hfile]
  have hraised : ∀ e : Exn, Yields (fun out w' => Goes (fun _ => False) w w' ∧
      ∀ head, out = .ok (some head) → ∃ data, w.files path = some data ∧ head = data.take 4096)
      (if e = .osError then .ret none else .raise e : Stage (Option Bytes)) (w.disturb c.elsewhere) := by
    intro e
    split
    · exact ⟨.disturb _, nofun⟩
    · exact ⟨.disturb _, nofun⟩
  cases c.error with
  | some e => exact hraised e
  | none =>
    cases hd : w.files path with
    | none =>
      rw [hd] at hraised
      exact hraised .osError
    | some data =>
      refine ⟨.disturb _, fun head ho => ⟨data, rfl, ?_⟩⟩
      cases ho
      rfl

theorem yields_isWebm (hp : path ∈ w.mine) :
    Yields (fun out w' => Goes (fun _ => False) w w' ∧
      (out = .ok true → ∃ data, w.files path = some data ∧ hasWebmDoctype (some data) = .ok true)) (isWebm path) w := by
  refine (yields_readHead hp).bind fun out w' hout => ?_
  cases out with
  | error e => exact ⟨hout.1, (by simp)⟩
  | ok data =>
    simp only [andThen_ok]
    cases hd : hasWebmDoctype data with
    | error e => exact ⟨hout.1, (by simp)⟩
    | ok b =>
      refine ⟨hout.1, fun ho => ?_⟩
      cases ho
      cases data with
      | none => cases hd
      | some head =>
        obtain ⟨data, hfile, rfl⟩ := hout.2 head rfl
        exact ⟨data, hfile, hasWebmDoctype_take ▸ hd⟩

theorem yields_validateContainer (hp : path ∈ w.mine) :
    Yields (fun out w' => Goes (fun _ => False) w w' ∧
      (out = .ok () → ContainerPassed extension (w.files path) probe)) (validateContainer path extension probe) w := by
  unfold validateContainer
  cases he : expectedFormats extension with
  | none => exact ⟨.refl, (by simp)⟩
  | some expected =>
    refine sat_bind.2 (yields_refuse (fun hfits => ?_) ⟨.refl, (by simp)⟩)
    have hfits : fitsContainer expected probe = true := by simpa using hfits
    simp only [andThen_ok]
    by_cases hw : extension = .audio .webm
    · rw [if_pos hw]
      refine (yields_isWebm hp).bind fun out w' hout => ?_
      cases out with
      | error e => exact ⟨hout.1, (by simp)⟩
      | ok b =>
        refine yields_refuse (fun hb => ⟨hout.1, fun _ => ⟨expected, he, hfits, fun _ => hout.2 ?_⟩⟩)
          ⟨hout.1, (by simp)⟩
        rw [show b = true by simpa using hb]
    · rw [if_neg hw]
      exact ⟨.refl, fun _ => ⟨expected, he, hfits, fun hc => absurd hc hw⟩⟩

theorem yields_validateAudioOnly :
    Yields (fun out w' => w' = w ∧ (out = .ok () → audioOnly extension probe = true))
      (validateAudioOnly extension probe) w :=
  yields_refuse (fun hb => ⟨rfl, fun _ => by simpa using hb⟩) ⟨rfl, nofun⟩

/-! ## Files that come and go -/

/-- The call has created the file `path`. -/
structure Created (w w' : World) (path : UUID) : Prop where
  mine : w'.mine = path :: w.mine
  fresh : path ∈ w.mine → w.files path = none
  files : ∀ q ∈ w.mine, q ≠ path → w'.files q = w.files q
  entry : w'.files path = some []
  log : w'.log = w.log

theorem yields_temporaryUploadPath :
    Yields (fun out w' => match out with
      | .ok path => Created w w' path
      | .error _ => Goes (fun _ => False) w w') temporaryUploadPath w := by
  have hprepare : Yields (fun _ => Goes (fun _ => False) w) (call .prepare) w := yields_look fun c v => .refl
  refine hprepare.bind fun out w₁ h₁ => ?_
  cases out with
  | error e => exact h₁
  | ok u =>
    refine sat_bind.2 (yields_call fun c₂ => ?_)
    simp only [World.perform, andThen_ok]
    have h₂ : Goes (fun _ => False) w (w₁.disturb c₂.elsewhere) := h₁.trans (.disturb _)
    refine sat_bind.2 (yields_call (o := .create c₂.uuid) fun c₃ => ?_)
    have h₃ : Goes (fun _ => False) w ((w₁.disturb c₂.elsewhere).disturb c₃.elsewhere) := h₂.trans (.disturb _)
    generalize (w₁.disturb c₂.elsewhere).disturb c₃.elsewhere = v at h₃ ⊢
    simp only [World.perform]
    cases c₃.error with
    | some e => exact h₃
    | none =>
      by_cases he : (v.files c₂.uuid).isSome = true
      · rw [if_pos he]
        exact h₃
      · rw [if_neg he]
        obtain ⟨es, hes, hfalse⟩ := h₃.log
        have hnil : es = [] := List.eq_nil_iff_forall_not_mem.2 hfalse
        refine ⟨congrArg _ h₃.mine, fun hm => ?_, fun q hq hne => ?_, Function.update_self .., by rw [hnil] at hes; exact hes⟩
        · rw [← h₃.files _ hm]
          simpa using he
        · exact (Function.update_of_ne hne _ _).trans (h₃.files q hq)

/-- The call's file `path` is gone. -/
structure Removed (w w' : World) (path : UUID) : Prop where
  mine : w'.mine = w.mine
  files : ∀ q ∈ w.mine, q ≠ path → w'.files q = w.files q
  entry : w'.files path = none
  log : w'.log = w.log

theorem yields_unlink {missingOk : Bool} (hp : path ∈ w.mine) (hok : missingOk = true ∨ w.files path ≠ none) :
    Yields (fun out w' => out = .ok () ∧ Removed w w' path) (call (.unlink path missingOk)) w := by
  refine yields_call (o := .unlink path missingOk) fun c => ?_
  have hfile : (w.disturb c.elsewhere).files path = w.files path := if_pos hp
  simp only [World.perform, hfile]
  cases hf : w.files path with
  | some content =>
    refine ⟨rfl, rfl, fun q hq hne => ?_, Function.update_self .., rfl⟩
    exact (Function.update_of_ne hne _ _).trans (if_pos hq)
  | none =>
    have hm : missingOk = true := hok.resolve_right fun h => h hf
    refine ⟨by rw [hm]; rfl, rfl, fun q hq _ => if_pos hq, hfile.trans hf, rfl⟩

/-! ## `_extract_first_audio` -/

/-- The event is no report about the file, and no copy. -/
def Event.spares (source : UUID) : Event → Prop
  | .probed q _ _ _ => q ≠ source
  | .copied _ => False
  | _ => True

/-- `ffmpeg` was run, and the two files are there. -/
structure Working (source target : UUID) (content : Bytes) (w w' : World) : Prop where
  mine : w'.mine = [target, source]
  apart : target ≠ source
  entry : w'.files source = some content
  log : ∃ es, w'.log = es ++ w.log ∧ ∀ e ∈ es, e.spares source
  extracted : .extracted source target ∈ w'.log

/-- Of the call's files only the source is left, as it was. -/
structure Alone (source : UUID) (content : Bytes) (w w' : World) : Prop where
  mine : source ∈ w'.mine
  entry : w'.files source = some content
  others : ∀ q ∈ w'.mine, q ≠ source → w'.files q = none
  log : ∃ es, w'.log = es ++ w.log ∧ ∀ e ∈ es, e.spares source

variable {content : Bytes}

theorem Working.goes (h : Working source target content w w₁) (hg : Goes P w₁ w₂) (hp : ∀ e, P e → e.spares source) :
    Working source target content w w₂ := by
  obtain ⟨es, hes, hs⟩ := h.log
  obtain ⟨es', hes', hs'⟩ := hg.log
  refine ⟨hg.mine.trans h.mine, h.apart, ?_, ⟨es' ++ es, by rw [hes', hes, List.append_assoc], fun e he => ?_⟩,
    hg.mem_log h.extracted⟩
  · rw [hg.files source (by simp [h.mine]), h.entry]
  · exact (List.mem_append.1 he).elim (fun h => hp e (hs' e h)) (hs e)

theorem Working.removed (h : Working source target content w w₁) (hr : Removed w₁ w₂ target) : Alone source content w w₂ := by
  obtain ⟨es, hes, hs⟩ := h.log
  have hmine : w₂.mine = [target, source] := hr.mine.trans h.mine
  refine ⟨by simp [hmine], ?_, fun q hq hne => ?_, es, hr.log.trans hes, hs⟩
  · rw [hr.files source (by simp [h.mine]) (Ne.symm h.apart), h.entry]
  · have hq : q = target := by simpa [hmine, hne] using hq
    rw [hq, hr.entry]

/-- Whatever is raised, the target goes first. -/
theorem Working.backsOut (h : Working source target content w w₁) {e : Exn} {Q : Except Exn α → World → Prop}
    (hq : ∀ w₂, Alone source content w w₂ → Q (.error e) w₂) :
    Yields Q ((call (.unlink target true)).bind fun _ => .raise e) w₁ := by
  refine (yields_unlink (by simp [h.mine]) (.inl rfl)).bind fun out w₂ hout => ?_
  obtain ⟨rfl, hr⟩ := hout
  exact hq w₂ (h.removed hr)

theorem yields_unusable {returncode : Int} (hp : path ∈ w.mine) :
    Yields (fun out w' => Goes (fun _ => False) w w' ∧ (out = .ok false →
      ∃ data, w.files path = some data ∧ 1 ≤ data.length ∧ data.length ≤ maxUploadBytes)) (unusable path returncode) w := by
  unfold unusable
  split
  · exact ⟨.refl, (by simp)⟩
  · have hfile : Yields (fun _ => Goes (fun _ => False) w) (call (.isFile path)) w := by
      refine yields_look fun c v => ?_
      simp only [World.perform]
      split <;> exact .refl
    refine hfile.bind fun out w₁ h₁ => ?_
    cases out with
    | error e => exact ⟨h₁, (by simp)⟩
    | ok file =>
      simp only [andThen_ok]
      split
      · exact ⟨h₁, (by simp)⟩
      · refine sat_bind.2 (yields_call fun c => ?_)
        have hdata : (w₁.disturb c.elsewhere).files path = w.files path :=
          (if_pos (h₁.mine ▸ hp)).trans (h₁.files path hp)
        simp only [World.perform, hdata]
        have hgo : Goes (fun _ => False) w (w₁.disturb c.elsewhere) := h₁.trans (.disturb _)
        cases c.error with
        | some e => exact ⟨hgo, (by simp)⟩
        | none =>
          cases hd : w.files path with
          | none => exact ⟨hgo, (by simp)⟩
          | some data =>
            refine ⟨hgo, fun ho => ⟨data, rfl, ?_⟩⟩
            have hb := Except.ok.inj ho
            simp only [Bool.not_eq_false', Bool.and_eq_true, decide_eq_true_eq] at hb
            exact hb

/-- `ffprobe` was asked about the content, and both checks accepted what it said. -/
def MediaPassed (e : AudioExtension) (path : UUID) (content : Option Bytes) (log : List Event) : Prop :=
  ∃ probe, Probed path content probe log ∧ ContainerPassed (.audio e) content probe ∧ audioOnly (.audio e) probe = true

theorem MediaPassed.goes {e : AudioExtension} {c : Option Bytes} (h : MediaPassed e path c w.log) (hg : Goes P w w') :
    MediaPassed e path c w'.log := by
  obtain ⟨probe, ⟨json, hm, hl⟩, hc, ha⟩ := h
  exact ⟨probe, ⟨json, hg.mem_log hm, hl⟩, hc, ha⟩

/-- `_probe_media`, `_validate_container` and `_validate_audio_only` in a row. -/
theorem yields_checked {e : AudioExtension} {γ : Type} {b : γ} (hp : path ∈ w.mine) :
    Yields (fun out w' => Goes (Event.probes path) w w' ∧ (∀ a, out = .ok a → a = b ∧ MediaPassed e path (w.files path) w'.log))
      (do
        let probe ← probeMedia path
        validateContainer path (.audio e) probe
        validateAudioOnly (.audio e) probe
        return b : Stage γ) w := by
  refine (yields_probeMedia hp).bind fun out w₁ h₁ => ?_
  cases out with
  | error x => exact ⟨h₁.1, nofun⟩
  | ok probe =>
    have hp₁ : path ∈ w₁.mine := h₁.1.mine ▸ hp
    obtain ⟨json, hlog, hl⟩ := h₁.2 probe rfl
    have hprobed : Probed path (w.files path) probe w₁.log := ⟨json, hlog ▸ List.mem_cons_self, hl⟩
    refine (yields_validateContainer hp₁).bind fun out w₂ h₂ => ?_
    have hgo : Goes (Event.probes path) w w₂ := h₁.1.trans (h₂.1.mono fun _ hf => hf.elim)
    cases out with
    | error x => exact ⟨hgo, nofun⟩
    | ok _ =>
      refine yields_validateAudioOnly.bind fun out w₃ h₃ => ?_
      obtain ⟨rfl, haudio⟩ := h₃
      cases out with
      | error x => exact ⟨hgo, nofun⟩
      | ok _ =>
        refine ⟨hgo, fun a ha => ⟨(Except.ok.inj ha).symm, ?_⟩⟩
        have hcont := h₂.2 rfl
        rw [h₁.1.files path hp] at hcont
        exact MediaPassed.goes (w := w₁) ⟨probe, hprobed, hcont, haudio rfl⟩ h₂.1

/-- What is handed on in place of a video. -/
def Usable (target : UUID) (w : World) : Prop :=
  ∃ data, w.files target = some data ∧ 1 ≤ data.length ∧ data.length ≤ maxUploadBytes ∧
    MediaPassed .m4a target (some data) w.log

theorem SpawnError.isSpawnError (e : SpawnError) : e.exn.isSpawnError = true := by
  cases e <;> rfl

theorem Created.working (h : Created w w₁ target) (hmine : w.mine = [source]) (hentry : w.files source = some content)
    (elsewhere : UUID → Option Bytes) (left : Option Bytes) :
    Working source target content w (((w₁.disturb elsewhere).put target left).note (.extracted source target)) := by
  have hapart : target ≠ source := by
    rintro rfl
    rw [h.fresh (by simp [hmine])] at hentry
    cases hentry
  have hsource : source ∈ w₁.mine := by simp [h.mine, hmine]
  refine ⟨by simp [World.note, World.put, World.disturb, h.mine, hmine], hapart, ?_,
    ⟨[.extracted source target], by simp [World.note, World.put, World.disturb, h.log], fun e he => ?_⟩, List.mem_cons_self⟩
  · refine (Function.update_of_ne (Ne.symm hapart) _ _).trans ((if_pos hsource).trans ?_)
    rw [h.files source (by simp [hmine]) (Ne.symm hapart), hentry]
  · rw [List.mem_singleton.1 he]
    trivial

theorem yields_extractFirstAudio (hmine : w.mine = [source]) (hentry : w.files source = some content) :
    Yields (fun out w' => match out with
      | .ok target => Working source target content w w' ∧ Usable target w'
      | .error _ => Alone source content w w') (extractFirstAudio source) w := by
  refine yields_temporaryUploadPath.bind fun out w₁ h₁ => ?_
  cases out with
  | error e =>
    obtain ⟨es, hes, hf⟩ := h₁.log
    refine ⟨by simp [h₁.mine, hmine], ?_, fun q hq hne => ?_, es, hes, fun e he => (hf e he).elim⟩
    · rw [h₁.files source (by simp [hmine]), hentry]
    · rw [h₁.mine, hmine] at hq
      exact absurd (List.mem_singleton.1 hq) hne
  | ok target =>
    refine sat_bind.2 (sat_handle.2 (yields_call (o := .ffmpeg source target) fun c => ?_))
    have hwork := Created.working h₁ hmine hentry c.elsewhere c.left
    simp only [World.perform]
    cases c.spawn with
    | some e =>
      simp only [orElse_error]
      rw [if_pos e.isSpawnError]
      refine hwork.backsOut fun w₂ hw => ?_
      exact hw
    | none =>
      simp only [orElse_ok, andThen_ok]
      generalize ((w₁.disturb c.elsewhere).put target c.left).note (.extracted source target) = v at hwork ⊢
      have htarget : target ∈ v.mine := by simp [hwork.mine]
      refine sat_handle.2 ((yields_unusable htarget).bind fun out w₂ h₂ => ?_)
      have hwork₂ := hwork.goes h₂.1 fun _ hf => hf.elim
      cases out with
      | error e => exact hwork₂.backsOut fun w₃ hw => hw
      | ok bad =>
        refine sat_bind.2 (yields_refuse (fun hb => ?_) (hwork₂.backsOut fun w₃ hw => hw))
        subst hb
        obtain ⟨data, hdata, hsize⟩ := h₂.2 rfl
        have hdata₂ : w₂.files target = some data := (h₂.1.files target htarget).trans hdata
        refine (yields_checked (h₂.1.mine ▸ htarget)).mono fun out w₃ h₃ => ?_
        have hwork₃ := hwork₂.goes h₃.1 fun e he => by
          cases e with
          | probed q _ _ _ => exact fun hc => hwork.apart (he.symm.trans hc)
          | _ => exact he.elim
        cases out with
        | error e => exact hwork₃.backsOut fun w₄ hw => hw
        | ok t =>
          obtain ⟨rfl, hpassed⟩ := h₃.2 t rfl
          refine ⟨hwork₃, data, ?_, hsize.1, hsize.2, hdata₂ ▸ hpassed⟩
          rw [h₃.1.files _ (h₂.1.mine ▸ htarget), hdata₂]

/-! ## `stage_and_validate` -/

/-- The suffix is one of a video, or `ffprobe` saw a video stream in the file. -/
def VideoSeen (extension : UploadExtension) (source : UUID) (log : List Event) : Prop :=
  (∃ v, extension = .video v) ∨ ∃ content returncode json probe, .probed source content returncode (some json) ∈ log ∧
    ProbeResult.load json = some probe ∧ probe.hasVideo = true

def Passed (reported : AudioExtension) (path : UUID) (content : Bytes) (log : List Event) : Prop :=
  match reported with
  | .wav => WavPassed path (some content) log
  | e => MediaPassed e path (some content) log

/-- What is left of the call, and known of it, when it returns. -/
structure Staged (extension : UploadExtension) (path : UUID) (reported : AudioExtension) (w : World) : Prop where
  mine : path ∈ w.mine
  others : ∀ q ∈ w.mine, q ≠ path → w.files q = none
  passed : ∃ content, w.files path = some content ∧ Passed reported path content w.log
  /-- The original of a video is not handed on, but the audio that was extracted from it. -/
  audio : ∀ source, .copied source ∈ w.log → VideoSeen extension source w.log →
    path ≠ source ∧ .extracted source path ∈ w.log ∧ reported = .m4a ∧
      ∃ content, w.files path = some content ∧ 1 ≤ content.length ∧ content.length ≤ maxUploadBytes

/-- Only the source may be left. -/
structure SourceOnly (source : UUID) (w : World) : Prop where
  mine : source ∈ w.mine
  others : ∀ q ∈ w.mine, q ≠ source → w.files q = none

/-- The body raises while `normalized_path` is `None`. -/
def BodyEnds (source : UUID) (extension : UploadExtension) :
    Except (Option UUID × Exn) (UUID × AudioExtension) → World → Prop
  | .ok (path, reported), w => Staged extension path reported w
  | .error (normalized, _), w => normalized = none ∧ SourceOnly source w

theorem sourceOnly_of_single (h : w.mine = [source]) : SourceOnly source w :=
  ⟨by simp [h], fun q hq hne => absurd (by simpa [h] using hq) hne⟩

theorem yields_unassigned {γ : Type} {p : Stage γ} {S : Except Exn γ → World → Prop}
    {T : Except (Option UUID × Exn) γ → World → Prop} (h : Yields S p w) (hok : ∀ a w', S (.ok a) w' → T (.ok a) w')
    (he : ∀ e w', S (.error e) w' → T (.error (none, e)) w') : Yields T (unassigned p) w := by
  refine Sat.handle h fun out w' hout => ?_
  cases out with
  | ok a => exact hok a w' hout
  | error e => exact he e w' hout

/-- The file is copied, `ffprobe` has reported on it, and nothing else has happened. -/
structure Inspected (source : UUID) (content : Bytes) (probe : ProbeResult) (w : World) : Prop where
  mine : w.mine = [source]
  entry : w.files source = some content
  log : ∃ json, w.log = [.probed source (some content) 0 (some json), .copied source] ∧ ProbeResult.load json = some probe

theorem Inspected.goes (h : Inspected source content probe w) (hg : Goes (fun _ => False) w w') :
    Inspected source content probe w' := by
  obtain ⟨es, hes, hf⟩ := hg.log
  have hnil : es = [] := List.eq_nil_iff_forall_not_mem.2 hf
  refine ⟨hg.mine.trans h.mine, (hg.files source (by simp [h.mine])).trans h.entry, ?_⟩
  rw [hes, hnil]
  exact h.log

theorem yields_stageExtracted (h : Inspected source content probe w) :
    Yields (BodyEnds source extension) (stageExtracted source) w := by
  obtain ⟨json, hlog, -⟩ := h.log
  refine sat_bind.2 (yields_unassigned (yields_extractFirstAudio h.mine h.entry) (fun target w₁ h₁ => ?_) fun e w₁ h₁ => ?_)
  · obtain ⟨hwork, data, hdata, hpos, hmax, hpassed⟩ := h₁
    refine sat_bind.2 (sat_handle.2 ((yields_unlink (by simp [hwork.mine]) (.inr (by simp [hwork.entry]))).mono
      fun out w₂ hout => ?_))
    obtain ⟨rfl, hr⟩ := hout
    have hmine : w₂.mine = [target, source] := hr.mine.trans hwork.mine
    have hfile : w₂.files target = some data := (hr.files target (by simp [hwork.mine]) hwork.apart).trans hdata
    refine ⟨by simp [hmine], fun q hq hne => ?_, ⟨data, hfile, hr.log ▸ hpassed⟩, fun s hs _ => ?_⟩
    · have hq : q = source := by simpa [hmine, hne] using hq
      rw [hq, hr.entry]
    · obtain ⟨es, hes, hspares⟩ := hwork.log
      have hsource : s = source := by
        rw [hr.log, hes, hlog] at hs
        rcases List.mem_append.1 hs with hs | hs
        · exact (hspares _ hs).elim
        · simpa using hs
      subst hsource
      exact ⟨hwork.apart, hr.log ▸ hwork.extracted, rfl, data, hfile, hpos, hmax⟩
  · exact ⟨rfl, h₁.mine, h₁.others⟩

/-- An audio file that is handed on itself. -/
theorem staged_as_is {e : AudioExtension} (h : Inspected source content probe w) (hv : ¬ probe.hasVideo = true)
    (he : e ≠ .wav) (hc : ContainerPassed (.audio e) (some content) probe) (ha : audioOnly (.audio e) probe = true) :
    Staged (.audio e) source e w := by
  obtain ⟨json, hlog, hl⟩ := h.log
  have honly := sourceOnly_of_single h.mine
  have hpassed : MediaPassed e source (some content) w.log := ⟨probe, ⟨json, by rw [hlog]; exact List.mem_cons_self, hl⟩, hc, ha⟩
  refine ⟨honly.mine, honly.others, ⟨content, h.entry, ?_⟩, fun s hs hseen => ?_⟩
  · cases e with
    | wav => exact absurd rfl he
    | _ => exact hpassed
  · rw [hlog] at hs hseen
    have hsource : s = source := by simpa using hs
    subst hsource
    rcases hseen with ⟨v, hseen⟩ | ⟨content', returncode, json', probe', hm, hl', hv'⟩
    · cases hseen
    · have hjson : json' = json := by
        rcases List.mem_cons.1 hm with hm | hm
        · cases hm
          rfl
        · cases List.mem_singleton.1 hm
      rw [hjson, hl] at hl'
      cases hl'
      exact absurd hv' hv

theorem yields_copy {audio : Bytes} (hmine : w.mine = [source]) (hlog : w.log = []) :
    Yields (fun out w' => w'.mine = [source] ∧ (out = .ok () → w'.files source = some audio ∧ w'.log = [.copied source]))
      (call (.copy source audio)) w := by
  refine yields_call (o := .copy source audio) fun c => ?_
  simp only [World.perform]
  cases c.error with
  | some e => exact ⟨hmine, nofun⟩
  | none => exact ⟨hmine, fun _ => ⟨Function.update_self .., by simp [World.note, World.put, World.disturb, hlog]⟩⟩

theorem yields_stageBody {audio : Bytes} (hmine : w.mine = [source]) (hlog : w.log = []) :
    Yields (BodyEnds source extension) (stageBody source extension audio) w := by
  refine sat_bind.2 (yields_unassigned (yields_copy hmine hlog) (fun _ w₁ h₁ => ?_) fun e w₁ h₁ =>
    ⟨rfl, sourceOnly_of_single h₁.1⟩)
  obtain ⟨hmine₁, hcopied⟩ := h₁
  obtain ⟨hfile₁, hlog₁⟩ := hcopied rfl
  have hin₁ : source ∈ w₁.mine := by simp [hmine₁]
  simp only [andThen_ok]
  by_cases hw : extension = .audio .wav
  · rw [if_pos hw]
    refine sat_bind.2 (yields_unassigned (yields_validateWav hin₁) (fun _ w₂ h₂ => ?_) fun e w₂ h₂ =>
      ⟨rfl, sourceOnly_of_single (h₂.1.mine.trans hmine₁)⟩)
    obtain ⟨es, hes, hwave⟩ := h₂.1.log
    have honly := sourceOnly_of_single (h₂.1.mine.trans hmine₁)
    have hpassed := h₂.2 rfl
    rw [hfile₁] at hpassed
    refine ⟨honly.mine, honly.others, ⟨audio, (h₂.1.files source hin₁).trans hfile₁, hpassed⟩, fun s _ hv => ?_⟩
    rcases hv with ⟨v, hv⟩ | ⟨content, returncode, json, probe, hm, -⟩
    · rw [hw] at hv
      cases hv
    · rw [hes, hlog₁] at hm
      rcases List.mem_append.1 hm with hm | hm
      · exact (hwave _ hm).elim
      · cases List.mem_singleton.1 hm
  · rw [if_neg hw]
    refine sat_bind.2 (yields_unassigned (yields_probeMedia hin₁) (fun probe w₂ h₂ => ?_) fun e w₂ h₂ =>
      ⟨rfl, sourceOnly_of_single (h₂.1.mine.trans hmine₁)⟩)
    obtain ⟨json, hlog₂, hl⟩ := h₂.2 probe rfl
    have hinspected : Inspected source audio probe w₂ :=
      ⟨h₂.1.mine.trans hmine₁, (h₂.1.files source hin₁).trans hfile₁, json, by rw [hlog₂, hfile₁, hlog₁], hl⟩
    have hin₂ : source ∈ w₂.mine := by simp [hinspected.mine]
    refine sat_bind.2 (yields_unassigned (yields_validateContainer hin₂) (fun _ w₃ h₃ => ?_) fun e w₃ h₃ =>
      ⟨rfl, sourceOnly_of_single (hinspected.goes h₃.1).mine⟩)
    have hinspected₃ := hinspected.goes h₃.1
    have hcontainer := h₃.2 rfl
    rw [hinspected.entry] at hcontainer
    refine sat_bind.2 (yields_unassigned (S := fun _ w' => w' = w₃) (yields_refuse (fun _ => rfl) rfl) (fun _ w₄ h₄ => ?_)
      fun e w₄ h₄ => ⟨rfl, sourceOnly_of_single (h₄ ▸ hinspected₃.mine)⟩)
    subst h₄
    simp only [andThen_ok]
    cases extension with
    | video v => exact yields_stageExtracted hinspected₃
    | audio e =>
      by_cases hv : probe.hasVideo = true
      · simp only [hv, if_true]
        exact yields_stageExtracted hinspected₃
      · simp only [hv]
        refine sat_bind.2 (yields_unassigned yields_validateAudioOnly (fun _ w₅ h₅ => ?_) fun x w₅ h₅ =>
          ⟨rfl, sourceOnly_of_single (h₅.1 ▸ hinspected₃.mine)⟩)
        obtain ⟨rfl, haudio⟩ := h₅
        exact staged_as_is hinspected₃ hv (fun hc => hw (congrArg _ hc)) hcontainer (haudio rfl)

theorem yields_stageAndValidate {suffix : String} {audio : Bytes} (hmine : w.mine = []) (hlog : w.log = []) :
    Yields (fun out w' => match out with
      | .ok (path, reported) => ∃ extension, UploadExtension.ofSuffix suffix = some extension ∧
        Staged extension path reported w'
      | .error _ => ∀ q ∈ w'.mine, w'.files q = none) (stageAndValidate suffix audio) w := by
  unfold stageAndValidate
  cases hs : UploadExtension.ofSuffix suffix with
  | none => exact fun q hq => absurd (hmine ▸ hq) List.not_mem_nil
  | some extension =>
    refine yields_temporaryUploadPath.bind fun out w₁ h₁ => ?_
    cases out with
    | error e => exact fun q hq => absurd (hmine ▸ h₁.mine ▸ hq) List.not_mem_nil
    | ok source =>
      have hmine₁ : w₁.mine = [source] := by rw [h₁.mine, hmine]
      refine (yields_stageBody hmine₁ (h₁.log.trans hlog)).handle fun out w₂ h₂ => ?_
      cases out with
      | ok staged => exact ⟨extension, rfl, h₂⟩
      | error raised =>
        obtain ⟨normalized, e⟩ := raised
        obtain ⟨rfl, honly⟩ := h₂
        refine (yields_unlink honly.mine (.inl rfl)).bind fun out w₃ h₃ => ?_
        obtain ⟨rfl, hr⟩ := h₃
        intro q hq
        by_cases hqs : q = source
        · rw [hqs, hr.entry]
        · rw [hr.files q (hr.mine ▸ hq) hqs, honly.others q (hr.mine ▸ hq) hqs]

/-- **Staging leaves nothing behind.** Every call comes to its end. One that is over has raised and none of its files is
there, or it returns a path and that file is the only one of them; it passed its checks, and it is extracted audio where
a video was seen. -/
theorem staging_leaves_nothing_behind (suffix : String) (audio : Bytes) (files : UUID → Option Bytes) :
    (∀ choices : Nat → Choice, ∃ n,
      (host.exec ((List.range n).map choices) (stageAndValidate suffix audio) ⟨files, [], []⟩).1.finished = true) ∧
    ∀ cs : List Choice, match host.exec cs (stageAndValidate suffix audio) ⟨files, [], []⟩ with
      | (.raise _, w) => ∀ q ∈ w.mine, w.files q = none
      | (.ret (path, reported), w) => ∃ extension, UploadExtension.ofSuffix suffix = some extension ∧
          Staged extension path reported w
      | (.op _ _, _) => True := by
  refine ⟨fun choices => host.exec_finished _ choices _, fun cs => ?_⟩
  have h : Yields _ _ (⟨files, [], []⟩ : World) := @yields_stageAndValidate _ suffix audio rfl rfl
  have hend := h.exec cs (admits_of (M := host) (fun _ _ _ => trivial) cs)
  generalize host.exec cs (stageAndValidate suffix audio) ⟨files, [], []⟩ = out at hend ⊢
  obtain ⟨p, w⟩ := out
  cases p with
  | ret staged => exact hend
  | raise e => exact hend
  | op o k => trivial

end Tirke.Staging
