import Mathlib.Algebra.Ring.Nat
import Tirke.Runs.System
/-!
# Runs that can be computed

`Step` leaves every outcome open. A `Cue` fixes them: `Config.cue` computes the configuration a cue leads to, and
`reach_cues` says that a list of cues is a run. The meeting of `Sample` is the one all computed runs are about.
-/

set_option linter.unusedSectionVars false

namespace CrashProg.Machine
variable {I : Interface} (M : Machine I) {ε α : Type}

/-- Perform operations, each as `f` decides, until `stop` says so or the program is over. -/
def play (stop : M.World → I.Op → Bool) (f : M.World → I.Op → M.Choice) :
    Prog I ε α → M.World → Prog I ε α × M.World
  | .op o k, w =>
    if stop w o then (.op o k, w)
    else play stop f (k (M.act o (f w o) w).1) (M.act o (f w o) w).2
  | p, w => (p, w)

/-- Every operation that `play` performs leads from a world to one as `ψ` says. -/
def always (ψ : M.World → M.World → Bool) (stop : M.World → I.Op → Bool) (f : M.World → I.Op → M.Choice) :
    Prog I ε α → M.World → Bool
  | .op o k, w =>
    if stop w o then true
    else ψ w (M.act o (f w o) w).2 && always ψ stop f (k (M.act o (f w o) w).1) (M.act o (f w o) w).2
  | _, _ => true

end CrashProg.Machine

namespace Tirke

open CrashProg CrashDisk

inductive Cue where
  | start (a : Action)
  /-- Operations with these outcomes, in this order. -/
  | perform (cs : List Choice)
  | play (stop : World → Op → Bool) (f : World → Op → Choice)
  | finish
  | kill
  | power
  | wait (t : Time) (busy : Bool)
  | damage (n : Name) (d : Option Doc)

section
variable [Lib] [Home] {rot : Prop} {c : Config}

instance (a : Action) : Decidable a.valid := by
  cases a with
  | updateReview q => exact inferInstanceAs (Decidable (q.valid = true))
  | _ => exact inferInstanceAs (Decidable True)

namespace Config

def cue (c : Config) : Cue → Config
  | .start a => match c.prog with
    | none => if a.valid then ⟨c.world.note (.started a), some a.program⟩ else c
    | some _ => c
  | .perform cs => match c.prog with
    | some p => ⟨(host.exec cs p c.world).2, some (host.exec cs p c.world).1⟩
    | none => c
  | .play stop f => match c.prog with
    | some p => ⟨(host.play stop f p c.world).2, some (host.play stop f p c.world).1⟩
    | none => c
  | .finish => match c.prog with
    | some (.ret ()) => ⟨c.world.note (.finished none), none⟩
    | some (.raise e) => ⟨c.world.note (.finished (some e)), none⟩
    | _ => c
  | .kill => match c.prog with
    | some _ => ⟨c.world.note .killed, none⟩
    | none => c
  | .power => ⟨c.world.restarted, none⟩
  | .wait t busy => match c.prog with
    | none => ⟨c.world.waited t busy, none⟩
    | some _ => c
  | .damage n d => match c.prog with
    | none => if n ∈ resultNames ∧ (c.world.view.look (.folder, n)).isSome = true then ⟨c.world.damaged n d, none⟩ else c
    | some _ => c

def cues (c : Config) (qs : List Cue) : Config := qs.foldl cue c

/-- How the program under way has ended: `none` inside is a return. -/
def outcome (c : Config) : Option (Option Exn) :=
  match c.prog with
  | some (.ret ()) => some none
  | some (.raise e) => some (some e)
  | _ => none

end Config

theorem prog_of_returned (h : c.outcome = some none) : c.prog = some (.ret ()) := by
  unfold Config.outcome at h
  split at h
  · assumption
  · cases h
  · cases h

theorem prog_of_raised {e : Exn} (h : c.outcome = some (some e)) : c.prog = some (.raise e) := by
  unfold Config.outcome at h
  split at h
  · cases h
  · cases h; assumption
  · cases h

/-- The cue damages no result. -/
def Cue.gentle : Cue → Bool
  | .damage _ _ => false
  | _ => true

/-! ## Cues are runs -/

abbrev Run (rot : Prop) : Config → Config → Prop := Relation.ReflTransGen (Step rot)

theorem run_exec {p : Serv Unit} (cs : List Choice) {w : World} :
    Run rot ⟨w, some p⟩ ⟨(host.exec cs p w).2, some (host.exec cs p w).1⟩ := by
  induction cs generalizing p w with
  | nil => cases p <;> exact .refl
  | cons ch cs ih =>
    cases p with
    | ret u => exact .refl
    | raise e => exact .refl
    | op o k => exact .head (.op w o k ch) ih

theorem run_play {p : Serv Unit} {stop : World → Op → Bool} {f : World → Op → Choice} {w : World} :
    Run rot ⟨w, some p⟩ ⟨(host.play stop f p w).2, some (host.play stop f p w).1⟩ := by
  induction p generalizing w with
  | ret u => exact .refl
  | raise e => exact .refl
  | op o k ih =>
    unfold Machine.play
    split
    · exact .refl
    · exact .head (.op w o k (f w o)) (ih _)

theorem run_cue {q : Cue} (hq : rot ∨ q.gentle = true) : Run rot c (c.cue q) := by
  obtain ⟨w, p⟩ := c
  cases q with
  | start a =>
    cases p with
    | some p => exact .refl
    | none =>
      simp only [Config.cue]
      split
      · next h => exact .single (.start w a h)
      · exact .refl
  | perform cs =>
    cases p with
    | none => exact .refl
    | some p => exact run_exec cs
  | play stop f =>
    cases p with
    | none => exact .refl
    | some p => exact run_play
  | finish =>
    match p with
    | none => exact .refl
    | some (.ret ()) => exact .single (.returned w)
    | some (.raise e) => exact .single (.raised w e)
    | some (.op o k) => exact .refl
  | kill =>
    cases p with
    | none => exact .refl
    | some p => exact .single (.killed w p)
  | power => exact .single (.power w p)
  | wait t busy =>
    cases p with
    | none => exact .single (.waited w t busy)
    | some p => exact .refl
  | damage n d =>
    cases p with
    | some p => exact .refl
    | none =>
      simp only [Config.cue]
      split
      · next h =>
        have hr : rot := hq.resolve_right nofun
        exact .single (.damaged w n d hr h.1 h.2)
      · exact .refl

/-- **Cues are runs.** -/
theorem run_cues {qs : List Cue} (hq : rot ∨ qs.all Cue.gentle = true) : Run rot c (c.cues qs) := by
  induction qs generalizing c with
  | nil => exact .refl
  | cons q qs ih =>
    have h : rot ∨ q.gentle = true ∧ qs.all Cue.gentle = true := by simpa using hq
    exact (run_cue (h.imp_right And.left)).trans (ih (h.imp_right And.right))

/-- Every step of the cue leads from a world to one as `ψ` says. -/
def Config.cueKeeps (ψ : World → World → Bool) (c : Config) : Cue → Bool
  | .perform _ => false
  | .play stop f => match c.prog with
    | some p => host.always ψ stop f p c.world
    | none => true
  | q => ψ c.world (c.cue q).world

def Config.cuesKeep (ψ : World → World → Bool) (c : Config) : List Cue → Bool
  | [] => true
  | q :: qs => c.cueKeeps ψ q && (c.cue q).cuesKeep ψ qs

section
variable {ψ : World → World → Bool} {P : Config → Config → Prop}

theorem play_keeps (hP : ∀ c c', Step rot c c' → ψ c.world c'.world = true → P c c') {p : Serv Unit}
    {stop : World → Op → Bool} {f : World → Op → Choice} {w : World} (h : host.always ψ stop f p w = true) :
    Relation.ReflTransGen P ⟨w, some p⟩ ⟨(host.play stop f p w).2, some (host.play stop f p w).1⟩ := by
  induction p generalizing w with
  | ret u => exact .refl
  | raise e => exact .refl
  | op o k ih =>
    unfold Machine.play
    unfold Machine.always at h
    split at h
    · next hs => rw [if_pos hs]
    · next hs =>
      rw [if_neg hs]
      have h' := Bool.and_eq_true_iff.1 h
      exact .head (hP _ _ (.op w o k (f w o)) h'.1) (ih _ h'.2)

theorem cue_keeps (hP : ∀ c c', Step rot c c' → ψ c.world c'.world = true → P c c') {q : Cue} (hq : q.gentle = true)
    (h : c.cueKeeps ψ q = true) : Relation.ReflTransGen P c (c.cue q) := by
  obtain ⟨w, p⟩ := c
  cases q with
  | perform cs => cases h
  | damage n d => cases hq
  | play stop f =>
    cases p with
    | none => exact .refl
    | some p => exact play_keeps hP h
  | power => exact .single (hP _ _ (.power w p) h)
  | start a =>
    cases p with
    | some p => exact .refl
    | none =>
      simp only [Config.cueKeeps, Config.cue] at h ⊢
      split at h
      · next ha => rw [if_pos ha]; exact .single (hP _ _ (.start w a ha) h)
      · next ha => rw [if_neg ha]
  | finish =>
    match p, h with
    | none, _ => exact .refl
    | some (.ret ()), h => exact .single (hP _ _ (.returned w) h)
    | some (.raise e), h => exact .single (hP _ _ (.raised w e) h)
    | some (.op o k), _ => exact .refl
  | kill =>
    cases p with
    | none => exact .refl
    | some p => exact .single (hP _ _ (.killed w p) h)
  | wait t busy =>
    cases p with
    | none => exact .single (hP _ _ (.waited w t busy) h)
    | some p => exact .refl

/-- Cues that keep to `ψ` are a run of steps that do. -/
theorem cues_keep (hP : ∀ c c', Step rot c c' → ψ c.world c'.world = true → P c c') {qs : List Cue}
    (hq : qs.all Cue.gentle = true) (h : c.cuesKeep ψ qs = true) : Relation.ReflTransGen P c (c.cues qs) := by
  induction qs generalizing c with
  | nil => exact .refl
  | cons q qs ih =>
    obtain ⟨hq₁, hq₂⟩ := Bool.and_eq_true_iff.1 (by simpa only [List.all_cons] using hq)
    obtain ⟨h₁, h₂⟩ := Bool.and_eq_true_iff.1 h
    exact (cue_keeps hP hq₁ h₁).trans (ih hq₂ h₂)

end

theorem Reach.cues {qs : List Cue} (h : Reach (Step rot) c) (hq : rot ∨ qs.all Cue.gentle = true) :
    Reach (Step rot) (c.cues qs) := h.trans (run_cues hq)

end

/-! ## A sample -/

namespace Sample

/-- Tells the documents of the sample runs apart. -/
def digest : Doc → Sha256
  | .record _ => 1
  | .manifest _ => 2
  | .transcript t => BitVec.ofNat 256 (3 + 16 * (t.segments.map (·.text.length)).sum)
  | .insights _ => 4
  | .text s => BitVec.ofNat 256 (5 + 16 * s.length)
  | .snapshot _ => 6
  | .blob b => BitVec.ofNat 256 (7 + 16 * b.length)
  | .pdfMarker _ _ _ _ => 8
  | .payload _ t _ _ => BitVec.ofNat 256 (9 + 16 * (t.segments.map (·.text.length)).sum)

/-- A PDF of the sample starts with a percent sign and says how long the transcript is. -/
@[reducible] def lib : Lib where
  sha256 := digest
  validTimezone _ := true
  layout _ t _ := [37, UInt8.ofNat (t.segments.map (·.text.length)).sum]
  validPdf b := b.head? = some 37

@[reducible] def home : Home := ⟨1, 2⟩

attribute [local instance] lib home

def metadata : MeetingMetadata where
  title := ['t']
  meetingDate := ⟨2026, 1, 1, by decide, by decide, by decide⟩
  timezone := ['z']
  participants := []
  recordingNoticeConfirmed := true
  languageHint := .auto

def disk : Files where
  data _ := default
  disk _ := default
  next := 0
  ent _ := none
  entDur _ := none
  slot d := if d = .above ∨ d = .root then .live else .absent
  slotDur d := if d = .above ∨ d = .root then .live else .absent

def world : World := ⟨disk, 1000, false, []⟩

def creation : Config := ⟨world, some (discard (createMeeting metadata [[1, 2, 3]] .uploadedAudio none 24))⟩

/-- The same in the folder of any meeting. -/
def creationOf (k : Home) : Config :=
  let _ := k
  ⟨world, some (discard (createMeeting metadata [[1, 2, 3]] .uploadedAudio none 24))⟩

theorem initial_of (k : Home) : let _ := k; Initial (creationOf k) := by
  let _ := k
  refine .created world metadata [[1, 2, 3]] .uploadedAudio none 24 ⟨fun q => ⟨rfl, rfl⟩, rfl, fun d t => ?_, rfl⟩ ⟨?_, ?_⟩
  · have h : ∀ s : Slot UUID, (s = if d = .above ∨ d = .root then .live else .absent) → s ≠ .moved t := by
      rintro s rfl
      split <;> nofun
    exact ⟨h _ rfl, h _ rfl⟩
  · intro p i h
    cases h
  · intro p i h
    cases h

theorem initial : Initial creation := initial_of home

def speaker : SpeakerId := ⟨1, by decide⟩
def transcript (text : Str) : TranscriptV1 :=
  ⟨2, 0, [⟨speaker, none, .unreviewed⟩], [⟨7, 0, 10, speaker, .ru, text, false⟩]⟩
def insights : InsightsV1 := ⟨2, 0, [], []⟩
def versions : ModelVersions := ⟨['a'], ['b'], ['c']⟩

/-- What the GPU made of the audio. -/
def bundle (id : UUID) (text : Str) : ResultBundleV1 :=
  ⟨id, transcript text, insights, versions, digest (.payload id (transcript text) insights versions)⟩

def job (b : ResultBundleV1) : JobV1 := ⟨b.jobId, .completed, none, none, some b.resultHash, .pending, 5000, none⟩

/-- A GPU that has made `b` of whatever it is sent. -/
def gpu (b : ResultBundleV1) : Request → Response
  | .submit .. => .http 202 (.job (job b))
  | .getJob _ => .http 200 (.job (job b))
  | .getJobByKey _ => .http 404 (.error (some .jobNotFound))
  | .getResult _ => .http 200 (.bundle b)
  | .ack id resultHash => .http 200 (.receipt ⟨id, resultHash, .deleted, 6000⟩)

/-- Nothing fails, and the GPU answers like this. -/
def answering (g : Request → Response) : World → Op → Choice := fun _ o => match o with
  | .ask q => { Choice.calm with answer := g q }
  | _ => .calm

def never : World → Op → Bool := fun _ _ => false

/-- The operation is a request that `p` holds of. -/
def requests (p : Request → Bool) : World → Op → Bool := fun _ o => match o with
  | .ask q => p q
  | _ => false

/-- The operation replaces the marker. -/
def replacesMarker : World → Op → Bool := fun _ o => match o with
  | .file (.replace _ (.folder, .named .meeting)) => true
  | _ => false

def created : Config := creation.cues [.play never fun _ _ => .calm, .finish]

theorem reach_created {rot : Prop} : Reach (Step rot) created :=
  Reach.cues ⟨_, initial, .refl⟩ (.inr rfl)

/-- Another meeting of the owner. -/
@[reducible] def sibling (n : Nat) : Home := ⟨1, BitVec.ofNat 128 n⟩

def createdAs (k : Home) : Config :=
  let _ := k
  (creationOf k).cues [.play never fun _ _ => .calm, .finish]

def recordOf (c : Config) : MeetingRecord :=
  match c.world.view.run readRecord with
  | .ok r => r
  | .error _ => MeetingRecord.new (Meeting.new metadata 0 .uploadedAudio 24) [] none

def first : ResultBundleV1 := bundle 9 ['a']

/-- The GPU failed the job, and has not cleaned up yet. -/
def failedJob : JobV1 := ⟨9, .failed, none, some ⟨.processingFailed, ['x']⟩, none, .pending, 5000, none⟩

def failing : Request → Response
  | .submit .. => .http 202 (.job failedJob)
  | _ => .http 200 (.job failedJob)

def failed : Config := created.cues [.start .processOnce, .play never (answering failing), .finish]

theorem reach_failed : Reach (Step False) failed := reach_created.cues (.inr rfl)

/-- What it made of the audio the second time. -/
def remade : ResultBundleV1 := bundle 11 ['b']

/-- It has the job of the first attempt like this. -/
def remaking (j : JobV1) : Request → Response
  | .getJob 9 => .http 200 (.job j)
  | q => gpu remade q

end Sample

end Tirke
