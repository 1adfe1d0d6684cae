import Tirke.Spec.Frame
/-!
# The exchanges of `GPUClient` on a view

`heardJob`, `heardBundle` and `heardReceipt` are what a caller makes of one response. A submission reads
the upload first; what it sends is the content it read.
-/

set_option linter.unusedSectionVars false

namespace Tirke

open CrashProg CrashDisk

variable [Lib] [Home] [Weather] {A : Env host} {L : Law} {v v' : View}

theorem heardJob_ok {id : UUID} {a : Response} {j : JobV1} :
    heardJob id a = .ok j ↔ jobIn 200 a = .ok j ∧ j.jobId = id := by
  simp only [heardJob, bind_eq_ok]
  constructor
  · rintro ⟨j', hj, h⟩
    split at h
    · next hid => cases h; exact ⟨hj, hid⟩
    · cases h
  · rintro ⟨hj, hid⟩
    exact ⟨j, hj, if_pos hid⟩

theorem heardBundle_ok {id : UUID} {a : Response} {b : ResultBundleV1} :
    heardBundle id a = .ok b ↔ bundleIn a = .ok b ∧ b.jobId = id := by
  simp only [heardBundle, bind_eq_ok]
  constructor
  · rintro ⟨b', hb, h⟩
    split at h
    · next hid => cases h; exact ⟨hb, hid⟩
    · cases h
  · rintro ⟨hb, hid⟩
    exact ⟨b, hb, if_pos hid⟩

theorem heardReceipt_ok {id : UUID} {resultHash : Sha256} {a : Response} {r : AckV1} :
    heardReceipt id resultHash a = .ok r ↔ receiptIn a = .ok r ∧ r.jobId = id ∧ r.resultHash = resultHash := by
  simp only [heardReceipt, bind_eq_ok]
  constructor
  · rintro ⟨r', hr, h⟩
    split at h
    · next hid => cases h; exact ⟨hr, hid⟩
    · cases h
  · rintro ⟨hr, hid⟩
    exact ⟨r, hr, if_pos hid⟩

/-! ## Every failure of an exchange is a `GPUClientError` -/

/-- The exceptions `_send` and `_parse` raise. -/
def Exn.answered : Exn → Bool
  | .gpuUnavailable _ | .gpuDomain _ _ | .gpuProtocol => true
  | _ => false

theorem isGPUClientError_of_answered {e : Exn} (h : e.answered = true) : e.isGPUClientError = true := by
  cases e <;> first | rfl | cases h

theorem accepted_error {n : Nat} {a : Response} {e : Exn} (h : accepted n a = .error e) :
    e.answered = true := by
  unfold accepted at h
  split at h
  · cases h; rfl
  · cases h; rfl
  · split at h
    · cases h
    · split at h
      · cases h; rfl
      · split at h
        · cases h; rfl
        · split at h
          · cases h
            split <;> rfl
          · cases h; rfl

theorem jobIn_error {n : Nat} {a : Response} {e : Exn} (h : jobIn n a = .error e) : e.answered = true := by
  unfold jobIn at h
  split at h
  · split at h <;> cases h; rfl
  · cases h; rfl
  · next e' he => cases h; exact accepted_error he

theorem bundleIn_error {a : Response} {e : Exn} (h : bundleIn a = .error e) : e.answered = true := by
  unfold bundleIn at h
  split at h
  · split at h <;> cases h; rfl
  · cases h; rfl
  · next e' he => cases h; exact accepted_error he

theorem receiptIn_error {a : Response} {e : Exn} (h : receiptIn a = .error e) : e.answered = true := by
  unfold receiptIn at h
  split at h
  · split at h <;> cases h; rfl
  · cases h; rfl
  · next e' he => cases h; exact accepted_error he

theorem demanded_error {α : Type} {x : Except Exn α} {p : α → Prop} [DecidablePred p] {e : Exn}
    (hx : ∀ e, x = .error e → e.answered = true)
    (h : (x.bind fun a => if p a then .ok a else .error .gpuProtocol) = .error e) : e.answered = true := by
  cases x with
  | error e' => cases h; exact hx _ rfl
  | ok a =>
    rw [ok_bind] at h
    split at h <;> cases h
    rfl

theorem heardJob_error {id : UUID} {a : Response} {e : Exn} (h : heardJob id a = .error e) :
    e.answered = true := demanded_error (fun _ => jobIn_error) h

theorem heardBundle_error {id : UUID} {a : Response} {e : Exn} (h : heardBundle id a = .error e) :
    e.answered = true := demanded_error (fun _ => bundleIn_error) h

theorem heardReceipt_error {id : UUID} {resultHash : Sha256} {a : Response} {e : Exn}
    (h : heardReceipt id resultHash a = .error e) : e.answered = true :=
  demanded_error (fun _ => receiptIn_error) h

theorem answered_of_refused {q : Request} {a : Response} {e : Exn} (h : q.refused a e) : e.answered = true := by
  cases q with
  | submit | getJobByKey => exact jobIn_error h
  | getJob => exact heardJob_error h
  | getResult => exact heardBundle_error h
  | ack => exact heardReceipt_error h

/-! ## The exchanges -/

theorem does_jobAnswer {α : Type} {x : Except Exn α} {b : α → Bool} {p : α → Prop} [DecidablePred p] {e : Exn}
    (hb : ∀ a, b a = true ↔ p a) {Q : Except Exn α → View → Prop}
    (h : Q (x.bind fun a => if p a then .ok a else .error e) v) :
    Does A L ((Prog.ofExcept x).bind fun a => (demand (b a) e).bind fun _ => Prog.ret a) v Q := by
  cases x with
  | error e' => exact .raise h
  | ok a =>
    rw [ok_bind] at h
    show Does A L ((demand (b a) e).bind fun _ => Prog.ret a) v Q
    by_cases hp : p a
    · rw [if_pos hp] at h
      simp only [demand, (hb a).2 hp, if_true, Prog.ret_bind]
      exact .ret h
    · rw [if_neg hp] at h
      have : b a = false := Bool.eq_false_iff.2 fun h' => hp ((hb a).1 h')
      simp only [demand, this, Bool.false_eq_true, if_false, Prog.raise_bind]
      exact .raise h

/-- One exchange, and what is made of its response. -/
theorem Does.exchange {α : Type} {q : Request} {f : Response → Serv α} {Q : Except Exn α → View → Prop}
    (law : ∀ a, L v (.asked q a)) (k : ∀ a, MayAnswer A q a → Does A L (f a) (v.note (.asked q a)) Q) :
    Does A L ((Tirke.ask q).bind f) v Q := by
  refine Does.bind (R := fun out v' => ∃ a, MayAnswer A q a ∧ out = .ok a ∧ v' = v.note (.asked q a))
    (Does.ask law fun a ha => ⟨a, ha, rfl, rfl⟩) ?_ ?_
  · rintro a v' ⟨a', ha, h, rfl⟩
    cases h
    exact k a ha
  · rintro e v' ⟨a, -, h, -⟩
    cases h

/-- What an exchange leaves: its answer on the log, and the caller's reading of it. -/
def Exchanged {α : Type} (A : Env host) (v : View) (q : Request) (f : Response → Except Exn α)
    (out : Except Exn α) (v' : View) : Prop :=
  ∃ a, MayAnswer A q a ∧ out = f a ∧ v' = v.note (.asked q a)

theorem does_getJob {id : UUID} : Does A Legal (getJob id) v (Exchanged A v (.getJob id) (heardJob id)) :=
  Does.exchange (fun a => .getJob id a) fun a ha =>
    does_jobAnswer (fun _ => decide_eq_true_iff) ⟨a, ha, rfl, rfl⟩

theorem does_getJobByKey {id : UUID} {n : Nat} :
    Does A Legal (getJobByKey id n) v (Exchanged A v (.getJobByKey (id, n)) (jobIn 200)) :=
  Does.exchange (fun a => .getJobByKey _ a) fun a ha => .ofExcept ⟨a, ha, rfl, rfl⟩

theorem does_getResult {id : UUID} :
    Does A Legal (getResult id) v (Exchanged A v (.getResult id) (heardBundle id)) :=
  Does.exchange (fun a => .getResult id a) fun a ha =>
    does_jobAnswer (fun _ => decide_eq_true_iff) ⟨a, ha, rfl, rfl⟩

theorem does_ack {id : UUID} {resultHash : Sha256} {m : ReadyManifest} {t : TranscriptV1} {i : InsightsV1}
    (h : MayAck v id resultHash m t i) :
    Does A Legal (ack id resultHash) v (Exchanged A v (.ack id resultHash) (heardReceipt id resultHash)) :=
  Does.exchange (fun a => .ack id resultHash a m t i h) fun a ha =>
    does_jobAnswer (fun _ => by simp) ⟨a, ha, rfl, rfl⟩

/-- What a submission leaves: nothing sent, or its answer. -/
inductive Submitted (A : Env host) (v : View) (context : GPUContextV1) (suffix : Option AudioExtension) :
    Except Exn JobV1 → View → Prop where
  | unsent (h : v.look (.folder, .upload) = none ∨ MayFailAt A (.read (Path.entry (.folder, .upload)))) :
      Submitted A v context suffix (.error .gpuInput) v
  | sent (audio : Doc) (a : Response)
      (ha : MayAnswer A (.submit (context.meetingId, context.attempt) context audio suffix) a)
      (hu : v.look (.folder, .upload) = some audio) : Submitted A v context suffix (jobIn 202 a)
        (v.note (.asked (.submit (context.meetingId, context.attempt) context audio suffix) a))

theorem does_submit {c : GPUContextV1} {suffix : Option AudioExtension}
    (law : ∀ audio a, v.look (.folder, .upload) = some audio →
      Legal v (.asked (.submit (c.meetingId, c.attempt) c audio suffix) a)) :
    Does A Legal (submit (.folder, .upload) c suffix) v (Submitted A v c suffix) := by
  refine Does.bind (R := fun out v' => v' = v ∧
    ((out = .error .gpuInput ∧ (v.look (.folder, .upload) = none ∨ MayFailAt A (.read (Path.entry (.folder, .upload))))) ∨
      ∃ audio, out = .ok audio ∧ v.look (.folder, .upload) = some audio)) ?_ ?_ ?_
  · refine Does.handle (R := fun out v' => v' = v ∧ match out with
        | .ok audio => v.look (.folder, .upload) = some audio
        | .error e => e.isOSError = true ∧
          (v.look (.folder, .upload) = none ∨ MayFailAt A (.read (Path.entry (.folder, .upload)))))
      (Does.read ?_ fun hf => ⟨rfl, rfl, .inr hf⟩) ?_ ?_
    · cases hl : v.look (.folder, .upload) with
      | none => exact ⟨rfl, rfl, .inl rfl⟩
      | some audio => exact ⟨rfl, rfl⟩
    · rintro audio v ⟨rfl, h⟩
      exact ⟨rfl, .inr ⟨audio, rfl, h⟩⟩
    · rintro e v ⟨rfl, he, h⟩
      rw [if_pos he]
      exact .raise ⟨rfl, .inl ⟨rfl, h⟩⟩
  · rintro audio v ⟨rfl, ⟨h, -⟩ | ⟨_, h, hu⟩⟩
    · cases h
    · cases h
      exact Does.exchange (fun a => law audio a hu) fun a ha => .ofExcept (.sent audio a ha hu)
  · rintro e v ⟨rfl, ⟨h, hu⟩ | ⟨_, h, -⟩⟩
    · cases h; exact .unsent hu
    · cases h

end Tirke
