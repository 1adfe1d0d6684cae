import Tirke.Spec.Loading
import Tirke.Runs.Playing
import Mathlib
/-!
# The signed format has no second reading

A bundle is hashed twice: as it was received, and as it was understood. Where SHA-256 does not collide on the texts in
question, what was received is, field by field, what was understood. What is printed of an accepted bundle is accepted
again as the same bundle, and so are the files that `publish_results` leaves.
-/

set_option linter.unusedSectionVars false

namespace Tirke

open CrashProg CrashDisk

/-- The text whose hash is the `result_hash`. -/
def ResultBundleV1.signed (b : ResultBundleV1) : ByteArray := canonicalJson (.obj b.payload)

section
variable [Lib] {sha : ByteArray → Sha256} {raw : Json} {b b' : ResultBundleV1}

/-- `Lib.sha256` of a document is the hash of its bytes. -/
structure Hashes (sha : ByteArray → Sha256) : Prop where
  payload : ∀ b : ResultBundleV1, Lib.sha256 (.payload b.jobId b.transcript b.insights b.modelVersions) = sha b.signed
  transcript : ∀ t : TranscriptV1, Lib.sha256 (.transcript t) = sha (canonicalJson t.dump)
  insights : ∀ i : InsightsV1, Lib.sha256 (.insights i) = sha (canonicalJson i.dump)
  text : ∀ s : Str, Lib.sha256 (.text s) = sha (Json.encode s)

theorem canonicalJson_injective {j j' : Json} (h : canonicalJson j = canonicalJson j') : j.canonical = j'.canonical :=
  Json.encode_injective h

theorem valid_hash (hlib : Hashes sha) (h : b.valid = true) : sha b.signed = b.resultHash := by
  rw [← hlib.payload]
  simp only [ResultBundleV1.valid, Bool.and_eq_true, decide_eq_true_eq] at h
  exact h.2

theorem dump_without : b.dump.without "result_hash" = .obj b.payload := by
  have hkeep : b.payload.filter (·.1 ≠ "result_hash") = b.payload := by
    rw [List.filter_eq_self]
    intro f hf
    have hnames : ∀ name ∈ ["schema_version", "job_id", "transcript", "insights", "model_versions"],
        name ≠ "result_hash" := by simp
    have hmem : f.1 ∈ b.payload.map Prod.fst := List.mem_map_of_mem hf
    exact decide_eq_true (hnames f.1 hmem)
  rw [ResultBundleV1.dump, Json.without, List.filter_append, hkeep]
  simp

section
variable [Spelling]

/-- Both hashes of an accepted bundle are the `result_hash`. -/
theorem validate_some (h : ResultBundleV1.validate sha raw = some b) :
    b.valid = true ∧ sha (canonicalJson (raw.without "result_hash")) = b.resultHash := by
  unfold ResultBundleV1.validate at h
  split at h
  swap
  · cases h
  next hv =>
  cases raw with
  | obj fields =>
    unfold ResultBundleV1.load at h
    split at h
    swap
    · cases h
    next version id t i v hash hrec =>
    simp only [Option.bind_eq_bind, Option.bind_eq_some_iff] at h
    obtain ⟨-, -, id, -, t, -, i, -, v, -, hash', hload, hb⟩ := h
    have hlookup : fields.lookup "result_hash" = some hash := by
      have := (Json.record_eq_some.1 hrec).2
      simp only [List.map_cons, List.cons.injEq] at this
      exact this.2.2.2.2.2.1
    split at hb
    swap
    · cases hb
    next hvalid =>
    cases hb
    refine ⟨hvalid, ?_⟩
    simp only [verifyReceivedHash, hlookup] at hv
    cases hash with
    | str s =>
      have hs := of_decide_eq_true hv
      rw [← hs, load_hex] at hload
      exact Option.some.inj hload
    | _ => cases hv
  | _ => cases h

/-- A valid bundle is accepted as it is dumped. -/
theorem validate_dump (hlib : Hashes sha) (h : b.valid = true) : ResultBundleV1.validate sha b.dump = some b := by
  have hlookup : (b.payload ++ [("result_hash", Json.str b.resultHash.hex)]).lookup "result_hash" =
      some (.str b.resultHash.hex) := by
    simp [ResultBundleV1.payload, List.lookup]
  have hhash : sha (canonicalJson (b.dump.without "result_hash")) = b.resultHash := by
    rw [dump_without]
    exact valid_hash hlib h
  have hverify : verifyReceivedHash sha b.dump = true := by
    have heq : b.dump = .obj (b.payload ++ [("result_hash", Json.str b.resultHash.hex)]) := rfl
    rw [heq] at hhash ⊢
    simp only [verifyReceivedHash, hlookup, hhash, decide_true]
  rw [ResultBundleV1.validate, if_pos hverify]
  exact ResultBundleV1.load_dump Json.reorders_id h

theorem validateJson_dumpJson (hlib : Hashes sha) (h : b.valid = true) :
    ResultBundleV1.validateJson sha b.dumpJson = some b := by
  unfold ResultBundleV1.validateJson ResultBundleV1.dumpJson
  rw [Json.decode_encode, Option.bind_some, validate_dump hlib h]

theorem TranscriptV1.validateJson_canonical {t : TranscriptV1} (h : t.valid = true) :
    TranscriptV1.validateJson (canonicalJson t.dump) = some t := by
  unfold TranscriptV1.validateJson canonicalJson
  rw [Json.decode_canonical, Option.bind_some, TranscriptV1.load_dump Json.reorders_sorted h]

theorem InsightsV1.validateJson_canonical {i : InsightsV1} (h : i.valid = true) :
    InsightsV1.validateJson (canonicalJson i.dump) = some i := by
  unfold InsightsV1.validateJson canonicalJson
  rw [Json.decode_canonical, Option.bind_some, InsightsV1.load_dump Json.reorders_sorted h]

/-- Two valid bundles with one signed text are one bundle. -/
theorem eq_of_signed (h : b.valid = true) (h' : b'.valid = true) (hh : b.resultHash = b'.resultHash)
    (hs : b.signed = b'.signed) : b = b' := by
  have hsorted : (Json.obj b.payload).sorted = (Json.obj b'.payload).sorted :=
    Json.print_injective (canonicalJson_injective hs)
  have hrec := record_payload Json.reorders_sorted (b := b)
  rw [hsorted, record_payload Json.reorders_sorted] at hrec
  simp only [Option.some.injEq, List.cons.injEq, and_true, true_and] at hrec
  obtain ⟨hid, ht, hi, hv⟩ := hrec
  obtain ⟨bt, bi, bv⟩ := valid_parts h
  obtain ⟨bt', bi', bv'⟩ := valid_parts h'
  have hid' := congrArg UUID.load hid
  have ht' := congrArg TranscriptV1.load ht
  have hi' := congrArg InsightsV1.load hi
  have hv' := congrArg ModelVersions.load hv
  rw [load_uuid Json.reorders_sorted, load_uuid Json.reorders_sorted] at hid'
  rw [TranscriptV1.load_dump Json.reorders_sorted bt, TranscriptV1.load_dump Json.reorders_sorted bt'] at ht'
  rw [InsightsV1.load_dump Json.reorders_sorted bi, InsightsV1.load_dump Json.reorders_sorted bi'] at hi'
  rw [ModelVersions.load_dump Json.reorders_sorted bv, ModelVersions.load_dump Json.reorders_sorted bv'] at hv'
  cases b
  cases b'
  cases hid'
  cases ht'
  cases hi'
  cases hv'
  cases hh
  rfl

end

/-! ## The files of a publication -/

section
variable [Home] {A : Env host} {v : View}

/-- The law that allows everything. -/
def unbound : Law := fun _ _ => True

theorem Does.unbound {L : Law} {α : Type} {p : Serv α} {Q : Except Exn α → View → Prop} (h : Does A L p v Q) :
    Does A unbound p v Q := h.lawful fun _ _ _ => trivial

/-- The folder shows a bundle with this hash. -/
def Shelved (v : View) (resultHash : Sha256) : Prop :=
  ∃ m t i, v.Committed m t i ∧ m.resultHash = resultHash

theorem Published.shelved {v' : View} {r' : MeetingRecord} (h : Published v v' r' b) (hb : b.valid = true)
    (hm : b.transcript.meetingId = Home.meetingId) : Shelved v' b.resultHash :=
  ⟨_, _, _, committed_of h.readable hb hm h.artifacts h.manifest, rfl⟩

theorem shelved_syncs {resultHash : Sha256} {ds : List Dir} (h : Shelved v resultHash) :
    Shelved (v.syncs ds) resultHash := by
  obtain ⟨m, t, i, hc, hm⟩ := h
  have hf : Frame (fun _ => False) v (v.syncs ds) := .syncs ds
  exact ⟨m, t, i, ⟨(hf.run readOnly_readManifest fun _ _ h => h).trans hc.manifest,
    (hf.run readOnly_readResults fun _ _ h => h).trans hc.results⟩, hm⟩

/-- When `publish_results` returns, the folder shows a bundle with the hash it was called with. -/
theorem does_publishResults : Does A unbound (publishResults b) v fun out v' =>
    ∀ m, out = .ok m → b.valid = true ∧ Shelved v' b.resultHash := by
  unfold publishResults
  refine Does.bind does_demand ?_ fun e v' _ m h => by cases h
  rintro ⟨⟩ v₁ ⟨rfl, hb⟩
  refine Does.readThen readOnly_readRecord (fun r hr => ?_) (fun e _ m h => by cases h) fun _ m h => by cases h
  refine Does.bind does_demand ?_ fun e v' _ m h => by cases h
  rintro ⟨⟩ v₁ ⟨rfl, hm⟩
  refine Does.bind does_demand ?_ fun e v' _ m h => by cases h
  rintro ⟨⟩ v₁ ⟨rfl, -⟩
  have hmid : b.transcript.meetingId = Home.meetingId := of_decide_eq_true hm
  refine Does.bind (R := fun out v' => v' = v₁ ∧ ∀ there, out = .ok there → there = (v₁.look (.folder, .manifest)).isSome)
    (Does.exists ⟨rfl, fun _ h => by cases h; rfl⟩ fun _ => ⟨rfl, fun _ h => by cases h⟩) ?_ fun e v' _ m h => by cases h
  rintro there v₁ ⟨rfl, hthere⟩
  cases hl : v₁.look (.folder, .manifest) with
  | none =>
    rw [hthere there rfl, hl]
    have hlaw : Publishable unbound v₁ r b :=
      ⟨⟨fun _ _ _ _ _ _ => trivial, fun _ _ => trivial⟩, fun _ _ _ _ _ => trivial, fun _ _ _ _ _ => trivial⟩
    refine (does_publishFirst hr hl hlaw).mono ?_
    intro out v' h m hout
    subst hout
    obtain ⟨t, h⟩ := h
    exact ⟨hb, h.shelved hb hmid⟩
  | some d =>
    rw [hthere there rfl, hl]
    show Does A unbound (republish b) v₁ _
    by_cases hc : ∃ m t i, v₁.Committed m t i ∧ m.resultHash = b.resultHash
    · obtain ⟨m, t, i, hc, hh⟩ := hc
      have heq : republish (m.bundle t i) = republish b := by
        unfold republish
        rw [show (m.bundle t i).resultHash = b.resultHash from hh]
      rw [← heq]
      refine (does_republish hc).unbound.mono ?_
      rintro out v' (⟨rfl, rfl⟩ | ⟨-, rfl, -⟩) m' hout
      · exact ⟨hb, shelved_syncs ⟨m, t, i, hc, hh⟩⟩
      · cases hout
    · -- a manifest with another hash, or one that no results back, is refused
      refine Does.readThen readOnly_readManifest (fun m hm => ?_) (fun e _ m h => by cases h) fun _ m h => by cases h
      refine Does.bind does_demand ?_ fun e v' _ m h => by cases h
      rintro ⟨⟩ v₁ ⟨rfl, hh⟩
      refine Does.readThen readOnly_readResults.discard (fun _ hx => ?_) (fun e _ m h => by cases h) fun _ m h => by
        cases h
      rw [run_discard, bind_eq_ok] at hx
      obtain ⟨⟨t, i⟩, hx, -⟩ := hx
      exact absurd ⟨m, t, i, ⟨hm, hx⟩, of_decide_eq_true hh⟩ hc

variable [Spelling] {rot : Prop} {c : Config} {w' : World}

/-- Where the texts of the two bundles do not collide, what is read is what was published. -/
theorem published_reads_back (hlib : Hashes sha) {S : Set ByteArray} (hsha : Set.InjOn sha S) (hc : Reach (Step rot) c)
    {cs : List Choice} {m : ReadyManifest} (hrun : host.exec cs (publishResults b) c.world = (.ret m, w'))
    (hb : b.signed ∈ S) (hs : ∀ m t i, w'.view.Committed m t i → (m.bundle t i).signed ∈ S) :
    w'.view.run readResults = .ok (b.transcript, b.insights) := by
  have hgood : Good rot c := reach_good (fun _ _ h => h) hc
  have hfit : Fit c.world.disk := hgood.fit
  have hsat := (does_publishResults (A := anything) (b := b) c.world rfl hfit).exec cs
    (admits_of (A := anything) (fun _ _ _ => trivial) cs)
  rw [hrun] at hsat
  obtain ⟨-, hq⟩ := hsat
  obtain ⟨hvalid, m', t, i, hcom, hh⟩ := hq m rfl
  have hvalid' : (m'.bundle t i).valid = true := by
    obtain ⟨m₁, x, hm₁, -, -, -, -, -, -, hv, -⟩ := readResults_ok.1 hcom.results
    rw [hcom.manifest] at hm₁
    cases hm₁
    exact hv
  have hsha' : sha b.signed = sha (m'.bundle t i).signed := by
    rw [valid_hash hlib hvalid, valid_hash hlib hvalid']
    exact hh.symm
  have heq := eq_of_signed hvalid hvalid' hh.symm (hsha hb (hs m' t i hcom) hsha')
  rw [heq]
  exact hcom.results

/-- **The wire format has one reading.** What is accepted as a bundle is its dump, but for the order of fields;
`canonical_json` tells values apart; and an accepted bundle comes back from its own dump and from its files. -/
theorem wire_format_one_reading (hlib : Hashes sha) {S : Set ByteArray} (hsha : Set.InjOn sha S) :
    (∀ raw b, ResultBundleV1.validate sha raw = some b → canonicalJson (raw.without "result_hash") ∈ S → b.signed ∈ S →
      Json.Same (raw.without "result_hash") (b.dump.without "result_hash")) ∧
    (∀ j j' : Json, j.Keyed → (canonicalJson j = canonicalJson j' ↔ Json.Same j j')) ∧
    ∀ raw b, ResultBundleV1.validate sha raw = some b →
      ResultBundleV1.validateJson sha b.dumpJson = some b ∧
      TranscriptV1.validateJson (canonicalJson b.transcript.dump) = some b.transcript ∧
      InsightsV1.validateJson (canonicalJson b.insights.dump) = some b.insights ∧
      ∀ (rot : Prop) (c : Config) (cs : List Choice) (m : ReadyManifest) (w' : World), Reach (Step rot) c →
        host.exec cs (publishResults b) c.world = (.ret m, w') → b.signed ∈ S →
        (∀ m t i, w'.view.Committed m t i → (m.bundle t i).signed ∈ S) →
        w'.view.run readResults = .ok (b.transcript, b.insights) := by
  refine ⟨?_, ?_, ?_⟩
  · intro raw b h hraw hb
    obtain ⟨hvalid, hreceived⟩ := validate_some h
    have htext : canonicalJson (raw.without "result_hash") = b.signed :=
      hsha hraw hb (hreceived.trans (valid_hash hlib hvalid).symm)
    rw [dump_without]
    exact Json.canonical_injective (canonicalJson_injective htext)
  · intro j j' hj
    rw [← Json.canonical_iff hj]
    exact ⟨canonicalJson_injective, fun h => congrArg Json.encode h⟩
  · intro raw b h
    obtain ⟨hvalid, -⟩ := validate_some h
    obtain ⟨ht, hi, -⟩ := valid_parts hvalid
    refine ⟨?_, ?_, ?_, ?_⟩
    · exact validateJson_dumpJson hlib hvalid
    · exact TranscriptV1.validateJson_canonical ht
    · exact InsightsV1.validateJson_canonical hi
    · intro rot c cs m w' hc hrun hb hs
      exact published_reads_back hlib hsha hc hrun hb hs

end

end

/-! ## A sample -/

namespace Sample

/-- The bundle of the sample, under the SHA-256 of its canonical JSON. -/
def hashed : ResultBundleV1 :=
  ⟨9, transcript ['a'], insights, versions, 0x943e246716d5294397ecd6ffd4d82543c76438e7d91103b8febf9326eae7ec58⟩

/-- SHA-256, as far as the sample needs it. -/
def sha256 (text : ByteArray) : Sha256 := if text = hashed.signed then hashed.resultHash else 0

@[reducible] def hashing : Lib :=
  { lib with sha256 := fun
    | .payload jobId t i v => sha256 (ResultBundleV1.signed ⟨jobId, t, i, v, 0⟩)
    | .transcript t => sha256 (canonicalJson t.dump)
    | .insights i => sha256 (canonicalJson i.dump)
    | .text s => sha256 (Json.encode s)
    | d => digest d }

@[reducible] def spelling : Spelling := ⟨UUID.parse, fun _ => parse_str⟩

attribute [local instance] hashing home spelling

theorem hashes : Hashes sha256 := ⟨fun _ => rfl, fun _ => rfl, fun _ => rfl, fun _ => rfl⟩

theorem hashed_valid : hashed.valid = true := by
  have hhash : Lib.sha256 (.payload hashed.jobId hashed.transcript hashed.insights hashed.modelVersions) =
      hashed.resultHash := if_pos rfl
  have hrest : (hashed.transcript.valid && hashed.insights.valid && hashed.modelVersions.valid &&
      hashed.insights.validateAgainst hashed.transcript && hashed.transcript.revision = 0 &&
      hashed.insights.revision = 0 && hashed.transcript.segments.all (fun s => !s.edited) &&
      hashed.transcript.speakers.all fun s => s.identityStatus = .unreviewed) = true := by decide
  rw [ResultBundleV1.valid, hrest, hhash, Bool.true_and]
  exact decide_eq_true rfl

end Sample

attribute [local instance] Sample.hashing Sample.home Sample.spelling

theorem wire_format_one_reading_sample :
    Json.Same (Sample.hashed.dump.without "result_hash") (Sample.hashed.dump.without "result_hash") ∧
      ResultBundleV1.validateJson Sample.sha256 Sample.hashed.dumpJson = some Sample.hashed := by
  have haccepted := validate_dump Sample.hashes Sample.hashed_valid
  have h := wire_format_one_reading Sample.hashes (Set.injOn_singleton Sample.sha256 Sample.hashed.signed)
  refine ⟨h.1 _ _ haccepted ?_ rfl, (h.2.2 _ _ haccepted).1⟩
  rw [dump_without]
  rfl

end Tirke
