import Tirke.Models.Load
/-!
# What `model_dump` prints, `model_validate` accepts

One lemma for each kind of field and each model: a valid value is loaded from its own dump. The dump of a bundle has
its hash behind the payload, so that the payload is what is left without it.
-/

namespace Tirke

open Numeral

/-! ## Fields -/

theorem readNat_nat {n : Nat} : readNat (.nat n) = some n := by
  simp [readNat, Json.nat]

theorem readText_str {s : Str} (h : nonBlank s = true) : readText (.str s) = some s := by
  simp [readText, h]

theorem readName_str {s : Str} (h : personName s = true) : readName (.str s) = some s := by
  simp only [personName, Bool.and_eq_true, decide_eq_true_eq] at h
  obtain ⟨⟨hstrip, hpos⟩, hlen⟩ := h
  simp [readName, hstrip, hpos, hlen]

theorem readAssignee_str {s : Str} (h : personName s = true) (hs : stripBy isSpace s = s) :
    readAssignee (.str s) = some s := by
  simp [readAssignee, hs, readName_str h]

theorem readWord_text {α : Type} {text : α → String} {words : List α} {w : α}
    (h : words.find? (fun x => (text x).toList = (text w).toList) = some w) :
    readWord text words (.word (text w)) = some w := by
  simpa only [readWord, Json.word] using h

theorem speaker_load {s digits : Str} (hs : s.dropPrefix? "speaker_".toList = some digits)
    (h : digits.all Char.isDigit = true ∧ digits.head? ≠ some '0' ∧ 0 < Nat.ofDigitChars 10 digits 0) :
    SpeakerId.load (.str s) = some ⟨Nat.ofDigitChars 10 digits 0, h.2.2⟩ := by
  simp only [SpeakerId.load, hs, dif_pos h]

theorem load_str {s : SpeakerId} : SpeakerId.load (.str s.text) = some s := by
  obtain ⟨n, hn⟩ := s
  have hdrop : (SpeakerId.text ⟨n, hn⟩).dropPrefix? "speaker_".toList = some (Nat.toDigits 10 n) :=
    List.dropPrefix?_append_of_beq _ (beq_self_eq_true _)
  have hall : (Nat.toDigits 10 n).all Char.isDigit = true :=
    List.all_eq_true.2 fun c hc => Nat.isDigit_of_mem_toDigits (by decide) (by decide) hc
  have hvalue := @Nat.ofDigitChars_ten_toDigits n
  have hhead : (Nat.toDigits 10 n).head? ≠ some '0' := by
    obtain ⟨d, rest, hd, hone, -⟩ := head_toDigits hn
    rw [hd, List.head?_cons]
    rintro ⟨⟩
    exact absurd hone (by decide)
  rw [speaker_load hdrop ⟨hall, hhead, by rw [hvalue]; exact hn⟩]
  simp only [hvalue]

theorem load_hex {h : Sha256} : Sha256.load (.str h.hex) = some h := by
  have hall : h.hex.all hexDigit = true := by
    rw [List.all_eq_true]
    intro c hc
    obtain ⟨d, hd, rfl⟩ := mem_numeral (by decide) hc
    have hdigit : ∀ d : Fin 16, hexDigit (digitChar d) = true := by decide +kernel
    exact hdigit ⟨d, hd⟩
  have hn : h.toNat < 16 ^ 64 := h.isLt
  have hread : number 16 64 h.hex = some (h.toNat, []) := by
    have := @number_numeral 16 64 h.toNat [] (by decide) (by decide)
    rw [List.append_nil, Nat.mod_eq_of_lt hn] at this
    exact this
  simp only [Sha256.load, hall, hread, if_true, BitVec.ofNat_toNat, BitVec.setWidth_eq]

theorem load_date {d : Date} : Date.load (.str d.str) = some d := by
  obtain ⟨year, month, day, hy, hm, hd⟩ := d
  have hday : day < 10 ^ 2 := by
    have : daysInMonth year month ≤ 31 := by
      unfold daysInMonth
      split
      · split <;> omega
      · split <;> omega
    omega
  have hyear : number 10 4 (numeral 10 4 year ++ '-' :: (numeral 10 2 month ++ '-' :: numeral 10 2 day)) =
      some (year, '-' :: (numeral 10 2 month ++ '-' :: numeral 10 2 day)) := by
    rw [number_numeral (by decide) (by decide), Nat.mod_eq_of_lt (by omega)]
  have hmonth : number 10 2 (numeral 10 2 month ++ '-' :: numeral 10 2 day) = some (month, '-' :: numeral 10 2 day) := by
    rw [number_numeral (by decide) (by decide), Nat.mod_eq_of_lt (by omega)]
  have hday' : number 10 2 (numeral 10 2 day) = some (day, []) := by
    have := @number_numeral 10 2 day [] (by decide) (by decide)
    rw [List.append_nil, Nat.mod_eq_of_lt hday] at this
    exact this
  simp only [Date.load, Date.str, hyear, hmonth, hday']
  rw [dif_pos ⟨hy, hm, hd⟩]

/-! ## Models -/

theorem valid_parts [Lib] {b : ResultBundleV1} (h : b.valid = true) :
    b.transcript.valid = true ∧ b.insights.valid = true ∧ b.modelVersions.valid = true := by
  simp only [ResultBundleV1.valid, Bool.and_eq_true] at h
  obtain ⟨⟨⟨⟨⟨⟨⟨⟨ht, hi⟩, hv⟩, -⟩, -⟩, -⟩, -⟩, -⟩, -⟩ := h
  exact ⟨ht, hi, hv⟩

section
variable {f : Json → Json} (hf : Json.Reorders f)
include hf

theorem Speaker.load_dump {s : Speaker} (h : s.valid = true) : Speaker.load (f s.dump) = some s := by
  have hrec : (f s.dump).record ["speaker_id", "display_name", "identity_status"] = some [f (.str s.speakerId.text),
      f (.optional .str s.displayName), f (.word s.identityStatus.text)] := hf.obj (by simp) rfl rfl
  have hname : (Json.optional .str s.displayName).nullable readName = some s.displayName := by
    refine Json.nullable_optional (fun _ => rfl) ?_
    intro x hx
    simp only [Speaker.valid, Bool.and_eq_true, Option.all_eq_true] at h
    exact readName_str (h.1 x hx)
  have hstatus : readWord IdentityStatus.text [.unreviewed, .named, .unknown] (.word s.identityStatus.text) =
      some s.identityStatus := readWord_text (by cases s.identityStatus <;> simp [IdentityStatus.text])
  simp only [Speaker.load, hrec, hf.str, hf.word, hf.optional hf.str, load_str, hname, hstatus, Option.bind_eq_bind,
    Option.bind_some, h, if_true]

theorem ModelVersions.load_dump {v : ModelVersions} (h : v.valid = true) : ModelVersions.load (f v.dump) = some v := by
  have hrec : (f v.dump).record ["asr", "diarization", "analysis"] =
      some [f (.str v.asr), f (.str v.diarization), f (.str v.analysis)] := hf.obj (by simp) rfl rfl
  simp only [ModelVersions.valid, Bool.and_eq_true] at h
  simp only [ModelVersions.load, hrec, hf.str, readText_str h.1.1, readText_str h.1.2, readText_str h.2,
    Option.bind_eq_bind, Option.bind_some, Option.pure_def]

theorem record_payload {b : ResultBundleV1} : (f (.obj b.payload)).record ["schema_version", "job_id", "transcript",
    "insights", "model_versions"] = some [f (.int 1), f b.jobId.dump, f b.transcript.dump, f b.insights.dump,
      f b.modelVersions.dump] := hf.obj (by simp) rfl rfl

variable [Spelling]

theorem load_uuid {id : UUID} : UUID.load (f id.dump) = some id := by
  rw [UUID.dump, hf.str]
  exact Spelling.uuid_str id

theorem Segment.load_dump {s : Segment} (h : s.valid = true) : Segment.load (f s.dump) = some s := by
  have hrec : (f s.dump).record ["id", "start_ms", "end_ms", "speaker_id", "language", "text", "edited"] =
      some [f s.id.dump, f (.nat s.startMs), f (.nat s.endMs), f (.str s.speakerId.text), f (.word s.language.text),
        f (.str s.text), f (.bool s.edited)] := hf.obj (by simp) rfl rfl
  have hlanguage : readWord Language.text [.ru, .kk, .unknown] (.word s.language.text) = some s.language :=
    readWord_text (by cases s.language <;> simp [Language.text])
  have htext : readText (.str s.text) = some s.text := by
    simp only [Segment.valid, Bool.and_eq_true] at h
    exact readText_str h.1
  simp only [Segment.load, hrec, hf.nat, hf.str, hf.word, hf.bool, load_uuid hf, readNat_nat, load_str, hlanguage, htext,
    readBool, Option.bind_eq_bind, Option.bind_some, h, if_true]

theorem TranscriptV1.load_dump {t : TranscriptV1} (h : t.valid = true) : TranscriptV1.load (f t.dump) = some t := by
  have hrec : (f t.dump).record ["schema_version", "meeting_id", "revision", "speakers", "segments"] =
      some [f (.int 1), f t.meetingId.dump, f (.nat t.revision), f (.list Speaker.dump t.speakers),
        f (.list Segment.dump t.segments)] := hf.obj (by simp) rfl rfl
  have hall := h
  simp only [TranscriptV1.valid, Bool.and_eq_true, List.all_eq_true] at hall
  obtain ⟨⟨⟨⟨⟨hs, hg⟩, -⟩, -⟩, -⟩, -⟩ := hall
  have hspeakers : (Json.list (fun s => f (Speaker.dump s)) t.speakers).many Speaker.load = some t.speakers :=
    Json.many_list fun x hx => Speaker.load_dump hf (hs x hx)
  have hsegments : (Json.list (fun s => f (Segment.dump s)) t.segments).many Segment.load = some t.segments :=
    Json.many_list fun x hx => Segment.load_dump hf (hg x hx)
  simp only [TranscriptV1.load, hrec, hf.int, hf.nat, hf.list, readVersion, load_uuid hf, readNat_nat, hspeakers,
    hsegments, Option.bind_eq_bind, Option.bind_some, h, if_true]

theorem Evidence.load_dump {e : Evidence} (h : e.valid = true) : Evidence.load (f e.dump) = some e := by
  have hrec : (f e.dump).record ["segment_id", "start_ms", "end_ms"] =
      some [f e.segmentId.dump, f (.nat e.startMs), f (.nat e.endMs)] := hf.obj (by simp) rfl rfl
  simp only [Evidence.load, hrec, hf.nat, load_uuid hf, readNat_nat, Option.bind_eq_bind, Option.bind_some, h, if_true]

/-- What a summary item and a task share. -/
theorem item_fields {i : SummaryItem} (h : i.valid = true) : readText (.str i.text) = some i.text ∧
    (Json.list (fun e => f (Evidence.dump e)) i.evidence).many Evidence.load = some i.evidence := by
  simp only [SummaryItem.valid, Bool.and_eq_true, List.all_eq_true] at h
  exact ⟨readText_str h.1.1, Json.many_list fun e he => Evidence.load_dump hf (h.2 e he)⟩

theorem SummaryItem.load_dump {i : SummaryItem} (h : i.valid = true) : SummaryItem.load (f i.dump) = some i := by
  have hrec : (f i.dump).record ["id", "text", "evidence"] =
      some [f i.id.dump, f (.str i.text), f (.list Evidence.dump i.evidence)] := hf.obj (by simp) rfl rfl
  obtain ⟨htext, hevidence⟩ := item_fields hf h
  simp only [SummaryItem.load, hrec, hf.str, hf.list, load_uuid hf, htext, hevidence, Option.bind_eq_bind,
    Option.bind_some, h, if_true]

theorem ActionItem.load_dump {i : ActionItem} (h : i.valid = true) : ActionItem.load (f i.dump) = some i := by
  have hrec : (f i.dump).record ["id", "text", "evidence", "assignee_speaker_id", "assignee_name", "due_date",
      "due_date_text"] = some [f i.id.dump, f (.str i.text), f (.list Evidence.dump i.evidence),
        f (.optional (.str ·.text) i.assigneeSpeakerId), f (.optional .str i.assigneeName),
        f (.optional (.str ·.str) i.dueDate), f (.optional .str i.dueDateText)] := hf.obj (by simp) rfl rfl
  have hall := h
  simp only [ActionItem.valid, Bool.and_eq_true, Option.all_eq_true, decide_eq_true_eq] at hall
  obtain ⟨⟨⟨hitem, hnames⟩, hdates⟩, -⟩ := hall
  obtain ⟨htext, hevidence⟩ := item_fields hf hitem
  have hspeaker : (Json.optional (.str ·.text) i.assigneeSpeakerId).nullable SpeakerId.load =
      some i.assigneeSpeakerId := Json.nullable_optional (fun _ => rfl) fun _ _ => load_str
  have hname : (Json.optional .str i.assigneeName).nullable readAssignee = some i.assigneeName :=
    Json.nullable_optional (fun _ => rfl) fun x hx => readAssignee_str (hnames x hx).1 (hnames x hx).2
  have hdate : (Json.optional (.str ·.str) i.dueDate).nullable Date.load = some i.dueDate :=
    Json.nullable_optional (fun _ => rfl) fun _ _ => load_date
  have hdateText : (Json.optional .str i.dueDateText).nullable readText = some i.dueDateText :=
    Json.nullable_optional (fun _ => rfl) fun x hx => readText_str (hdates x hx)
  have hatom : ∀ {α : Type} (g : α → Str) (o : Option α), f (.optional (.str <| g ·) o) = .optional (.str <| g ·) o :=
    fun g o => hf.optional fun x => hf.str (g x)
  simp only [ActionItem.load, hrec, hf.str, hf.list, hatom, load_uuid hf, htext, hevidence, hspeaker,
    hname, hdate, hdateText, Option.bind_eq_bind, Option.bind_some, h, if_true]

theorem InsightsV1.load_dump {i : InsightsV1} (h : i.valid = true) : InsightsV1.load (f i.dump) = some i := by
  have hrec : (f i.dump).record ["schema_version", "meeting_id", "revision", "summary", "action_items"] =
      some [f (.int 1), f i.meetingId.dump, f (.nat i.revision), f (.list SummaryItem.dump i.summary),
        f (.list ActionItem.dump i.actionItems)] := hf.obj (by simp) rfl rfl
  have hall := h
  simp only [InsightsV1.valid, Bool.and_eq_true, List.all_eq_true] at hall
  obtain ⟨⟨⟨hs, ha⟩, -⟩, -⟩ := hall
  have hsummary : (Json.list (fun s => f (SummaryItem.dump s)) i.summary).many SummaryItem.load = some i.summary :=
    Json.many_list fun x hx => SummaryItem.load_dump hf (hs x hx)
  have hactions : (Json.list (fun a => f (ActionItem.dump a)) i.actionItems).many ActionItem.load =
      some i.actionItems := Json.many_list fun x hx => ActionItem.load_dump hf (ha x hx)
  simp only [InsightsV1.load, hrec, hf.int, hf.nat, hf.list, readVersion, load_uuid hf, readNat_nat, hsummary, hactions,
    Option.bind_eq_bind, Option.bind_some, h, if_true]

variable [Lib]

theorem ResultBundleV1.load_dump {b : ResultBundleV1} (h : b.valid = true) :
    ResultBundleV1.load (f b.dump) = some b := by
  have hrec : (f b.dump).record ["schema_version", "job_id", "transcript", "insights", "model_versions",
      "result_hash"] = some [f (.int 1), f b.jobId.dump, f b.transcript.dump, f b.insights.dump,
        f b.modelVersions.dump, f (.str b.resultHash.hex)] := hf.obj (by simp) rfl rfl
  obtain ⟨ht, hi, hv⟩ := valid_parts h
  simp only [ResultBundleV1.load, hrec, hf.int, hf.str, readVersion, load_uuid hf, TranscriptV1.load_dump hf ht,
    InsightsV1.load_dump hf hi, ModelVersions.load_dump hf hv, load_hex, Option.bind_eq_bind, Option.bind_some, h,
    if_true]

end

end Tirke
