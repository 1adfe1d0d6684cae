import Tirke.Frontend.Schemas
import Tirke.Models.Dump
import Tirke.Spec.Overlay
/-!
# What the client accepts of what the server prints

Where the two sides judge a value by the same measure, whatever the model accepts is accepted. They do not measure the
version of an identifier, the length of a text, its blanks and the size of a number alike; what the client asks for beyond
the model is in `Rfc`, `Fits`, `Visible` and `Safe`.
-/

namespace Tirke

open Numeral Calendar Zod

/-! ## Identifiers -/

def UUID.version (id : UUID) : Nat := id.toNat / 16 ^ 19 % 16
def UUID.variant (id : UUID) : Nat := id.toNat / 16 ^ 15 % 16

/-- The identifiers of RFC 9562. -/
def UUID.Rfc (id : UUID) : Prop :=
  (1 ≤ id.version ∧ id.version ≤ 8) ∧ 8 ≤ id.variant ∧ id.variant ≤ 11 ∨ id = 0 ∨ id = BitVec.allOnes 128

theorem drop_numeral {k n i : Nat} (h : i < k) :
    (numeral 16 k n).drop i = digitChar (n / 16 ^ (k - 1 - i) % 16) :: (numeral 16 k n).drop (i + 1) := by
  have hlen : i < (numeral 16 k n).length := by rw [length_numeral]; exact h
  rw [List.drop_eq_getElem_cons hlen, ← Option.some.inj ((List.getElem?_eq_getElem hlen).symm.trans (getElem?_numeral h))]

theorem uuid_str {id : UUID} : Zod.uuid id.str = true ↔ id.Rfc := by
  have hnil : id.str = "00000000-0000-0000-0000-000000000000".toList ↔ id = 0 := by
    rw [show "00000000-0000-0000-0000-000000000000".toList = UUID.str 0 by decide]
    exact str_injective.eq_iff
  have hmax : id.str = "ffffffff-ffff-ffff-ffff-ffffffffffff".toList ↔ id = BitVec.allOnes 128 := by
    rw [show "ffffffff-ffff-ffff-ffff-ffffffffffff".toList = UUID.str (BitVec.allOnes 128) by decide +kernel]
    exact str_injective.eq_iff
  have hversion : ∀ d : Fin 16, "12345678".toList.contains (digitChar d) = decide (1 ≤ d.val ∧ d.val ≤ 8) := by decide
  have hvariant : ∀ d : Fin 16, "89abAB".toList.contains (digitChar d) = decide (8 ≤ d.val ∧ d.val ≤ 11) := by decide
  have hver := hversion ⟨id.version, Nat.mod_lt _ (by decide)⟩
  have hvar := hvariant ⟨id.variant, Nat.mod_lt _ (by decide)⟩
  have hall : ∀ c ∈ numeral 16 32 id.toNat, isHex c = true := fun c => isHex_numeral (by decide) (by decide)
  have hex : ∀ {n : Nat} {s : Str}, s.length = n → (∀ c ∈ s, c ∈ numeral 16 32 id.toNat) → fitsAll (hexes n) s = true :=
    fun hn h => fitsAll_hexes hn fun c hc => hall c (h c hc)
  -- the third and the fourth group begin with the digits that are judged
  have hstr : id.str = (numeral 16 32 id.toNat).take 8 ++ ['-'] ++ ((numeral 16 32 id.toNat).drop 8).take 4 ++ ['-'] ++
      [digitChar id.version] ++ ((numeral 16 32 id.toNat).drop 13).take 3 ++ ['-'] ++ [digitChar id.variant] ++
      ((numeral 16 32 id.toNat).drop 17).take 3 ++ ['-'] ++ (numeral 16 32 id.toNat).drop 20 := by
    simp only [UUID.str, drop_numeral (show 12 < 32 by decide), drop_numeral (show 16 < 32 by decide), List.take_succ_cons,
      List.append_assoc, List.cons_append, List.nil_append]
    rfl
  have hpattern : fitsAll (hexes 8 ++ oneOf "-" ++ hexes 4 ++ oneOf "-" ++ oneOf "12345678" ++ hexes 3 ++ oneOf "-" ++
      oneOf "89abAB" ++ hexes 3 ++ oneOf "-" ++ hexes 12) id.str =
      (decide (1 ≤ id.version ∧ id.version ≤ 8) && decide (8 ≤ id.variant ∧ id.variant ≤ 11)) := by
    rw [hstr]
    repeat rw [fitsAll_append (by simp [hexes, oneOf])]
    simp only [fitsAll_oneOf]
    rw [hver, hvar, hex (by simp) fun c => List.mem_of_mem_take,
      hex (by simp) fun c h => List.mem_of_mem_drop (List.mem_of_mem_take h),
      hex (by simp) fun c h => List.mem_of_mem_drop (List.mem_of_mem_take h),
      hex (by simp) fun c h => List.mem_of_mem_drop (List.mem_of_mem_take h), hex (by simp) fun c => List.mem_of_mem_drop]
    simp
  simp only [uuid, hpattern, Bool.or_eq_true, Bool.and_eq_true, decide_eq_true_eq, hnil, hmax, UUID.Rfc, or_assoc]

/-! ## Texts and numbers -/

/-- Something is left when JavaScript trims the text. -/
def Visible (s : Str) : Prop := ∃ c ∈ s, jsWhiteSpace c = false

/-- A name that is visible, of at most 100 UTF-16 code units. -/
structure Fits (s : Str) : Prop where
  visible : Visible s
  length : utf16Length s ≤ 100

/-- A number that JavaScript holds exactly. -/
def Safe (n : Nat) : Prop := n < 2 ^ 53

instance {n : Nat} : Decidable (Safe n) := inferInstanceAs (Decidable (n < 2 ^ 53))

section
variable {s : Str} {n : Nat}

theorem dropWhile_eq_nil {p : Char → Bool} {xs : Str} : xs.dropWhile p = [] ↔ ∀ c ∈ xs, p c = true := by
  induction xs with
  | nil => simp
  | cons c xs ih => by_cases hc : p c = true <;> simp [hc, ih]

theorem trim_eq_nil : trim s = [] ↔ ¬ Visible s := by
  unfold trim Visible
  rw [List.reverse_eq_nil_iff, dropWhile_eq_nil]
  simp only [List.mem_reverse, not_exists, not_and, Bool.not_eq_false]
  constructor
  · intro h
    have hnil : s.dropWhile jsWhiteSpace = [] := by
      cases hd : s.dropWhile jsWhiteSpace with
      | nil => rfl
      | cons c t =>
        -- what is kept begins with a character that is no blank
        have hc := h c (by rw [hd]; exact List.mem_cons_self)
        have hhead := List.head?_dropWhile_not jsWhiteSpace s
        rw [hd] at hhead
        simp [hc] at hhead
    exact dropWhile_eq_nil.1 hnil
  · intro h c hc
    exact h c (List.dropWhile_sublist _ |>.mem hc)

theorem Visible.length (h : Visible s) : 1 ≤ utf16Length s := by
  obtain ⟨c, hc, -⟩ := h
  cases s with
  | nil => cases hc
  | cons d t =>
    simp only [utf16Length, List.map_cons, List.sum_cons]
    split <;> omega

theorem visible_iff : nonBlankTextSchema (.str s) = true ↔ Visible s := by
  simp only [nonBlankTextSchema, string_str, Bool.and_eq_true, decide_eq_true_eq, Bool.not_eq_true', List.isEmpty_eq_false_iff,
    ne_eq, trim_eq_nil, not_not, and_iff_right_iff_imp]
  exact Visible.length

theorem title_iff : titleSchema (.str s) = true ↔ Visible s ∧ utf16Length s ≤ 120 := by
  show (nonBlankTextSchema (.str s) && decide (utf16Length s ≤ 120)) = true ↔ _
  rw [Bool.and_eq_true, visible_iff, decide_eq_true_eq]

theorem fits_iff_schema : personNameSchema (.str s) = true ↔ Fits s := by
  simp only [personNameSchema, string_str, Bool.and_eq_true, decide_eq_true_eq, Bool.not_eq_true', List.isEmpty_eq_false_iff,
    ne_eq, trim_eq_nil, not_not]
  constructor
  · intro h
    exact ⟨h.2, h.1.2⟩
  · intro h
    exact ⟨⟨h.visible.length, h.length⟩, h.visible⟩

theorem safe_iff : nonnegative (.nat n) = true ↔ Safe n := by
  simp only [nonnegative, Json.nat, int_int, safe, Bool.and_eq_true, decide_eq_true_eq, Safe]
  omega

theorem positive_iff : positive (.nat n) = true ↔ 0 < n ∧ Safe n := by
  simp only [positive, Json.nat, int_int, safe, Bool.and_eq_true, decide_eq_true_eq, Safe]
  omega

end

/-! ## Voices and dates -/

theorem speakerId_accepted {v : SpeakerId} : speakerIdSchema (.str v.text) = true := by
  obtain ⟨d, rest, hd, h₁, h₂⟩ := Numeral.head_toDigits v.pos
  have hdigits : ∀ c ∈ Nat.toDigits 10 v.number, Zod.isDigit c = true := by
    intro c hc
    have := Nat.isDigit_of_mem_toDigits (by decide) (by decide) hc
    simp only [Char.isDigit, Bool.and_eq_true, decide_eq_true_eq] at this
    simp only [Zod.isDigit, Bool.and_eq_true, decide_eq_true_eq]
    exact this
  have hlen : "speaker_".toList.length = 8 := by decide +kernel
  have htake : v.text.take 8 = "speaker_".toList := List.take_left' hlen
  have hdrop : v.text.drop 8 = Nat.toDigits 10 v.number := List.drop_left' hlen
  simp only [speakerIdSchema, string_str, htake, hdrop, decide_true, Bool.true_and, Bool.and_eq_true, List.all_eq_true]
  refine ⟨?_, hdigits⟩
  rw [hd]
  simp [h₁, h₂]

theorem speakerText_injective : Function.Injective SpeakerId.text := by
  intro v w h
  have hdigits := List.append_cancel_left h
  have hnumber : v.number = w.number := by
    have := congrArg (Nat.ofDigitChars 10 · 0) hdigits
    simpa only [Nat.ofDigitChars_ten_toDigits] using this
  obtain ⟨n, hn⟩ := v
  obtain ⟨m, hm⟩ := w
  cases hnumber
  rfl

theorem daysInMonth_eq {y m : Nat} (h : 1 ≤ m ∧ m ≤ 12) : Tirke.daysInMonth y m = Calendar.daysInMonth (isLeap y) m := by
  have hm : m = 1 ∨ m = 2 ∨ m = 3 ∨ m = 4 ∨ m = 5 ∨ m = 6 ∨ m = 7 ∨ m = 8 ∨ m = 9 ∨ m = 10 ∨ m = 11 ∨ m = 12 := by
    omega
  unfold Tirke.daysInMonth Calendar.daysInMonth isLeap
  rcases hm with rfl | rfl | rfl | rfl | rfl | rfl | rfl | rfl | rfl | rfl | rfl | rfl <;> simp

theorem date_accepted {d : Date} : dateSchema (.str d.str) = true := by
  have hday : d.day ≤ Calendar.daysInMonth (isLeap d.year) d.month := by
    rw [← daysInMonth_eq d.monthOk]
    exact d.dayOk.2
  have hyear : d.year < 10 ^ 4 := by
    have := d.yearOk
    omega
  have hread := readDate_print (s := []) hyear d.monthOk ⟨d.dayOk.1, hday⟩
  rw [List.append_nil] at hread
  simp only [dateSchema, string_str, Zod.date, Date.str, hread, decide_true]

theorem stamp_accepted {t : Time} (h : t < Calendar.limit) : datetimeSchema (.str (stamp t)) = true := by
  have hv := fields_valid h
  simp only [Fields.valid, Bool.and_eq_true, decide_eq_true_eq] at hv
  obtain ⟨⟨⟨⟨⟨⟨⟨⟨-, hy⟩, hm1⟩, hm⟩, hd1⟩, hd⟩, hh⟩, hmi⟩, hs⟩ := hv
  have hyear : (fields t).year < 10 ^ 4 := by omega
  simp only [datetimeSchema, string_str, datetime, stamp, readDate_print hyear ⟨hm1, hm⟩ ⟨hd1, hd⟩, expect_self,
    readMinutes_print (show (fields t).hour ≤ 23 by omega) (show (fields t).minute ≤ 59 by omega),
    readSeconds_print (show (fields t).second ≤ 59 by omega), Option.bind_eq_bind, Option.bind_some]
  rfl

/-! ## Transcripts -/

def Speaker.Readable (s : Speaker) : Prop := ∀ name, s.displayName = some name → Fits name

structure Segment.Readable (s : Segment) : Prop where
  id : s.id.Rfc
  endMs : Safe s.endMs
  text : Visible s.text

structure TranscriptV1.Readable (t : TranscriptV1) : Prop where
  meetingId : t.meetingId.Rfc
  revision : Safe t.revision
  speakers : ∀ s ∈ t.speakers, s.Readable
  segments : ∀ s ∈ t.segments, s.Readable

theorem uuid_iff {id : UUID} : meetingIdSchema id.dump = true ↔ id.Rfc := by
  rw [meetingIdSchema, UUID.dump, string_str, uuid_str]

theorem name_iff {o : Option Str} : nullable personNameSchema (.optional .str o) = true ↔ ∀ name, o = some name → Fits name := by
  rw [nullable_optional fun _ => rfl]
  simp only [fits_iff_schema]

theorem word_text {s : String} : (Json.word s).text = s.toList := rfl

theorem isNull_name {o : Option Str} : (Json.optional Json.str o).isNull = o.isNone := Json.isNull_optional fun _ => rfl

theorem speaker_iff {s : Speaker} (hv : s.valid = true) : speakerSchema s.dump = true ↔ s.Readable := by
  simp only [Speaker.valid, Bool.and_eq_true] at hv
  have hstatus : enum ["unreviewed", "named", "unknown"] (.word s.identityStatus.text) = true := by
    refine enum_word ?_
    cases s.identityStatus <;> simp [IdentityStatus.text]
  have hnamed : decide (s.identityStatus.text.toList = ['n', 'a', 'm', 'e', 'd']) = s.displayName.isSome := by
    rw [← beq_iff_eq.1 hv.2]
    cases s.identityStatus <;> simp [IdentityStatus.text]
  simp [speakerSchema, Speaker.dump, strictObject, List.lookup_cons, speakerId_accepted, hstatus, word_text, hnamed,
    isNull_name, name_iff, Speaker.Readable]

/-- An interval that ends late enough for one of its bounds ends late enough for both. -/
theorem Safe.mono {n m : Nat} (h : Safe m) (hn : n ≤ m) : Safe n := Nat.lt_of_le_of_lt hn h

theorem segment_iff_readable {s : Segment} (hv : s.valid = true) : transcriptSegmentSchema s.dump = true ↔ s.Readable := by
  simp only [Segment.valid, Bool.and_eq_true, decide_eq_true_eq] at hv
  have hlanguage : enum ["ru", "kk", "unknown"] (.word s.language.text) = true := by
    refine enum_word ?_
    cases s.language <;> simp [Language.text]
  have horder : endsAfterStart s.dump = true := by
    simpa [endsAfterStart, Segment.dump, List.lookup_cons, Json.nat] using hv.2
  have hshape : transcriptSegmentSchema s.dump = true ↔ s.id.Rfc ∧ Safe s.startMs ∧ Safe s.endMs ∧ Visible s.text := by
    rw [transcriptSegmentSchema, refine_apply, horder, Bool.and_true]
    simp [Segment.dump, strictObject, List.lookup_cons, speakerId_accepted, hlanguage, uuid_iff, safe_iff, visible_iff]
  rw [hshape]
  constructor
  · intro h
    exact ⟨h.1, h.2.2.1, h.2.2.2⟩
  · intro h
    exact ⟨h.id, h.endMs.mono (Nat.le_of_lt hv.2), h.endMs, h.text⟩

theorem ordered_dump {ss : List Segment} {start : Int} (hstart : ∀ s ∈ ss, start ≤ s.startMs)
    (h : (ss.map (·.startMs)).Pairwise (· ≤ ·)) : ordered start (ss.map Segment.dump) = true := by
  induction ss generalizing start with
  | nil => rfl
  | cons s ss ih =>
    rw [List.map_cons, List.pairwise_cons] at h
    have hget : ((Segment.dump s).get "start_ms").number = (s.startMs : Int) := by
      simp [Segment.dump, List.lookup_cons, Json.nat]
    have hrest : ∀ s' ∈ ss, (s.startMs : Int) ≤ s'.startMs := fun s' hs' => by
      exact_mod_cast h.1 _ (List.mem_map_of_mem hs')
    rw [List.map_cons, ordered, hget, ih hrest h.2, Bool.and_true, decide_eq_true_eq]
    exact hstart s List.mem_cons_self

theorem unique_map {α : Type} {f : α → Str} (hf : Function.Injective f) {xs : List α} (h : xs.Nodup) :
    unique (xs.map f) = true := decide_eq_true (h.map hf)

theorem references_dump {t : TranscriptV1} (hv : t.valid = true) : transcriptReferences t.dump = true := by
  obtain ⟨-, -, hvoices, hids, hknown, hstarts⟩ := valid_iff.1 hv
  have hspeakers : (t.dump.get "speakers").items = t.speakers.map Speaker.dump := by
    simp [TranscriptV1.dump, List.lookup_cons, Json.list]
  have hsegments : (t.dump.get "segments").items = t.segments.map Segment.dump := by
    simp [TranscriptV1.dump, List.lookup_cons, Json.list]
  have hspeakerIds : (t.speakers.map Speaker.dump).map (fun speaker => (speaker.get "speaker_id").text) =
      t.speakerIds.map SpeakerId.text := by
    simp [TranscriptV1.speakerIds, Function.comp_def, Speaker.dump]
  have hsegmentIds : (t.segments.map Segment.dump).map (fun segment => (segment.get "id").text) =
      (t.segments.map (·.id)).map UUID.str := by
    simp [Function.comp_def, Segment.dump, UUID.dump]
  have href : (t.segments.map Segment.dump).all (fun segment =>
      (t.speakerIds.map SpeakerId.text).contains (segment.get "speaker_id").text) = true := by
    simp only [List.all_eq_true, List.mem_map, forall_exists_index, and_imp, forall_apply_eq_imp_iff₂]
    intro s hs
    simpa [Segment.dump, List.lookup_cons] using ⟨_, hknown s hs, rfl⟩
  have hordered : ordered (-1) (t.segments.map Segment.dump) = true := ordered_dump (fun s _ => by omega) hstarts
  simp only [transcriptReferences, hspeakers, hsegments, hspeakerIds, hsegmentIds, href, hordered,
    unique_map speakerText_injective hvoices, unique_map str_injective hids, Bool.and_true]

theorem transcript_iff {t : TranscriptV1} (hv : t.valid = true) : transcriptSchema t.dump = true ↔ t.Readable := by
  obtain ⟨hspeakers, hsegments, -⟩ := valid_iff.1 hv
  have hshape : transcriptSchema t.dump = true ↔ t.meetingId.Rfc ∧ Safe t.revision ∧
      (∀ s ∈ t.speakers, speakerSchema s.dump = true) ∧ ∀ s ∈ t.segments, transcriptSegmentSchema s.dump = true := by
    rw [transcriptSchema, refine_apply, references_dump hv, Bool.and_true]
    simp [TranscriptV1.dump, strictObject, List.lookup_cons, uuid_iff, safe_iff, array_list, safe]
  rw [hshape]
  constructor
  · intro h
    exact ⟨h.1, h.2.1, fun s hs => (speaker_iff (hspeakers s hs)).1 (h.2.2.1 s hs),
      fun s hs => (segment_iff_readable (hsegments s hs)).1 (h.2.2.2 s hs)⟩
  · intro h
    exact ⟨h.meetingId, h.revision, fun s hs => (speaker_iff (hspeakers s hs)).2 (h.speakers s hs),
      fun s hs => (segment_iff_readable (hsegments s hs)).2 (h.segments s hs)⟩

/-! ## Insights -/

structure Evidence.Readable (e : Evidence) : Prop where
  segmentId : e.segmentId.Rfc
  endMs : Safe e.endMs

structure SummaryItem.Readable (i : SummaryItem) : Prop where
  id : i.id.Rfc
  text : Visible i.text
  evidence : ∀ e ∈ i.evidence, e.Readable

structure ActionItem.Readable (i : ActionItem) : Prop where
  item : i.toSummaryItem.Readable
  assigneeName : ∀ name, i.assigneeName = some name → Fits name
  dueDateText : ∀ text, i.dueDateText = some text → Visible text

structure InsightsV1.Readable (i : InsightsV1) : Prop where
  meetingId : i.meetingId.Rfc
  revision : Safe i.revision
  summary : ∀ x ∈ i.summary, x.Readable
  actionItems : ∀ x ∈ i.actionItems, x.Readable

theorem evidence_iff {e : Evidence} (hv : e.valid = true) : evidenceSchema e.dump = true ↔ e.Readable := by
  have hlt : e.startMs < e.endMs := by simpa [Evidence.valid] using hv
  have horder : endsAfterStart e.dump = true := by
    simpa [endsAfterStart, Evidence.dump, List.lookup_cons, Json.nat] using hlt
  have hshape : evidenceSchema e.dump = true ↔ e.segmentId.Rfc ∧ Safe e.startMs ∧ Safe e.endMs := by
    rw [evidenceSchema, refine_apply, horder, Bool.and_true]
    simp [Evidence.dump, strictObject, List.lookup_cons, uuid_iff, safe_iff]
  rw [hshape]
  constructor
  · intro h
    exact ⟨h.1, h.2.2⟩
  · intro h
    exact ⟨h.segmentId, h.endMs.mono (Nat.le_of_lt hlt), h.endMs⟩

theorem evidences_iff {es : List Evidence} (hne : es ≠ []) (hv : ∀ e ∈ es, e.valid = true) :
    (refine (array evidenceSchema) fun j => !j.items.isEmpty) (.list Evidence.dump es) = true ↔ ∀ e ∈ es, e.Readable := by
  have hitems : (!(Json.list Evidence.dump es).items.isEmpty) = true := by simp [Json.list, hne]
  rw [refine_apply, hitems, Bool.and_true, array_list]
  exact forall₂_congr fun e he => evidence_iff (hv e he)

theorem summaryItem_iff {i : SummaryItem} (hv : i.valid = true) : summaryItemSchema i.dump = true ↔ i.Readable := by
  simp only [SummaryItem.valid, Bool.and_eq_true, List.all_eq_true, Bool.not_eq_true', List.isEmpty_eq_false_iff] at hv
  have hshape : summaryItemSchema i.dump = true ↔ i.id.Rfc ∧ Visible i.text ∧ ∀ e ∈ i.evidence, e.Readable := by
    rw [← evidences_iff hv.1.2 hv.2]
    simp [summaryItemSchema, itemShape, SummaryItem.dump, SummaryItem.fields, strictObject, List.lookup_cons, uuid_iff,
      visible_iff, -refine_apply]
  rw [hshape]
  exact ⟨fun h => ⟨h.1, h.2.1, h.2.2⟩, fun h => ⟨h.id, h.text, h.evidence⟩⟩

theorem assignee_dump {i : ActionItem} (h : (!(i.assigneeSpeakerId.isSome && i.assigneeName.isSome)) = true) :
    ((i.dump.get "assignee_speaker_id").isNull || (i.dump.get "assignee_name").isNull) = true := by
  have hs : i.dump.get "assignee_speaker_id" = .optional (.str ·.text) i.assigneeSpeakerId := by
    simp [ActionItem.dump, SummaryItem.fields, List.lookup_cons]
  have hn : i.dump.get "assignee_name" = .optional .str i.assigneeName := by
    simp [ActionItem.dump, SummaryItem.fields, List.lookup_cons]
  rw [hs, hn, Json.isNull_optional fun _ => rfl, isNull_name]
  cases h₁ : i.assigneeSpeakerId <;> cases h₂ : i.assigneeName <;> simp [h₁, h₂] at h ⊢

theorem actionItem_iff {i : ActionItem} (hv : i.valid = true) : actionItemSchema i.dump = true ↔ i.Readable := by
  simp only [ActionItem.valid, Bool.and_eq_true] at hv
  obtain ⟨⟨⟨hitem, -⟩, -⟩, honly⟩ := hv
  have hspeaker : nullable speakerIdSchema (.optional (.str ·.text) i.assigneeSpeakerId) = true :=
    (nullable_optional fun _ => rfl).2 fun _ _ => speakerId_accepted
  have hdate : nullable dateSchema (.optional (.str ·.str) i.dueDate) = true :=
    (nullable_optional fun _ => rfl).2 fun _ _ => date_accepted
  have htext : nullable nonBlankTextSchema (.optional .str i.dueDateText) = true ↔ ∀ text, i.dueDateText = some text → Visible text := by
    rw [nullable_optional fun _ => rfl]
    simp only [visible_iff]
  have hshape : actionItemSchema i.dump = true ↔ summaryItemSchema i.toSummaryItem.dump = true ∧
      nullable personNameSchema (.optional .str i.assigneeName) = true ∧
      nullable nonBlankTextSchema (.optional .str i.dueDateText) = true := by
    rw [actionItemSchema, refine_apply, assignee_dump honly, Bool.and_true]
    simp [summaryItemSchema, SummaryItem.dump, ActionItem.dump, itemShape, SummaryItem.fields, strictObject,
      List.lookup_cons, hspeaker, hdate, and_assoc, -refine_apply]
  rw [hshape, summaryItem_iff hitem, name_iff, htext]
  exact ⟨fun h => ⟨h.1, h.2.1, h.2.2⟩, fun h => ⟨h.item, h.assigneeName, h.dueDateText⟩⟩

theorem insights_iff {i : InsightsV1} (hv : i.valid = true) : insightsSchema i.dump = true ↔ i.Readable := by
  obtain ⟨hsummary, hactions, hids, hids'⟩ := insights_valid_iff.1 hv
  have hs : ids (i.dump.get "summary").items = (i.summary.map (·.id)).map UUID.str := by
    simp [InsightsV1.dump, List.lookup_cons, Json.list, ids, Function.comp_def, SummaryItem.dump, SummaryItem.fields,
      UUID.dump]
  have ha : ids (i.dump.get "action_items").items = (i.actionItems.map (·.id)).map UUID.str := by
    simp [InsightsV1.dump, List.lookup_cons, Json.list, ids, Function.comp_def, ActionItem.dump, SummaryItem.fields,
      UUID.dump]
  have hshape : insightsSchema i.dump = true ↔ i.meetingId.Rfc ∧ Safe i.revision ∧
      (∀ x ∈ i.summary, summaryItemSchema x.dump = true) ∧ ∀ x ∈ i.actionItems, actionItemSchema x.dump = true := by
    rw [insightsSchema, refine_apply, hs, ha, unique_map str_injective hids, unique_map str_injective hids', Bool.and_true,
      Bool.and_true]
    simp [InsightsV1.dump, strictObject, List.lookup_cons, uuid_iff, safe_iff, array_list, safe]
  rw [hshape]
  constructor
  · intro h
    exact ⟨h.1, h.2.1, fun x hx => (summaryItem_iff (hsummary x hx)).1 (h.2.2.1 x hx),
      fun x hx => (actionItem_iff (hactions x hx)).1 (h.2.2.2 x hx)⟩
  · intro h
    exact ⟨h.meetingId, h.revision, fun x hx => (summaryItem_iff (hsummary x hx)).2 (h.summary x hx),
      fun x hx => (actionItem_iff (hactions x hx)).2 (h.actionItems x hx)⟩

/-! ## Meetings -/

structure Meeting.Readable (m : Meeting) : Prop where
  id : m.id.Rfc
  title : Visible m.title
  titleLength : utf16Length m.title ≤ 120
  timezone : Visible m.timezone
  participants : ∀ name ∈ m.participants, Fits name
  attempt : Safe m.attempt
  revision : Safe m.revision
  fixtureId : ∀ text, m.source.fixtureId = some text → Visible text
  failure : ∀ f, m.failure = some f → Visible f.message

/-- The timestamps are those of `datetime`, which ends with the year 9999. -/
structure Meeting.Dated (m : Meeting) : Prop where
  createdAt : m.createdAt < Calendar.limit
  updatedAt : m.updatedAt < Calendar.limit
  temporaryExpiresAt : ∀ t, m.temporaryExpiresAt = some t → t < Calendar.limit

/-- Without label and fixture, a source passes if it is an ordinary one. -/
theorem ordinary_dump {k : SourceKind} (hk : k ≠ .demoFixture) : meetingSourceSchema (MeetingSource.dump ⟨k, false, none⟩) = true := by
  have hkind : enum ["uploaded_audio", "browser_recording"] (.word k.text) = true := by
    refine enum_word ?_
    cases k with
    | demoFixture => exact absurd rfl hk
    | uploadedAudio | browserRecording => simp [SourceKind.text]
  simp [meetingSourceSchema, ordinaryMeetingSourceSchema, MeetingSource.dump, strictObject, List.lookup_cons, hkind,
    Json.isNull]

theorem demo_iff {text : Str} : meetingSourceSchema (MeetingSource.dump ⟨.demoFixture, true, some text⟩) = true ↔ Visible text := by
  have hkind : enum ["uploaded_audio", "browser_recording"] (.word SourceKind.demoFixture.text) = false := by
    simp [enum, Json.word, SourceKind.text]
  have hdemo : enum ["demo_fixture"] (.word SourceKind.demoFixture.text) = true := enum_word (by simp [SourceKind.text])
  have hlabel : enum ["Подготовленный пример · обработка выполнена заранее"] (.word demoLabel) = true :=
    enum_word (by simp [demoLabel])
  simp [meetingSourceSchema, ordinaryMeetingSourceSchema, demoMeetingSourceSchema, MeetingSource.dump, strictObject,
    List.lookup_cons, hkind, hdemo, hlabel, visible_iff]

theorem source_iff {s : MeetingSource} (hv : s.valid = true) : meetingSourceSchema s.dump = true ↔
    ∀ text, s.fixtureId = some text → Visible text := by
  obtain ⟨kind, label, fixtureId⟩ := s
  simp only [MeetingSource.valid, Bool.and_eq_true] at hv
  by_cases hk : kind = .demoFixture
  · subst hk
    simp only [if_true, Bool.and_eq_true] at hv
    obtain ⟨-, rfl, hsome⟩ := hv
    obtain ⟨text, rfl⟩ := Option.isSome_iff_exists.1 hsome
    simp [demo_iff]
  · simp only [if_neg hk, Bool.and_eq_true, Bool.not_eq_true', Option.isNone_iff_eq_none] at hv
    obtain ⟨-, rfl, rfl⟩ := hv
    simp [ordinary_dump hk]

theorem failure_iff {f : Failure} : meetingFailureSchema f.dump = true ↔ Visible f.message := by
  have hcode : enum ["invalid_audio", "processing_failed", "storage_failed", "source_expired", "gpu_unavailable",
      "invalid_result"] (.word f.code.text) = true := by
    refine enum_word ?_
    cases f.code <;> simp [FailureCode.text]
  simp [meetingFailureSchema, Failure.dump, strictObject, List.lookup_cons, hcode, visible_iff]

theorem participants_iff {names : List Str} (h : names.length ≤ 30) :
    (refine (array personNameSchema) fun j => j.items.length ≤ 30) (.list .str names) = true ↔ ∀ name ∈ names, Fits name := by
  have hlen : (decide ((Json.list Json.str names).items.length ≤ 30)) = true := by simpa [Json.list] using h
  rw [refine_apply, hlen, Bool.and_true, array_list]
  simp only [fits_iff_schema]

/-- What the two sides judge alike of a meeting. -/
theorem meeting_shape {validTimezone : Str → Bool} {m : Meeting} (hv : m.valid validTimezone = true) (hd : m.Dated) :
    meetingSchema m.dump = true ↔ m.id.Rfc ∧ titleSchema (.str m.title) = true ∧ Visible m.timezone ∧
      (∀ name ∈ m.participants, Fits name) ∧ positive (.nat m.attempt) = true ∧ Safe m.revision ∧
      meetingSourceSchema m.source.dump = true ∧ nullable meetingFailureSchema (.optional Failure.dump m.failure) = true := by
  simp only [Meeting.valid, MeetingMetadata.valid, Bool.and_eq_true, decide_eq_true_eq] at hv
  have hlen : m.participants.length ≤ 30 := hv.1.1.1.1.1.1.1.1.2
  have hnotice : m.recordingNoticeConfirmed = true := hv.1.1.1.1.1.2
  have hhint : meetingLanguageHintSchema (.word m.languageHint.text) = true := by
    refine enum_word ?_
    cases m.languageHint <;> simp [LanguageHint.text]
  have hstatus : meetingStatusSchema (.word m.status.text) = true := by
    refine enum_word ?_
    cases m.status <;> simp [MeetingStatus.text]
  have hstage : nullable meetingStageSchema (.optional (.word ·.text) m.stage) = true := by
    refine (nullable_optional fun _ => rfl).2 fun s _ => enum_word ?_
    cases s <;> simp [MeetingStage.text]
  have hcleanup : enum ["pending", "deleted", "expired"] (.word m.cleanupStatus.text) = true := by
    refine enum_word ?_
    cases m.cleanupStatus <;> simp [CleanupStatus.text]
  have hexpires : nullable datetimeSchema (.optional (.str <| stamp ·) m.temporaryExpiresAt) = true :=
    (nullable_optional fun _ => rfl).2 fun t ht => stamp_accepted (hd.temporaryExpiresAt t ht)
  rw [← participants_iff hlen]
  simp [meetingSchema, Meeting.dump, strictObject, List.lookup_cons, uuid_iff, safe_iff, visible_iff, hnotice, hhint,
    hstatus, hstage, hcleanup, hexpires, date_accepted, stamp_accepted hd.createdAt, stamp_accepted hd.updatedAt, -refine_apply]

theorem meeting_iff {validTimezone : Str → Bool} {m : Meeting} (hv : m.valid validTimezone = true) (hd : m.Dated) :
    meetingSchema m.dump = true ↔ m.Readable := by
  rw [meeting_shape hv hd]
  simp only [Meeting.valid, Bool.and_eq_true, decide_eq_true_eq] at hv
  have hfailure : nullable meetingFailureSchema (.optional Failure.dump m.failure) = true ↔
      ∀ f, m.failure = some f → Visible f.message := by
    rw [nullable_optional fun _ => rfl]
    simp only [failure_iff]
  rw [title_iff, positive_iff, source_iff hv.1.1.2, hfailure]
  constructor
  · rintro ⟨hid, ⟨htitle, hlength⟩, hzone, hnames, ⟨-, hattempt⟩, hrevision, hsource, hfailed⟩
    exact ⟨hid, htitle, hlength, hzone, hnames, hattempt, hrevision, hsource, hfailed⟩
  · intro h
    exact ⟨h.id, ⟨h.title, h.titleLength⟩, h.timezone, h.participants, ⟨hv.1.1.1.2, h.attempt⟩, h.revision, h.fixtureId, h.failure⟩

end Tirke
