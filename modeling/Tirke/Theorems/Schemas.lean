import Tirke.Runs.Playing
import Tirke.Spec.Schemas
import Tirke.Routes.Meetings
/-!
# The client reads what the server sends, up to four differences

The two sides agree on every field but for the version of an identifier, the length of a text in UTF-16 code units, the
blanks of JavaScript, which count U+FEFF, and numbers from 2⁵³ on. One meeting that falls under them makes the whole page
unreadable.
-/

namespace Tirke

open Zod

theorem decode_nil : decodeCursor [] = .error (apiError 422 "invalid_request") := by
  decide +kernel

theorem cursor_accepted {m : Meeting} (h : m.createdAt < Calendar.limit) :
    1 ≤ utf16Length (encodeCursor m) ∧ utf16Length (encodeCursor m) ≤ 256 := by
  have hplain : ∀ c ∈ encodeCursor m, c.toNat < 0x10000 := fun c hc =>
    Nat.lt_trans (Base64.ascii_encode c (Base64.mem_strip hc)) (by decide)
  have hne : encodeCursor m ≠ [] := by
    intro hnil
    have hdec := decodeCursor_encodeCursor h
    rw [hnil, decode_nil] at hdec
    cases hdec
  rw [utf16Length_plain hplain]
  exact ⟨List.length_pos_iff.2 hne, length_encodeCursorStub⟩

/-- The items of a page, and how its cursor comes about. -/
theorem page_spec {ms : List Meeting} {limit : Str} {cursor : Option Str} {page : MeetingPage}
    (h : listMeetings (.ok ms) limit cursor = .ok page) : (∀ m ∈ page.items, m ∈ ms) ∧
      ∀ s, page.nextCursor = some s → ∃ m ∈ page.items, s = encodeCursor m := by
  unfold listMeetings at h
  split at h
  · cases h
  split at h
  · cases h
  next boundary _ =>
  obtain ⟨xs, hxs, rfl⟩ : ∃ xs : List Meeting, (∀ m ∈ xs, m ∈ ms) ∧ page = ⟨xs.take (int limit),
      if (xs.take (int limit)).length < xs.length then (xs.take (int limit)).getLast?.map encodeCursor else none⟩ := by
    cases boundary with
    | none => exact ⟨ms, fun m hm => hm, (Except.ok.inj h).symm⟩
    | some b => exact ⟨_, fun m hm => List.mem_of_mem_filter hm, (Except.ok.inj h).symm⟩
  refine ⟨fun m hm => hxs m (List.mem_of_mem_take hm), fun s hs => ?_⟩
  by_cases hmore : (xs.take (int limit)).length < xs.length
  · rw [if_pos hmore] at hs
    obtain ⟨m, hm, rfl⟩ := Option.map_eq_some_iff.1 hs
    exact ⟨m, List.mem_of_mem_getLast? hm, rfl⟩
  · rw [if_neg hmore] at hs
    cases hs

theorem page_iff {validTimezone : Str → Bool} {ms : List Meeting} {limit : Str} {cursor : Option Str} {page : MeetingPage}
    (h : listMeetings (.ok ms) limit cursor = .ok page)
    (hv : ∀ m ∈ ms, m.valid validTimezone = true ∧ m.Dated) :
    meetingPageSchema page.dump = true ↔ ∀ m ∈ page.items, m.Readable := by
  obtain ⟨hsub, hnext⟩ := page_spec h
  have hcursor : nullable (string fun s => 1 ≤ utf16Length s && utf16Length s ≤ 256) (.optional .str page.nextCursor) = true := by
    refine (nullable_optional fun _ => rfl).2 fun s hs => ?_
    obtain ⟨m, hm, rfl⟩ := hnext s hs
    simpa using cursor_accepted (hv m (hsub m hm)).2.createdAt
  have hitems : meetingPageSchema page.dump = true ↔
      ∀ m ∈ page.items, meetingSchema m.dump = true := by
    rw [← array_list]
    simp [meetingPageSchema, MeetingPage.dump, strictObject, List.lookup_cons, hcursor]
  rw [hitems]
  exact forall₂_congr fun m hm => meeting_iff (hv m (hsub m hm)).1 (hv m (hsub m hm)).2

/-- **What the models accept is read by the client exactly** where its identifiers are those of RFC 9562, its texts are
visible to JavaScript and short enough in UTF-16, and its numbers are safe. -/
theorem schemas_agree_iff (validTimezone : Str → Bool) :
    (∀ m : Meeting, m.valid validTimezone = true → m.Dated → (meetingSchema m.dump = true ↔ m.Readable)) ∧
    (∀ t : TranscriptV1, t.valid = true → (transcriptSchema t.dump = true ↔ t.Readable)) ∧
    (∀ i : InsightsV1, i.valid = true → (insightsSchema i.dump = true ↔ i.Readable)) ∧
    ∀ ms limit cursor page, listMeetings (.ok ms) limit cursor = .ok page →
      (∀ m ∈ ms, m.valid validTimezone = true ∧ m.Dated) →
      (meetingPageSchema page.dump = true ↔ ∀ m ∈ page.items, m.Readable) :=
  ⟨fun _ hv hd => meeting_iff hv hd, fun _ hv => transcript_iff hv, fun _ hv => insights_iff hv,
    fun _ _ _ _ hp hv => page_iff hp hv⟩

namespace Sample

/-- A queued meeting of the title. -/
def titled (title : Str) : Meeting where
  title := title
  meetingDate := metadata.meetingDate
  timezone := ['z']
  participants := []
  recordingNoticeConfirmed := true
  languageHint := .auto
  id := BitVec.ofNat 128 (4 * 16 ^ 19 + 8 * 16 ^ 15 + 7)
  createdAt := 0
  updatedAt := 0
  attempt := 1
  revision := 0
  status := .queued
  stage := none
  sourceAvailable := true
  cleanupStatus := .pending
  temporaryExpiresAt := none
  source := ⟨.uploadedAudio, false, none⟩
  failure := none

theorem dated_titled (title : Str) : (titled title).Dated :=
  have h : 0 < Calendar.limit := by decide
  ⟨h, h, nofun⟩

end Sample

/-- A title of 61 characters outside the basic plane is within the 120 of the model, and beyond those of the client. -/
theorem title_refused : ¬ ∀ m : Meeting, m.valid (fun _ => true) = true → m.Dated → meetingSchema m.dump = true := by
  intro h
  have hv : (Sample.titled (List.replicate 61 '😀')).valid (fun _ => true) = true := by decide +kernel
  have hread := (meeting_iff hv (Sample.dated_titled _)).1 (h _ hv (Sample.dated_titled _))
  exact absurd hread.titleLength (by decide +kernel)

theorem schemas_agree_iff_titled : meetingSchema (Sample.titled ['t']).dump = true ∧
    meetingPageSchema (MeetingPage.dump ⟨[Sample.titled ['t']], none⟩) = true := by
  obtain ⟨hmeeting, -, -, hpage⟩ := schemas_agree_iff fun _ => true
  have hv : (Sample.titled ['t']).valid (fun _ => true) = true := by decide +kernel
  have hread : (Sample.titled ['t']).Readable := by
    refine ⟨.inl (by decide +kernel), ⟨'t', by decide, by decide⟩, by decide, ⟨'z', by decide, by decide⟩, nofun, by decide,
      by decide, nofun, nofun⟩
  refine ⟨(hmeeting _ hv (Sample.dated_titled _)).2 hread, ?_⟩
  have hlist : listMeetings (.ok [Sample.titled ['t']]) "20".toList none = .ok ⟨[Sample.titled ['t']], none⟩ := by
    rfl
  refine (hpage _ _ _ _ hlist fun m hm => ?_).2 fun m hm => ?_
  · rw [List.mem_singleton.1 hm]
    exact ⟨hv, Sample.dated_titled _⟩
  · rw [List.mem_singleton.1 hm]
    exact hread

end Tirke
