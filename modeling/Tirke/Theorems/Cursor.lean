import Mathlib.Data.List.TakeWhile
import Tirke.Routes.Cursor
import Tirke.Spec.Reading
/-!
# The cursor codec

The three decoders are lenient; that the text is printed again and compared makes the codec exact. Of what the decoders
raise only `RecursionError` is no `ValueError`, and a text of 256 characters does not nest deep enough for it.
-/

namespace Tirke.Cursor

open Unicode Loads Numeral Calendar

/-! ## The texts inside a cursor -/

theorem plain_of_digit {d : Nat} (hd : d < 16) : Loads.Plain (digitChar d).toNat := by
  have hall : ∀ d : Fin 16, 0x20 ≤ (digitChar d).toNat ∧ (digitChar d).toNat < 0x80 ∧ (digitChar d).toNat ≠ '"'.toNat ∧
      (digitChar d).toNat ≠ '\\'.toNat := by decide
  obtain ⟨h₁, h₂, h₃, h₄⟩ := hall ⟨d, hd⟩
  exact ⟨h₁, h₂, h₃, h₄⟩

theorem plain_points {s : Str} (h : ∀ c ∈ s, Loads.Plain c.toNat) : ∀ n ∈ points s, Loads.Plain n := by
  intro n hn
  obtain ⟨c, hc, rfl⟩ := List.mem_map.1 hn
  exact h c hc

theorem points_isoformat {t : Time} : ∀ n ∈ points (isoformat t), Loads.Plain n := by
  have hmark : ∀ c ∈ "-:T.+".toList, Loads.Plain c.toNat := by
    have hall : ∀ c ∈ "-:T.+".toList, 0x20 ≤ c.toNat ∧ c.toNat < 0x80 ∧ c.toNat ≠ '"'.toNat ∧ c.toNat ≠ '\\'.toNat := by
      simp
    intro c hc
    obtain ⟨h₁, h₂, h₃, h₄⟩ := hall c hc
    exact ⟨h₁, h₂, h₃, h₄⟩
  exact plain_points (forall_isoformat (fun d hd => plain_of_digit (by omega)) hmark)

theorem points_str {id : UUID} : ∀ n ∈ points (UUID.str id), Loads.Plain n :=
  plain_points (forall_str (fun _ => plain_of_digit) ⟨by decide, by decide, by decide, by decide⟩)

theorem ofNat_points {s : Str} : (points s).map Char.ofNat = s := by
  rw [points, List.map_map]
  exact List.map_id'' (fun c => Char.ofNat_toNat c) _

theorem points_injective : Function.Injective points := by
  intro s s' h
  rw [← @ofNat_points s, ← @ofNat_points s', h]

/-! ## `uuid.UUID` -/

variable {decimal : Char → Option Nat}

theorem remove_of_notMem {p : Char} {pattern s : Str} (h : p ∉ s) : remove (p :: pattern) 0 s = s := by
  induction s with
  | nil => rfl
  | cons c s ih =>
    rw [List.mem_cons, not_or] at h
    have hne : (p == c) = false := beq_eq_false_iff_ne.2 h.1
    have hprefix : (p :: pattern).isPrefixOf (c :: s) = false := by simp [List.isPrefixOf, hne]
    rw [remove, hprefix, ih h.2]
    rfl

theorem stripBy_of_none {p : Char → Bool} {s : Str} (h : ∀ c ∈ s, p c = false) : stripBy p s = s := by
  have hdrop : ∀ t : Str, (∀ c ∈ t, p c = false) → t.dropWhile p = t := by
    intro t ht
    cases t with
    | nil => rfl
    | cons c t => exact List.dropWhile_cons_of_neg (by simp [ht c List.mem_cons_self])
  rw [stripBy, hdrop s h, hdrop _ fun c hc => h c (List.mem_reverse.1 hc), List.reverse_reverse]

/-- A numeral is nothing but digits. -/
theorem int16_numeral {k n : Nat} (hk : 2 ≤ k) : int16 decimal (numeral 16 k n) = (number 16 k (numeral 16 k n)).map Prod.fst := by
  have hdigit : ∀ c ∈ numeral 16 k n, c.toNat < 0x80 ∧ (c = ' ' || (9 ≤ c.toNat && c.toNat ≤ 13)) = false ∧ c ≠ '+' ∧
      c ≠ 'x' ∧ c ≠ 'X' ∧ c ≠ '_' ∧ hexDigit c = true := by
    intro c hc
    obtain ⟨d, hd, rfl⟩ := mem_numeral (by decide) hc
    have hall : ∀ d : Fin 16, (digitChar d).toNat < 0x80 ∧
        (digitChar d = ' ' || (9 ≤ (digitChar d).toNat && (digitChar d).toNat ≤ 13)) = false ∧ digitChar d ≠ '+' ∧
        digitChar d ≠ 'x' ∧ digitChar d ≠ 'X' ∧ digitChar d ≠ '_' ∧ hexDigit (digitChar d) = true := by decide +kernel
    exact hall ⟨d, hd⟩
  have hlen : (numeral 16 k n).length = k := length_numeral
  generalize numeral 16 k n = s at hdigit hlen
  have hascii : toASCII decimal s = s := if_pos (List.all_eq_true.2 fun c hc => decide_eq_true (hdigit c hc).1)
  have hdigits : s.takeWhile (fun c => hexDigit c || c = '_') = s :=
    List.takeWhile_eq_self_iff.2 fun c hc => by simp [hdigit c hc]
  have hrest : s.dropWhile (fun c => hexDigit c || c = '_') = [] :=
    List.dropWhile_eq_nil_iff.2 fun c hc => by simp [hdigit c hc]
  have hfilter : s.filter (· ≠ '_') = s := List.filter_eq_self.2 fun c hc => by simp [hdigit c hc]
  have hgrouped : grouped s = true := by
    simp only [grouped, Bool.and_eq_true, decide_eq_true_eq, List.all_eq_true]
    refine ⟨fun h => ?_, fun p hp => ?_⟩
    · exact (hdigit '_' (List.mem_of_getLast? h)).2.2.2.2.2.1 rfl
    · simp [(hdigit p.1 (List.of_mem_zip hp).1).2.2.2.2.2.1]
  obtain ⟨a, b, rest, rfl⟩ : ∃ a b rest, s = a :: b :: rest := by
    match s, hlen with
    | [], h => exact absurd h (by simp; omega)
    | [_], h => exact absurd h (by simp; omega)
    | a :: b :: rest, _ => exact ⟨a, b, rest, rfl⟩
  have ha := hdigit a List.mem_cons_self
  have hb := hdigit b (List.mem_cons_of_mem _ List.mem_cons_self)
  have hblank : (a :: b :: rest).dropWhile (fun c => c = ' ' || (9 ≤ c.toNat && c.toNat ≤ 13)) = a :: b :: rest :=
    List.dropWhile_cons_of_neg (by simp [ha.2.1])
  have hx : ('x' == b) = false := beq_eq_false_iff_ne.2 (Ne.symm hb.2.2.2.1)
  have hX : ('X' == b) = false := beq_eq_false_iff_ne.2 (Ne.symm hb.2.2.2.2.1)
  have hprefix : (['0', 'x'].isPrefixOf (a :: b :: rest) || ['0', 'X'].isPrefixOf (a :: b :: rest)) = false := by
    simp [List.isPrefixOf, hx, hX]
  have hplus : ((a :: b :: rest).head? = some '+') = False := by simp [ha.2.2.1]
  have hunderscore : ((a :: b :: rest).head? = some '_') = False := by simp [ha.2.2.2.2.2.1]
  simp only [int16, hascii, hblank, hplus, if_false, hprefix, Bool.false_eq_true, Bool.false_and, hdigits, hrest, hunderscore,
    hgrouped, hfilter, hlen]
  simp

theorem uuid_str {id : UUID} : uuid decimal (points (UUID.str id)) = some id := by
  have hu : 'u' ∉ UUID.str id := by
    intro h
    have hall : ∀ d : Fin 16, digitChar d ≠ 'u' := by decide
    exact forall_str (P := fun c => c ≠ 'u') (fun d hd => hall ⟨d, hd⟩) (by decide) 'u' h rfl
  have hbrace : ∀ c ∈ UUID.str id, (c = '{' || c = '}') = false := by
    have hall : ∀ d : Fin 16, (digitChar d = '{' || digitChar d = '}') = false := by decide
    exact forall_str (fun d hd => hall ⟨d, hd⟩) (by decide)
  have hurn : remove "urn:".toList 0 (UUID.str id) = UUID.str id := by
    have hpattern : "urn:".toList = 'u' :: "rn:".toList := by simp
    rw [hpattern, remove_of_notMem hu]
  have huuid : remove "uuid:".toList 0 (UUID.str id) = UUID.str id := by
    have hpattern : "uuid:".toList = 'u' :: "uid:".toList := by simp
    rw [hpattern, remove_of_notMem hu]
  unfold uuid
  simp only [ofNat_points, hurn, huuid, stripBy_of_none hbrace, filter_str, length_numeral, int16_numeral (show 2 ≤ 32 by decide),
    number_str]
  simp [id.isLt]

/-! ## The codec -/

theorem dumps_points {first second : Str} : points (dumps first second) = pairText (points first) (points second) := by
  simp [points, dumps, pairText]

/-- The bytes of a printed cursor are the text it was printed from. -/
theorem decode_stub {t : Time} {id : UUID} :
    urlsafeB64decode (points (encodeCursorStub t (UUID.str id)) ++
        List.replicate ((4 - (points (encodeCursorStub t (UUID.str id))).length % 4) % 4) '='.toNat) =
      .ok (pairText (points (isoformat t)) (points (UUID.str id))) := by
  have hbytes := dumps_plain (@plain_isoformat t) (@plain_str id)
  have hpad : points (encodeCursorStub t (UUID.str id)) ++
      List.replicate ((4 - (points (encodeCursorStub t (UUID.str id))).length % 4) % 4) '='.toNat =
        points (Base64.encode (points (dumps (isoformat t) (UUID.str id)))) := by
    have h := congrArg points (Base64.pad_strip hbytes)
    rw [Base64.pad, points, List.map_append, List.map_replicate] at h
    rw [points, List.length_map]
    exact h
  have hascii : (points (Base64.encode (points (dumps (isoformat t) (UUID.str id))))).all (· < 0x80) = true := by
    rw [List.all_eq_true]
    intro n hn
    obtain ⟨c, hc, rfl⟩ := List.mem_map.1 hn
    exact decide_eq_true (Base64.ascii_encode c hc)
  rw [hpad, urlsafeB64decode, if_pos hascii, ofNat_points, points, Base64.decode_encode hbytes]
  exact congrArg Except.ok dumps_points

theorem readCursor_stub {t : Time} {id : UUID} (h : t < Calendar.limit) :
    readCursor decimal (points (encodeCursorStub t (UUID.str id))) = .ok (t, UUID.str id) := by
  have hread : IsoText.fromisoformat (points (isoformat t)) = some ⟨t, some 0⟩ := IsoText.fromisoformat_isoformat h
  unfold readCursor
  rw [decode_stub]
  simp only [bind, Except.bind, loads_pair (show 0 < nesting by decide) points_isoformat points_str, orValueError,
    hread, uuid_str]
  simp [pure, Except.pure]

theorem decodeCursor_stub {t : Time} {id : UUID} (h : t < Calendar.limit) :
    decodeCursor decimal (points (encodeCursorStub t (UUID.str id))) = .ok (t, UUID.str id) := by
  have hlen : (points (encodeCursorStub t (UUID.str id))).length ≤ 256 := by
    rw [points, List.length_map]
    exact length_encodeCursorStub
  rw [decodeCursor, if_neg (Nat.not_lt.2 hlen), readCursor_stub h]

/-! ## What is raised -/

theorem urlsafeB64decode_spec {s : Text} :
    (∃ payload, urlsafeB64decode s = .ok payload ∧ payload.length ≤ s.length) ∨
      ∃ e, urlsafeB64decode s = .error e ∧ e.isValueError = true := by
  unfold urlsafeB64decode
  split
  · cases hd : Base64.decode (s.map Char.ofNat) with
    | some payload =>
      have := Base64.length_decode hd
      rw [List.length_map] at this
      exact Or.inl ⟨payload, rfl, this⟩
    | none => exact Or.inr ⟨_, rfl, rfl⟩
  · exact Or.inr ⟨_, rfl, rfl⟩

theorem orValueError_ok {α : Type} {x : Option α} {y : α} (h : orValueError x = .ok y) : x = some y := by
  cases x with
  | some x =>
    cases h
    rfl
  | none => cases h

theorem orValueError_error {α : Type} {x : Option α} {e : PyError} (h : orValueError x = .error e) :
    e.isValueError = true := by
  cases x with
  | some x => cases h
  | none =>
    cases h
    rfl

/-- **What the `try` block raises is caught.** -/
theorem readCursor_error {raw : Text} {e : PyError} (hlen : raw.length ≤ 256) (h : readCursor decimal raw = .error e) :
    e.isValueError = true := by
  unfold readCursor at h
  obtain h | ⟨payload, hpayload, h⟩ := bind_eq_error.1 h
  · obtain ⟨payload, hp, -⟩ | ⟨e', he, hv⟩ := @urlsafeB64decode_spec
      (raw ++ List.replicate ((4 - raw.length % 4) % 4) '='.toNat)
    · rw [hp] at h
      cases h
    · rw [he] at h
      cases h
      exact hv
  have hsize : payload.length ≤ nesting := by
    obtain ⟨payload', hp, hle⟩ | ⟨e', he, -⟩ := @urlsafeB64decode_spec
      (raw ++ List.replicate ((4 - raw.length % 4) % 4) '='.toNat)
    · rw [hpayload] at hp
      cases hp
      rw [List.length_append, List.length_replicate] at hle
      unfold nesting
      omega
    · rw [hpayload] at he
      cases he
  obtain h | ⟨decoded, -, h⟩ := bind_eq_error.1 h
  · exact loads_error hsize h
  split at h
  · obtain h | ⟨timestamp, -, h⟩ := bind_eq_error.1 h
    · exact orValueError_error h
    split at h
    · cases h
      rfl
    · obtain h | ⟨id, -, h⟩ := bind_eq_error.1 h
      · exact orValueError_error h
      split at h
      · cases h
        rfl
      · cases h
  · cases h
    rfl

/-- What the `try` block returns prints as the cursor. -/
theorem readCursor_exact {raw : Text} {t : Time} {identifier : Str} (h : readCursor decimal raw = .ok (t, identifier)) :
    points (encodeCursorStub t identifier) = raw ∧ t < Calendar.limit ∧ ∃ id, identifier = UUID.str id := by
  unfold readCursor at h
  obtain ⟨payload, -, h⟩ := bind_eq_ok.1 h
  obtain ⟨decoded, -, h⟩ := bind_eq_ok.1 h
  split at h
  · obtain ⟨timestamp, ht, h⟩ := bind_eq_ok.1 h
    have hstamp := orValueError_ok ht
    split at h
    · cases h
    · obtain ⟨id, -, h⟩ := bind_eq_ok.1 h
      split at h
      · cases h
      · next heq =>
        cases h
        exact ⟨by simpa using heq, IsoText.fromisoformat_lt hstamp, id, rfl⟩
  · cases h

theorem decodeCursor_outcome (decimal : Char → Option Nat) (raw : Text) :
    (∃ t identifier, decodeCursor decimal raw = .ok (t, identifier) ∧ points (encodeCursorStub t identifier) = raw ∧
        t < Calendar.limit ∧ ∃ id, identifier = UUID.str id) ∨
      decodeCursor decimal raw = .error (.api (apiError 422 "invalid_request")) := by
  unfold decodeCursor
  by_cases hlen : 256 < raw.length
  · rw [if_pos hlen]
    exact Or.inr rfl
  · rw [if_neg hlen]
    cases hread : readCursor decimal raw with
    | ok boundary => exact Or.inl ⟨boundary.1, boundary.2, rfl, readCursor_exact hread⟩
    | error e =>
      simp only [readCursor_error (Nat.le_of_not_lt hlen) hread, if_true]
      exact Or.inr trivial

/-! ## The strict decoder -/

/-- What the strict decoder reads is a `datetime`, and prints as the cursor. -/
theorem strict_exact {s : Str} {boundary : Time × Str} (h : Tirke.decodeCursor s = .ok boundary) :
    encodeCursorStub boundary.1 boundary.2 = s ∧ boundary.1 < Calendar.limit ∧ ∃ id, boundary.2 = UUID.str id := by
  unfold Tirke.decodeCursor at h
  split at h
  · cases h
  split at h
  · cases h
  · next b hread =>
    cases h
    unfold Tirke.readCursor at hread
    obtain ⟨payload, -, hread⟩ := Option.bind_eq_some_iff.1 hread
    obtain ⟨data, -, hread⟩ := Option.bind_eq_some_iff.1 hread
    obtain ⟨stamp, hstamp, hread⟩ := Option.bind_eq_some_iff.1 hread
    obtain ⟨offset, -, hread⟩ := Option.bind_eq_some_iff.1 hread
    split at hread
    · cases hread
    obtain ⟨id, -, hread⟩ := Option.bind_eq_some_iff.1 hread
    simp only at hread
    split at hread
    · cases hread
    · next heq =>
      cases hread
      exact ⟨not_not.1 heq, Calendar.fromisoformat_lt hstamp, id, rfl⟩

/-- What is not decoded is an invalid request, for either decoder. -/
theorem strict_error {s : Str} (h : ∀ boundary, Tirke.decodeCursor s ≠ .ok boundary) :
    Tirke.decodeCursor s = .error (apiError 422 "invalid_request") := by
  unfold Tirke.decodeCursor at h ⊢
  by_cases hlen : 256 < s.length
  · rw [if_pos hlen]
  · rw [if_neg hlen] at h ⊢
    cases hread : Tirke.readCursor s with
    | none => rfl
    | some boundary =>
      rw [hread] at h
      exact absurd rfl (h boundary)

/-- It makes no difference that the other decoder reads no more than what is printed. -/
theorem decodeCursor_points (s : Str) : decodeCursor decimal (points s) = (Tirke.decodeCursor s).mapError .api := by
  cases hstrict : Tirke.decodeCursor s with
  | ok boundary =>
    obtain ⟨hprint, hlt, id, hid⟩ := strict_exact hstrict
    rw [← hprint, hid, decodeCursor_stub hlt, ← hid]
    rfl
  | error e =>
    have hnever : ∀ boundary, Tirke.decodeCursor s ≠ .ok boundary := by
      intro boundary h
      rw [hstrict] at h
      cases h
    have herror := strict_error hnever
    rw [hstrict] at herror
    cases herror
    rcases decodeCursor_outcome decimal (points s) with ⟨t, identifier, hdecode, hprint, hlt, id, hid⟩ | h
    · have hread := @Tirke.decodeCursor_stub t id hlt
      rw [← hid, points_injective hprint] at hread
      exact absurd hread (hnever _)
    · rw [h]
      rfl

/-- **The cursor codec.** A printed cursor is short and reads as what it was printed from; and every text reads as a pair
that prints as this very text, or is refused with 422. -/
theorem cursor_codec (decimal : Char → Option Nat) :
    (∀ m : Meeting, m.createdAt < Calendar.limit → (points (encodeCursor m)).length ≤ 256 ∧
      decodeCursor decimal (points (encodeCursor m)) = .ok (m.createdAt, UUID.str m.id)) ∧
    ∀ raw : Text,
      (∃ t identifier, decodeCursor decimal raw = .ok (t, identifier) ∧ points (encodeCursorStub t identifier) = raw) ∨
        decodeCursor decimal raw = .error (.api (apiError 422 "invalid_request")) := by
  refine ⟨fun m hm => ⟨?_, decodeCursor_stub hm⟩, fun raw => ?_⟩
  · rw [points, List.length_map]
    exact length_encodeCursorStub
  · rcases decodeCursor_outcome decimal raw with ⟨t, identifier, hdecode, hprint, -⟩ | h
    · exact Or.inl ⟨t, identifier, hdecode, hprint⟩
    · exact Or.inr h

/-- A meeting created on 24 July 2025 at 10:00:00.5. -/
def sample : Meeting :=
  ⟨⟨['a'], ⟨2025, 7, 24, by decide, by decide, by decide⟩, "UTC".toList, [], true, .auto⟩, 2, 63888948000500000,
    63888948000500000, 1, 0, .queued, none, true,
    .pending, none, ⟨.uploadedAudio, false, none⟩, none⟩

theorem cursor_codec_sample :
    (points (encodeCursor sample)).length ≤ 256 ∧
      decodeCursor (fun _ => none) (points (encodeCursor sample)) = .ok (sample.createdAt, UUID.str sample.id) :=
  (cursor_codec _).1 sample (by decide)

end Tirke.Cursor
