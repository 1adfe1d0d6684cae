import Tirke.Services.Uploads
import Tirke.Lib.Ebml
import Mathlib.Data.Nat.Bitwise
/-!
# The WebM sniffer accepts its grammar

A cursor stands for the bytes from it on, so `vint` at a cursor is read off from what `data.drop` begins with, and a
turn of the loop takes one element off the front of the body.
-/

namespace Tirke

open Ebml

variable {data e rest payload : Bytes} {cursor next stop headerEnd id value : Nat} {size : Bool}

/-! ## Integers -/

/-- `first & mask`, when nothing above the mask is set. -/
theorem and_two_pow_eq_zero {first k : Nat} (h : first < 2 ^ (k + 1)) : first &&& 2 ^ k = 0 ↔ first < 2 ^ k := by
  have hpos : 0 < 2 ^ k := Nat.two_pow_pos k
  rw [Nat.and_two_pow, Nat.testBit_eq_decide_div_mod_eq]
  by_cases hk : first < 2 ^ k
  · simp [Nat.div_eq_of_lt hk, hk]
  · have hdiv : first / 2 ^ k = 1 := by
      rw [pow_succ] at h
      exact Nat.div_eq_of_lt_le (by omega) (by omega)
    simp [hdiv, hk]

/-- The loop stops at the marker, or has gone through all eight bits. -/
theorem vintMarker_spec {first : Nat} (k : Nat) (hk : k ≤ 7) (h : first < 2 ^ (k + 1)) :
    (first = 0 ∧ (vintMarker first (2 ^ k) (8 - k)).2 = 9) ∨
      ∃ n, n ≤ k ∧ vintMarker first (2 ^ k) (8 - k) = (2 ^ n, 8 - n) ∧ 2 ^ n ≤ first ∧ first < 2 ^ (n + 1) := by
  induction k with
  | zero =>
    unfold vintMarker
    by_cases hz : first = 0
    · refine .inl ⟨hz, ?_⟩
      subst hz
      unfold vintMarker
      simp
    · have hand : first &&& 2 ^ 0 ≠ 0 := fun hc => hz (by simpa using (and_two_pow_eq_zero h).1 hc)
      rw [if_neg fun hc => hand hc.2]
      exact .inr ⟨0, Nat.le_refl _, rfl, by omega, h⟩
  | succ k ih =>
    unfold vintMarker
    by_cases hlow : first < 2 ^ (k + 1)
    · have hand : first &&& 2 ^ (k + 1) = 0 := (and_two_pow_eq_zero h).2 hlow
      have hshift : 2 ^ (k + 1) >>> 1 = 2 ^ k := by rw [Nat.shiftRight_eq_div_pow, pow_succ]; omega
      rw [if_pos ⟨by omega, hand⟩, hshift, show 8 - (k + 1) + 1 = 8 - k by omega]
      rcases ih (by omega) hlow with hz | ⟨n, hn, hm⟩
      · exact .inl hz
      · exact .inr ⟨n, by omega, hm⟩
    · have hand : first &&& 2 ^ (k + 1) ≠ 0 := fun hc => hlow ((and_two_pow_eq_zero h).1 hc)
      rw [if_neg fun hc => hand hc.2]
      exact .inr ⟨k + 1, Nat.le_refl _, rfl, by omega, h⟩

/-- The marker of a byte is at its width. -/
theorem vintMarker_byte (first : UInt8) : 8 < (vintMarker first.toNat 0x80 1).2 ∧ first.toNat = 0 ∨
    ∃ n, n ≤ 7 ∧ vintMarker first.toNat 0x80 1 = (2 ^ n, 8 - n) ∧ 2 ^ n ≤ first.toNat ∧ first.toNat < 2 ^ (n + 1) := by
  rcases vintMarker_spec 7 (Nat.le_refl _) (show first.toNat < 2 ^ (7 + 1) from first.toNat_lt) with ⟨hz, h⟩ | h
  · have h' : (vintMarker first.toNat 0x80 1).2 = 9 := h
    exact .inl ⟨by omega, hz⟩
  · exact .inr h

theorem foldl_shift {bs : Bytes} {m : Nat} :
    bs.foldl (fun value byte => (value <<< 8) ||| byte.toNat) m = m * 256 ^ bs.length + number bs := by
  have hstep : (fun (value : Nat) (byte : UInt8) => (value <<< 8) ||| byte.toNat) = fun n b => n * 256 + b.toNat := by
    funext n b
    rw [← Nat.shiftLeft_add_eq_or_of_lt b.toNat_lt, Nat.shiftLeft_eq]
  rw [hstep, foldl_number]

theorem slice_of_drop {tail : Bytes} {first : UInt8} {k : Nat} (h : data.drop cursor = first :: tail) :
    slice data (cursor + 1) (cursor + (k + 1)) = tail.take k := by
  have htail : data.drop (cursor + 1) = tail := by rw [← List.drop_drop, h]; rfl
  rw [slice, List.drop_take, htail]
  congr 1
  omega

/-- What `vint` returns, of what it reads. -/
def reading (size : Bool) (bs : Bytes) : Nat := if size then unmarked bs else number bs

/-- **`vint` reads an integer where there is one**, and nowhere else. -/
theorem vint_ok : vint data cursor size = .ok (value, next) ↔
    ∃ bs rest, data.drop cursor = bs ++ rest ∧ Vint bs ∧ next = cursor + bs.length ∧ value = reading size bs := by
  unfold vint
  by_cases hlen : data.length ≤ cursor
  · rw [if_pos hlen, List.drop_of_length_le hlen]
    constructor
    · nofun
    · rintro ⟨bs, rest, hd, hv, -⟩
      exact absurd (List.append_eq_nil_iff.1 hd.symm).1 hv.ne_nil
  rw [if_neg hlen]
  have hlt : cursor < data.length := by omega
  obtain ⟨first, tail, hd⟩ : ∃ first tail, data.drop cursor = first :: tail :=
    ⟨_, _, List.drop_eq_getElem_cons hlt⟩
  have hfirst : data[cursor]? = some first := by
    have h0 : (data.drop cursor)[0]? = some first := by rw [hd]; rfl
    rwa [List.getElem?_drop, Nat.add_zero] at h0
  have htail : data.length = cursor + (tail.length + 1) := by
    have := congrArg List.length hd
    simp only [List.length_drop, List.length_cons] at this
    omega
  rw [hfirst, hd]
  dsimp only
  rcases vintMarker_byte first with ⟨hbad, hz⟩ | ⟨n, hn, hm, hlow, hhigh⟩
  · rw [if_pos (.inl hbad)]
    constructor
    · nofun
    · rintro ⟨bs, rest, heq, hv, -⟩
      cases hv with
      | mk b bs' _ hl =>
        cases heq
        have : 0 < 2 ^ (7 - bs'.length) := Nat.two_pow_pos _
        omega
  rw [hm]
  dsimp only
  -- the marker fixes the width
  have hwidth : ∀ bs' rest, tail = bs' ++ rest → Vint (first :: bs') → bs'.length = 7 - n := by
    intro bs' rest _ hv
    cases hv with
    | mk _ _ hl hlo hhi =>
      have h₁ : 7 - bs'.length < n + 1 := (Nat.pow_lt_pow_iff_right (by omega)).1 (Nat.lt_of_le_of_lt hlo hhigh)
      have h₂ : n < 8 - bs'.length := (Nat.pow_lt_pow_iff_right (by omega)).1 (Nat.lt_of_le_of_lt hlow hhi)
      omega
  by_cases hfit : data.length < cursor + (8 - n)
  · rw [if_pos (.inr hfit)]
    constructor
    · nofun
    · rintro ⟨bs, rest, heq, hv, -⟩
      obtain ⟨b, bs', rfl⟩ := List.exists_cons_of_ne_nil hv.ne_nil
      rw [List.cons_append] at heq
      obtain ⟨rfl, rfl⟩ := List.cons.inj heq
      have := hwidth bs' rest rfl hv
      rw [List.length_append] at htail
      omega
  rw [if_neg (by omega)]
  have hvint : Vint (first :: tail.take (7 - n)) := by
    have hl : (tail.take (7 - n)).length = 7 - n := by rw [List.length_take]; omega
    refine .mk _ _ (by omega) ?_ ?_ <;> rw [hl]
    · rwa [show 7 - (7 - n) = n by omega]
    · rwa [show 8 - (7 - n) = n + 1 by omega]
  have hl : (tail.take (7 - n)).length = 7 - n := by rw [List.length_take]; omega
  have hvalue : (slice data (cursor + 1) (cursor + (8 - n))).foldl (fun value byte => (value <<< 8) ||| byte.toNat)
      (if size then first.toNat &&& (2 ^ n - 1) else first.toNat) = reading size (first :: tail.take (7 - n)) := by
    rw [show 8 - n = 7 - n + 1 by omega, slice_of_drop hd, foldl_shift]
    cases size with
    | true =>
      rw [reading, if_pos rfl, if_pos rfl, unmarked_cons hvint, Nat.and_two_pow_sub_one_eq_mod, hl,
        show 7 - (7 - n) = n by omega]
    | false =>
      rw [reading, if_neg Bool.false_ne_true, if_neg Bool.false_ne_true, number_cons]
  rw [hvalue]
  constructor
  · intro h
    cases h
    refine ⟨first :: tail.take (7 - n), tail.drop (7 - n), ?_, hvint, ?_, rfl⟩
    · rw [List.cons_append, List.take_append_drop]
    · rw [List.length_cons, hl]
      omega
  · rintro ⟨bs, rest, heq, hv, rfl, rfl⟩
    obtain ⟨b, bs', rfl⟩ := List.exists_cons_of_ne_nil hv.ne_nil
    rw [List.cons_append] at heq
    obtain ⟨rfl, rfl⟩ := List.cons.inj heq
    have hlen' := hwidth bs' rest rfl hv
    rw [List.take_left' hlen', List.length_cons, hlen', show 7 - n + 1 = 8 - n by omega]

/-- It indexes inside the buffer. -/
theorem vint_error {err : SniffError} (h : vint data cursor size = .error err) : err = .value := by
  unfold vint at h
  split at h
  · cases h; rfl
  next hlen =>
  rw [List.getElem?_eq_getElem (by omega)] at h
  dsimp only at h
  split at h
  · cases h; rfl
  · cases h

/-! ## Elements -/

variable (data) in
/-- A body is what follows the cursor, up to its end. -/
theorem drop_eq_slice_append (h : cursor ≤ headerEnd) : data.drop cursor = slice data cursor headerEnd ++ data.drop headerEnd := by
  have hrest : data.drop headerEnd = (data.drop cursor).drop (headerEnd - cursor) := by
    rw [List.drop_drop, Nat.add_sub_cancel' h]
  rw [slice, List.drop_take, hrest, List.take_append_drop]

theorem slice_split (hd : data.drop cursor = e ++ data.drop stop) (hs : cursor + e.length = stop) (h : stop ≤ headerEnd) :
    slice data cursor headerEnd = e ++ slice data stop headerEnd := by
  have htake : ∀ n, slice data n headerEnd = (data.drop n).take (headerEnd - n) := fun n => List.drop_take
  rw [htake, htake, hd, List.take_append, List.take_of_length_le (by omega)]
  congr 2
  omega

/-- Reading the two integers of an element is finding an element. -/
theorem element_of_vint (hid : vint data cursor false = .ok (id, next)) (hsize : vint data next true = .ok (value, stop))
    (h : stop + value ≤ data.length) : ∃ e, data.drop cursor = e ++ data.drop (stop + value) ∧
      cursor + e.length = stop + value ∧ Element e id (slice data stop (stop + value)) := by
  obtain ⟨i, rest, hi, hvi, rfl, rfl⟩ := vint_ok.1 hid
  obtain ⟨s, rest', hs, hvs, rfl, rfl⟩ := vint_ok.1 hsize
  have hrest : rest = s ++ rest' := by
    rw [← List.drop_drop, hi, List.drop_left] at hs
    exact hs
  subst hrest
  have hpayload : data.drop (cursor + i.length + s.length) = rest' := by
    rw [← List.drop_drop, hs, List.drop_left]
  have hlen : (slice data (cursor + i.length + s.length) (cursor + i.length + s.length + reading true s)).length =
      reading true s := by
    rw [slice, List.length_drop, List.length_take]
    omega
  refine ⟨i ++ s ++ slice data (cursor + i.length + s.length) (cursor + i.length + s.length + reading true s), ?_, ?_,
    .mk hvi hvs hlen⟩
  · rw [hi, List.append_assoc (i ++ s), ← drop_eq_slice_append _ (Nat.le_add_right _ _), hpayload, List.append_assoc]
  · rw [List.length_append, List.length_append, hlen]
    omega

/-- Where an element is, both its integers are read. -/
theorem vint_of_element (h : Element e id payload) (hd : data.drop cursor = e ++ rest) : ∃ next stop,
    vint data cursor false = .ok (id, next) ∧ vint data next true = .ok (payload.length, stop) ∧
      stop + payload.length = cursor + e.length ∧ slice data stop (stop + payload.length) = payload := by
  cases h with
  | @mk i s _ hi hs hp =>
    have hi' : data.drop cursor = i ++ (s ++ (payload ++ rest)) := by rw [hd]; simp
    have hs' : data.drop (cursor + i.length) = s ++ (payload ++ rest) := by rw [← List.drop_drop, hi', List.drop_left]
    have hp' : data.drop (cursor + i.length + s.length) = payload ++ rest := by rw [← List.drop_drop, hs', List.drop_left]
    refine ⟨_, _, vint_ok.2 ⟨i, _, hi', hi, rfl, rfl⟩, vint_ok.2 ⟨s, _, hs', hs, rfl, hp⟩, ?_, ?_⟩
    · simp only [List.length_append]
      omega
    · rw [slice, List.drop_take, hp', show ∀ a b : Nat, a + b - a = b from fun a b => by omega, List.take_left]

variable {p : Bytes} {x : Nat}

variable (id) in
/-- Without two integers and room for the payload, there is no first element. -/
theorem not_first (hc : cursor < headerEnd) (hl : headerEnd ≤ data.length)
    (h : ∀ next stop k, vint data cursor false = .ok (id, next) → vint data next true = .ok (k, stop) → stop + k ≤ headerEnd →
      False) (hx : ∀ next other, vint data cursor false = .ok (other, next) → other = id) :
    ¬ First x p (slice data cursor headerEnd) := by
  intro hf
  have hd := drop_eq_slice_append data (Nat.le_of_lt hc)
  have hno : ∀ {e rest other payload}, slice data cursor headerEnd = e ++ rest → Element e other payload → False := by
    intro e rest other payload hb he
    obtain ⟨next, stop, h₁, h₂, hstop, -⟩ := vint_of_element he
      (show data.drop cursor = e ++ (rest ++ data.drop headerEnd) by rw [hd, hb, List.append_assoc])
    obtain rfl := hx _ _ h₁
    have hlen := congrArg List.length hb
    rw [slice, List.length_drop, List.length_take, List.length_append] at hlen
    exact h next stop _ h₁ h₂ (by omega)
  rcases hf.cases with ⟨e, after, hb, he⟩ | ⟨e, other, content, rest, hb, he, -⟩
  · exact hno hb he
  · exact hno hb he

/-- **One turn of the loop**: the element at the cursor decides, or is passed over. -/
theorem first_iff (hid : vint data cursor false = .ok (id, next)) (hsize : vint data next true = .ok (value, stop))
    (hfit : stop + value ≤ headerEnd) (hl : headerEnd ≤ data.length) : First x p (slice data cursor headerEnd) ↔
      if id = x then slice data stop (stop + value) = p else First x p (slice data (stop + value) headerEnd) := by
  obtain ⟨e, hd, hlen, he⟩ := element_of_vint hid hsize (Nat.le_trans hfit hl)
  have hbody := slice_split hd hlen hfit
  constructor
  · intro hf
    have hd' := drop_eq_slice_append data (show cursor ≤ headerEnd by omega)
    -- any element at the front is the one that was read
    have hsame : ∀ {e' rest other payload}, slice data cursor headerEnd = e' ++ rest → Element e' other payload →
        other = id ∧ payload = slice data stop (stop + value) ∧ rest = slice data (stop + value) headerEnd := by
      intro e' rest other payload hb he'
      obtain ⟨next', stop', h₁, h₂, hstop, hpay⟩ := vint_of_element he'
        (show data.drop cursor = e' ++ (rest ++ data.drop headerEnd) by rw [hd', hb, List.append_assoc])
      rw [hid] at h₁
      cases h₁
      rw [hsize] at h₂
      cases h₂
      refine ⟨rfl, hpay.symm, ?_⟩
      rw [hbody] at hb
      exact (List.append_inj hb (by omega)).2.symm
    rcases hf.cases with ⟨e', after, hb, he'⟩ | ⟨e', other, content, rest, hb, he', hne, hrest⟩
    · obtain ⟨rfl, rfl, -⟩ := hsame hb he'
      rw [if_pos rfl]
    · obtain ⟨rfl, -, rfl⟩ := hsame hb he'
      rwa [if_neg hne]
  · intro h
    rw [hbody]
    split at h
    · next hx =>
      subst hx h
      exact .here he _
    · next hx => exact .later he hx h

/-- The loop's own `ValueError` is all it raises, and it accepts the bodies of the grammar. -/
theorem elements_spec (hl : headerEnd ≤ data.length) : (∀ err, elements data headerEnd cursor = .error err → err = .value) ∧
    (elements data headerEnd cursor = .ok true ↔ First 0x4282 webmDoctype (slice data cursor headerEnd)) := by
  fun_induction elements data headerEnd cursor with
  | case1 cursor hc err hid =>
    refine ⟨fun err' h => ?_, ?_⟩
    · cases h
      exact vint_error hid
    · refine ⟨nofun, fun h => absurd h (not_first 0 hc hl ?_ ?_)⟩
      · intro next stop k h₁
        rw [hid] at h₁
        cases h₁
      · intro next other h₁
        rw [hid] at h₁
        cases h₁
  | case2 cursor hc id next hid err hsize =>
    refine ⟨fun err' h => ?_, ?_⟩
    · cases h
      exact vint_error hsize
    · refine ⟨nofun, fun h => absurd h (not_first id hc hl ?_ ?_)⟩
      · intro next' stop k h₁ h₂
        rw [hid] at h₁
        cases h₁
        rw [hsize] at h₂
        cases h₂
      · intro next' other h₁
        rw [hid] at h₁
        cases h₁
        rfl
  | case3 cursor hc id next hid value stop hsize hfit =>
    refine ⟨nofun, nofun, fun h => absurd h (not_first id hc hl ?_ ?_)⟩
    · intro next' stop' k h₁ h₂ h₃
      rw [hid] at h₁
      cases h₁
      rw [hsize] at h₂
      cases h₂
      omega
    · intro next' other h₁
      rw [hid] at h₁
      cases h₁
      rfl
  | case4 cursor hc next value stop hsize hfit hid =>
    refine ⟨nofun, ?_⟩
    rw [first_iff hid hsize (by omega) hl, if_pos rfl]
    simp
  | case5 cursor hc id next hid value stop hsize hfit hne ih =>
    refine ⟨ih.1, ?_⟩
    rw [first_iff hid hsize (by omega) hl, if_neg hne]
    exact ih.2
  | case6 cursor hc =>
    refine ⟨nofun, nofun, fun h => ?_⟩
    have hnil : slice data cursor headerEnd = [] := List.drop_eq_nil_of_le (by rw [List.length_take]; omega)
    rw [hnil] at h
    obtain ⟨before, l, e, after, hb, -, -, he⟩ := h
    have hpos := he.length_pos
    have hlen := congrArg List.length hb
    simp only [List.length_append, List.length_nil] at hlen
    omega

/-! ## The file -/

/-- A header of the magic, its size, and a body whose first document type is `webm`. -/
def WebmHeader (data : Bytes) : Prop := ∃ size body rest, data = ebmlMagic ++ (size ++ (body ++ rest)) ∧ Vint size ∧
  unmarked size = body.length ∧ First 0x4282 webmDoctype body

theorem sniff_spec (data : Bytes) : ∃ b, sniff data = .ok b ∧ (b = true ↔ WebmHeader data) := by
  have hfalse : ¬ WebmHeader data → ∃ b, (.ok false : Except SniffError Bool) = .ok b ∧ (b = true ↔ WebmHeader data) :=
    fun h => ⟨false, rfl, nofun, fun hw => absurd hw h⟩
  unfold sniff
  by_cases hmagic : ebmlMagic.isPrefixOf data = true
  swap
  · rw [if_neg hmagic]
    refine hfalse ?_
    rintro ⟨size, body, rest, rfl, -⟩
    exact hmagic (List.isPrefixOf_iff_prefix.2 (List.prefix_append _ _))
  rw [if_pos hmagic]
  obtain ⟨tail, rfl⟩ := List.isPrefixOf_iff_prefix.1 hmagic
  have htail : (ebmlMagic ++ tail).drop 4 = tail := List.drop_left' rfl
  have hread : ∀ {size body rest}, tail = size ++ (body ++ rest) → Vint size → unmarked size = body.length →
      vint (ebmlMagic ++ tail) 4 true = .ok (body.length, 4 + size.length) := fun ht hv hs =>
    vint_ok.2 ⟨_, _, htail.trans ht, hv, rfl, hs.symm⟩
  have hsplit : ∀ {size body rest}, ebmlMagic ++ tail = ebmlMagic ++ (size ++ (body ++ rest)) →
      tail = size ++ (body ++ rest) := fun h => List.append_cancel_left h
  cases hv : vint (ebmlMagic ++ tail) 4 true with
  | error err =>
    rw [vint_error hv]
    refine hfalse ?_
    rintro ⟨size, body, rest, ht, hsize, hlen, -⟩
    rw [hread (hsplit ht) hsize hlen] at hv
    cases hv
  | ok x =>
    obtain ⟨headerSize, cursor⟩ := x
    simp only [bind, Except.bind]
    by_cases hfit : (ebmlMagic ++ tail).length < cursor + headerSize
    · rw [if_pos hfit]
      refine hfalse ?_
      rintro ⟨size, body, rest, ht, hsize, hlen, -⟩
      rw [hread (hsplit ht) hsize hlen] at hv
      cases hv
      rw [hsplit ht] at hfit
      simp only [List.length_append] at hfit
      have : ebmlMagic.length = 4 := rfl
      omega
    rw [if_neg hfit]
    obtain ⟨herror, hok⟩ := @elements_spec (ebmlMagic ++ tail) cursor (cursor + headerSize) (by omega)
    have hwebm : WebmHeader (ebmlMagic ++ tail) ↔
        First 0x4282 webmDoctype (slice (ebmlMagic ++ tail) cursor (cursor + headerSize)) := by
      obtain ⟨size, rest, hd, hsize, rfl, rfl⟩ := vint_ok.1 hv
      rw [htail] at hd
      have hrest : (ebmlMagic ++ tail).drop (4 + size.length) = rest := by
        rw [← List.drop_drop, htail, hd, List.drop_left]
      have hbody := drop_eq_slice_append (ebmlMagic ++ tail) (Nat.le_add_right (4 + size.length) (reading true size))
      rw [hrest] at hbody
      constructor
      · rintro ⟨size', body, rest', ht, hsize', hlen, hfirst⟩
        have hv' := hread (hsplit ht) hsize' hlen
        rw [hv] at hv'
        simp only [Except.ok.injEq, Prod.mk.injEq] at hv'
        have hcat : size ++ rest = size' ++ (body ++ rest') := hd.symm.trans (hsplit ht)
        obtain ⟨rfl, rfl⟩ := List.append_inj hcat (by omega)
        rw [show reading true size = body.length from hv'.1] at hbody ⊢
        rw [show slice (ebmlMagic ++ tail) (4 + size.length) (4 + size.length + body.length) = body from ?_]
        · exact hfirst
        · rw [slice, List.drop_take, hrest, Nat.add_sub_cancel_left, List.take_left]
      · intro hfirst
        refine ⟨size, _, (ebmlMagic ++ tail).drop (4 + size.length + reading true size), ?_, hsize, ?_, hfirst⟩
        · rw [← hbody, ← hd]
        · rw [slice, List.length_drop, List.length_take]
          show reading true size = _
          omega
    rw [hwebm]
    cases he : elements (ebmlMagic ++ tail) (cursor + headerSize) cursor with
    | error err =>
      rw [herror err he]
      rw [he] at hok
      exact ⟨false, rfl, nofun, fun h => nomatch hok.2 h⟩
    | ok b =>
      refine ⟨b, rfl, ?_⟩
      rw [he] at hok
      rw [← hok, Except.ok.injEq]

/-- **The sniffer accepts exactly its grammar.** Of every file it returns, without an exception, whether its first 4096
bytes begin with a WebM header; a file that cannot be read is none. -/
theorem webm_sniffer_exact : (∀ data, ∃ b, sniff data = .ok b ∧ (b = true ↔ WebmHeader data)) ∧
    (∀ content : Bytes, ∃ b, hasWebmDoctype (some content) = .ok b ∧ (b = true ↔ WebmHeader (content.take 4096))) ∧
    hasWebmDoctype none = .ok false :=
  ⟨sniff_spec, fun content => sniff_spec (content.take 4096), rfl⟩

end Tirke
