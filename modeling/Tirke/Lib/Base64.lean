import Mathlib.Data.List.Basic
/-!
# Base64 with the URL-safe alphabet

Bytes are numbers below 256. `encode` pads to whole groups of four characters. `decode` is the lenient reader of a
scripting language: characters outside the alphabet are skipped, both alphabets are understood, and reading stops at the
padding. `decode_encode` is the round trip, `pad_strip` the one over a text whose padding was cut off.
-/

namespace Base64

def alphabet : List Char := "ABCDEFGHIJKLMNOPQRSTUVWXYZabcdefghijklmnopqrstuvwxyz0123456789-_".toList

/-- The character of six bits. -/
def sextet (n : Nat) : Char := alphabet.getD n 'A'

/-- The six bits of a character, in either alphabet. -/
def value (c : Char) : Option Nat :=
  if c = '+' then some 62 else if c = '/' then some 63 else alphabet.findIdx? (· = c)

def encode : List Nat → List Char
  | a :: b :: c :: rest =>
    sextet (a / 4) :: sextet (a % 4 * 16 + b / 16) :: sextet (b % 16 * 4 + c / 64) :: sextet (c % 64) :: encode rest
  | [a, b] => [sextet (a / 4), sextet (a % 4 * 16 + b / 16), sextet (b % 16 * 4), '=']
  | [a] => [sextet (a / 4), sextet (a % 4 * 16), '=', '=']
  | [] => []

/-- `quad` characters of the group are read, `left` are the bits of the last one that are not out yet, and `pads`
padding characters were seen since. -/
def decodeFrom (quad left pads : Nat) : List Char → Option (List Nat)
  | [] => if quad = 0 then some [] else none
  | c :: cs =>
    if c = '=' then
      if 2 ≤ quad then
        if 4 ≤ quad + (pads + 1) then some [] else decodeFrom quad left (pads + 1) cs
      else decodeFrom quad left pads cs
    else match value c with
      | none => decodeFrom quad left pads cs
      | some v => match quad with
        | 0 => decodeFrom 1 v 0 cs
        | 1 => (decodeFrom 2 (v % 16) 0 cs).map ((left * 4 + v / 16) :: ·)
        | 2 => (decodeFrom 3 (v % 4) 0 cs).map ((left * 16 + v / 4) :: ·)
        | _ => (decodeFrom 0 0 0 cs).map ((left * 64 + v) :: ·)

def decode : List Char → Option (List Nat) := decodeFrom 0 0 0

/-! ## The round trip -/

theorem value_sextet {n : Nat} (h : n < 64) : value (sextet n) = some n ∧ sextet n ≠ '=' := by
  have hall : ∀ n : Fin 64, value (sextet n) = some n.val ∧ sextet n ≠ '=' := by decide +kernel
  exact hall ⟨n, h⟩

section
variable {n left pads : Nat} {cs : List Char}

theorem decodeFrom_zero (h : n < 64) : decodeFrom 0 left pads (sextet n :: cs) = decodeFrom 1 n 0 cs := by
  obtain ⟨hv, he⟩ := value_sextet h
  simp only [decodeFrom, if_neg he, hv]

theorem decodeFrom_one (h : n < 64) :
    decodeFrom 1 left pads (sextet n :: cs) = (decodeFrom 2 (n % 16) 0 cs).map ((left * 4 + n / 16) :: ·) := by
  obtain ⟨hv, he⟩ := value_sextet h
  simp only [decodeFrom, if_neg he, hv]

theorem decodeFrom_two (h : n < 64) :
    decodeFrom 2 left pads (sextet n :: cs) = (decodeFrom 3 (n % 4) 0 cs).map ((left * 16 + n / 4) :: ·) := by
  obtain ⟨hv, he⟩ := value_sextet h
  simp only [decodeFrom, if_neg he, hv]

theorem decodeFrom_three (h : n < 64) :
    decodeFrom 3 left pads (sextet n :: cs) = (decodeFrom 0 0 0 cs).map ((left * 64 + n) :: ·) := by
  obtain ⟨hv, he⟩ := value_sextet h
  simp only [decodeFrom, if_neg he, hv]

end

/-- **What was encoded is read back.** -/
theorem decode_encode {bs : List Nat} (h : ∀ b ∈ bs, b < 256) : decode (encode bs) = some bs := by
  fun_induction encode bs with
  | case1 a b c rest ih =>
    have ha : a < 256 := h a (by simp)
    have hb : b < 256 := h b (by simp)
    have hc : c < 256 := h c (by simp)
    have hrest : decodeFrom 0 0 0 (encode rest) = some rest := ih fun x hx => h x (by simp [hx])
    rw [decode, decodeFrom_zero (by omega), decodeFrom_one (by omega), decodeFrom_two (by omega),
      decodeFrom_three (by omega), hrest]
    simp only [Option.map_some, Option.some.injEq, List.cons.injEq, and_true]
    omega
  | case2 a b =>
    have ha : a < 256 := h a (by simp)
    have hb : b < 256 := h b (by simp)
    rw [decode, decodeFrom_zero (by omega), decodeFrom_one (by omega), decodeFrom_two (by omega)]
    simp only [decodeFrom, if_true, Nat.reduceLeDiff, Nat.reduceAdd, Nat.le_refl, Option.map_some, Option.some.injEq,
      List.cons.injEq, and_true]
    omega
  | case3 a =>
    have ha : a < 256 := h a (by simp)
    rw [decode, decodeFrom_zero (by omega), decodeFrom_one (by omega)]
    simp only [decodeFrom, if_true, Nat.reduceLeDiff, Nat.reduceAdd, Nat.le_refl, if_false, Option.map_some,
      Option.some.injEq, List.cons.injEq, and_true]
    omega
  | case4 => rfl

theorem length_encode {bs : List Nat} : (encode bs).length = (bs.length + 2) / 3 * 4 := by
  fun_induction encode bs with
  | case1 a b c rest ih => simp only [List.length_cons, ih]; omega
  | case2 | case3 => simp only [List.length_cons, List.length_nil]
  | case4 => rfl

theorem length_map_cons {n k : Nat} {o : Option (List Nat)} {bs : List Nat} (h : o.map (n :: ·) = some bs)
    (hlen : ∀ {u}, o = some u → u.length ≤ k) : bs.length ≤ k + 1 := by
  obtain ⟨u, hu, rfl⟩ := Option.map_eq_some_iff.1 h
  exact Nat.succ_le_succ (hlen hu)

theorem length_decodeFrom {quad left pads : Nat} {s : List Char} {bs : List Nat} (h : decodeFrom quad left pads s = some bs) :
    bs.length ≤ s.length := by
  fun_induction decodeFrom quad left pads s generalizing bs with
  | case1 | case3 =>
    cases h
    exact Nat.zero_le _
  | case2 => cases h
  | case4 | case5 | case6 | case7 =>
    rename_i ih
    exact Nat.le_succ_of_le (ih h)
  | _ =>
    rename_i ih
    exact length_map_cons h ih

theorem length_decode {s : List Char} {bs : List Nat} (h : decode s = some bs) : bs.length ≤ s.length := length_decodeFrom h

/-! ## Cutting the padding off -/

/-- `rstrip("=")`. -/
def strip (s : List Char) : List Char := (s.reverse.dropWhile (· = '=')).reverse

/-- `s + "=" * (-len(s) % 4)`. -/
def pad (s : List Char) : List Char := s ++ List.replicate ((4 - s.length % 4) % 4) '='

theorem strip_append {s : List Char} {n : Nat} (h : ∀ c ∈ s, c ≠ '=') : strip (s ++ List.replicate n '=') = s := by
  have hdrop : ∀ t : List Char, (∀ c ∈ t, c ≠ '=') → (List.replicate n '=' ++ t).dropWhile (· = '=') = t := by
    intro t ht
    induction n with
    | zero =>
      cases t with
      | nil => rfl
      | cons c t => simp [ht c List.mem_cons_self]
    | succ n ih => simpa [List.replicate_succ, List.dropWhile_cons] using ih
  rw [strip, List.reverse_append, List.reverse_replicate, hdrop _ fun c hc => h c (List.mem_reverse.1 hc),
    List.reverse_reverse]

/-- The padding is all that is cut off. -/
theorem encode_padded {bs : List Nat} (h : ∀ b ∈ bs, b < 256) : ∃ s n, encode bs = s ++ List.replicate n '=' ∧
    (∀ c ∈ s, c ≠ '=') ∧ n = (4 - s.length % 4) % 4 := by
  fun_induction encode bs with
  | case1 a b c rest ih =>
    have ha : a < 256 := h a (by simp)
    have hb : b < 256 := h b (by simp)
    have hc : c < 256 := h c (by simp)
    obtain ⟨s, n, hs, hne, hn⟩ := ih fun x hx => h x (by simp [hx])
    refine ⟨_ :: _ :: _ :: _ :: s, n, by rw [hs]; rfl, ?_, by simp only [List.length_cons]; omega⟩
    simp only [List.forall_mem_cons]
    exact ⟨(value_sextet (by omega)).2, (value_sextet (by omega)).2, (value_sextet (by omega)).2,
      (value_sextet (by omega)).2, hne⟩
  | case2 a b =>
    have ha : a < 256 := h a (by simp)
    have hb : b < 256 := h b (by simp)
    refine ⟨[_, _, _], 1, rfl, ?_, rfl⟩
    simp only [List.forall_mem_cons]
    exact ⟨(value_sextet (by omega)).2, (value_sextet (by omega)).2, (value_sextet (by omega)).2, nofun⟩
  | case3 a =>
    have ha : a < 256 := h a (by simp)
    refine ⟨[_, _], 2, rfl, ?_, rfl⟩
    simp only [List.forall_mem_cons]
    exact ⟨(value_sextet (by omega)).2, (value_sextet (by omega)).2, nofun⟩
  | case4 => exact ⟨[], 0, rfl, nofun, rfl⟩

theorem pad_strip {bs : List Nat} (h : ∀ b ∈ bs, b < 256) : pad (strip (encode bs)) = encode bs := by
  obtain ⟨s, n, hs, hne, hn⟩ := encode_padded h
  rw [hs, strip_append hne, pad, ← hn]

theorem length_strip {s : List Char} : (strip s).length ≤ s.length := by
  simpa [strip] using (List.dropWhile_suffix (l := s.reverse) (p := (· = '='))).length_le

/-! ## Plain characters -/

theorem ascii_sextet {n : Nat} : (sextet n).toNat < 128 := by
  have hall : ∀ n : Fin 64, (sextet n).toNat < 128 := by decide +kernel
  by_cases h : n < 64
  · exact hall ⟨n, h⟩
  · have hlen : alphabet.length ≤ n := by
      have : alphabet.length = 64 := by decide +kernel
      omega
    rw [sextet, List.getD_eq_getElem?_getD, List.getElem?_eq_none hlen]
    decide

theorem ascii_encode {bs : List Nat} : ∀ c ∈ encode bs, c.toNat < 128 := by
  fun_induction encode bs with
  | case1 a b c rest ih => simpa only [List.forall_mem_cons, ascii_sextet, true_and] using ih
  | case2 a b => simp [ascii_sextet]
  | case3 a => simp [ascii_sextet]
  | case4 => nofun

theorem mem_strip {s : List Char} {c : Char} (h : c ∈ strip s) : c ∈ s := by
  have := (List.dropWhile_suffix (l := s.reverse) (p := (· = '='))).subset (List.mem_reverse.1 h)
  exact List.mem_reverse.1 this

end Base64
