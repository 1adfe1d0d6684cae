import Tirke.Lib.JsonText
import Mathlib.Data.List.Nodup
import Mathlib.Data.String.Basic
/-!
# Canonical JSON

`canonical` prints a value with the fields of every object in the order of their names. `Same` is equality of values up
to the order of fields. Two values with one canonical text are the same (`canonical_injective`), and the same value has
one canonical text where no object has a name twice (`canonical_iff`).
-/

namespace Json

/-! ## Order -/

def byName (f g : String × Json) : Bool := f.1 ≤ g.1

mutual

/-- The value with the fields of every object in the order of their names. -/
def sorted : Json → Json
  | .arr xs => .arr (sortedItems xs)
  | .obj fs => .obj ((sortedFields fs).mergeSort byName)
  | j => j

def sortedItems : List Json → List Json
  | [] => []
  | x :: xs => sorted x :: sortedItems xs

def sortedFields : List (String × Json) → List (String × Json)
  | [] => []
  | (k, x) :: fs => (k, sorted x) :: sortedFields fs

end

def canonical (j : Json) : List Char := print j.sorted

/-- The same value, but for the order of fields. -/
inductive Same : Json → Json → Prop where
  | refl (j : Json) : Same j j
  | symm {a b : Json} (h : Same a b) : Same b a
  | trans {a b c : Json} (h : Same a b) (h' : Same b c) : Same a c
  | item (xs ys : List Json) {a b : Json} (h : Same a b) : Same (.arr (xs ++ a :: ys)) (.arr (xs ++ b :: ys))
  | field (fs gs : List (String × Json)) (k : String) {a b : Json} (h : Same a b) :
      Same (.obj (fs ++ (k, a) :: gs)) (.obj (fs ++ (k, b) :: gs))
  | order {fs gs : List (String × Json)} (h : fs.Perm gs) : Same (.obj fs) (.obj gs)

mutual

/-- No object in the value has a name twice. -/
def Keyed : Json → Prop
  | .arr xs => KeyedItems xs
  | .obj fs => (fs.map Prod.fst).Nodup ∧ KeyedFields fs
  | _ => True

def KeyedItems : List Json → Prop
  | [] => True
  | x :: xs => Keyed x ∧ KeyedItems xs

def KeyedFields : List (String × Json) → Prop
  | [] => True
  | (_, x) :: fs => Keyed x ∧ KeyedFields fs

end

theorem sortedItems_eq {xs : List Json} : sortedItems xs = xs.map sorted := by
  induction xs with
  | nil => rfl
  | cons x xs ih => rw [sortedItems, ih, List.map_cons]

theorem sortedFields_eq {fs : List (String × Json)} : sortedFields fs = fs.map fun f => (f.1, f.2.sorted) := by
  induction fs with
  | nil => rfl
  | cons f fs ih => rw [sortedFields, ih, List.map_cons]

theorem keyedItems_iff {xs : List Json} : KeyedItems xs ↔ ∀ x ∈ xs, Keyed x := by
  induction xs with
  | nil => simp [KeyedItems]
  | cons x xs ih => simp [KeyedItems, ih]

theorem keyedFields_iff {fs : List (String × Json)} : KeyedFields fs ↔ ∀ f ∈ fs, Keyed f.2 := by
  induction fs with
  | nil => simp [KeyedFields]
  | cons f fs ih => simp [KeyedFields, ih]

/-! ## Sorting keeps the value -/

mutual

theorem same_sorted : ∀ j : Json, Same j j.sorted
  | .arr xs => same_sortedItems xs []
  | .obj fs => .trans (same_sortedFields fs []) (.order (List.mergeSort_perm _ _).symm)
  | .null | .bool _ | .int _ | .float _ | .str _ => .refl _

theorem same_sortedItems : ∀ xs ys : List Json, Same (.arr (ys ++ xs)) (.arr (ys ++ sortedItems xs))
  | [], ys => .refl _
  | x :: xs, ys => by
    have hrest := same_sortedItems xs (ys ++ [x.sorted])
    rw [List.append_assoc, List.append_assoc, List.singleton_append, List.singleton_append] at hrest
    exact .trans (.item ys xs (same_sorted x)) hrest

theorem same_sortedFields : ∀ fs gs : List (String × Json), Same (.obj (gs ++ fs)) (.obj (gs ++ sortedFields fs))
  | [], gs => .refl _
  | (k, x) :: fs, gs => by
    have hrest := same_sortedFields fs (gs ++ [(k, x.sorted)])
    rw [List.append_assoc, List.append_assoc, List.singleton_append, List.singleton_append] at hrest
    exact .trans (.field gs fs k (same_sorted x)) hrest

end

theorem print_injective : Function.Injective print := by
  intro a b h
  have hread := congrArg read h
  rw [read_print, read_print] at hread
  exact Option.some.inj hread

/-- **Two values with one canonical text are the same.** -/
theorem canonical_injective {a b : Json} (h : a.canonical = b.canonical) : Same a b := by
  have hs : a.sorted = b.sorted := print_injective h
  exact .trans (same_sorted a) (hs ▸ (same_sorted b).symm)

/-! ## The same value has one canonical text -/

theorem pairwise_byName {fs : List (String × Json)} : (fs.mergeSort byName).Pairwise fun f g => f.1 ≤ g.1 := by
  have htrans : ∀ a b c : String × Json, byName a b → byName b c → byName a c := by
    intro a b c hab hbc
    simp only [byName, decide_eq_true_eq] at hab hbc ⊢
    exact le_trans hab hbc
  have htotal : ∀ a b : String × Json, byName a b || byName b a := by
    intro a b
    simp only [byName, Bool.or_eq_true, decide_eq_true_eq]
    exact le_total a.1 b.1
  refine (List.pairwise_mergeSort htrans htotal fs).imp ?_
  intro f g h
  exact of_decide_eq_true h

/-- Fields with distinct names have one order. -/
theorem mergeSort_eq_of_perm {fs gs : List (String × Json)} (hp : fs.Perm gs) (hn : (fs.map Prod.fst).Nodup) :
    fs.mergeSort byName = gs.mergeSort byName := by
  have hperm : (fs.mergeSort byName).Perm (gs.mergeSort byName) :=
    ((List.mergeSort_perm fs byName).trans hp).trans (List.mergeSort_perm gs byName).symm
  refine List.Perm.eq_of_pairwise ?_ pairwise_byName pairwise_byName hperm
  intro f g hf hg hfg hgf
  have hf' : f ∈ fs := (List.mergeSort_perm fs byName).subset hf
  have hg' : g ∈ fs := hp.symm.subset ((List.mergeSort_perm gs byName).subset hg)
  exact List.inj_on_of_nodup_map hn hf' hg' (le_antisymm hfg hgf)

theorem map_fst_sorted {fs : List (String × Json)} :
    (fs.map fun f => (f.1, f.2.sorted)).map Prod.fst = fs.map Prod.fst := by
  rw [List.map_map]
  rfl

/-- The order of fields matters neither to what is keyed nor, there, to the sorted value. -/
theorem Same.sorted {a b : Json} (h : Same a b) : (Keyed a ↔ Keyed b) ∧ (Keyed a → a.sorted = b.sorted) := by
  induction h with
  | refl j => exact ⟨.rfl, fun _ => rfl⟩
  | symm _ ih => exact ⟨ih.1.symm, fun hb => (ih.2 (ih.1.2 hb)).symm⟩
  | trans _ _ ih ih' => exact ⟨ih.1.trans ih'.1, fun ha => (ih.2 ha).trans (ih'.2 (ih.1.1 ha))⟩
  | item xs ys h ih =>
    obtain ⟨hiff, heq⟩ := ih
    constructor
    · simp only [Keyed, keyedItems_iff, List.forall_mem_append, List.forall_mem_cons, hiff]
    · intro hk
      simp only [Keyed, keyedItems_iff, List.forall_mem_append, List.forall_mem_cons] at hk
      simp only [Json.sorted, sortedItems_eq, List.map_append, List.map_cons, heq hk.2.1]
  | field fs gs k h ih =>
    obtain ⟨hiff, heq⟩ := ih
    constructor
    · simp only [Keyed, keyedFields_iff, List.forall_mem_append, List.forall_mem_cons, hiff, List.map_append, List.map_cons]
    · intro hk
      simp only [Keyed, keyedFields_iff, List.forall_mem_append, List.forall_mem_cons] at hk
      simp only [Json.sorted, sortedFields_eq, List.map_append, List.map_cons, heq hk.2.2.1]
  | order hp =>
    constructor
    · simp only [Keyed, keyedFields_iff, (hp.map Prod.fst).nodup_iff, hp.mem_iff]
    · intro hk
      simp only [Json.sorted, sortedFields_eq]
      rw [mergeSort_eq_of_perm (hp.map _) (by rw [map_fst_sorted]; exact hk.1)]

/-- **One canonical text, one value.** -/
theorem canonical_iff {a b : Json} (ha : Keyed a) : a.canonical = b.canonical ↔ Same a b := by
  constructor
  · exact canonical_injective
  · intro h
    exact congrArg print (h.sorted.2 ha)

/-! ## Reading in another order -/

/-- `f` reorders the fields of objects and does nothing else, as far as a reader can tell. -/
structure Reorders (f : Json → Json) : Prop where
  null : f .null = .null
  bool : ∀ b, f (.bool b) = .bool b
  int : ∀ n, f (.int n) = .int n
  str : ∀ s, f (.str s) = .str s
  arr : ∀ xs, f (.arr xs) = .arr (xs.map f)
  obj : ∀ {fs : List (String × Json)} {names : List String} {values : List Json}, names.Nodup →
    fs.map Prod.fst = names → fs.map (fun x => f x.2) = values → (f (.obj fs)).record names = some values

theorem reorders_id : Reorders id := by
  refine ⟨rfl, fun _ => rfl, fun _ => rfl, fun _ => rfl, fun xs => by rw [List.map_id]; rfl, ?_⟩
  intro fs names values hn hnames hvalues
  exact record_obj hn hnames hvalues

/-- The object whose fields are sorted holds the same fields. -/
theorem reorders_sorted : Reorders sorted := by
  refine ⟨rfl, fun _ => rfl, fun _ => rfl, fun _ => rfl, fun xs => by rw [sorted, sortedItems_eq], ?_⟩
  rintro fs _ _ hn rfl rfl
  have hperm := List.mergeSort_perm (sortedFields fs) byName
  have hnames : (sortedFields fs).map Prod.fst = fs.map Prod.fst := by rw [sortedFields_eq, map_fst_sorted]
  have hn' : (((sortedFields fs).mergeSort byName).map Prod.fst).Nodup := by
    rw [(hperm.map Prod.fst).nodup_iff, hnames]
    exact hn
  rw [sorted]
  refine record_eq_some.2 ⟨?_, ?_⟩
  · intro f hf
    rw [← hnames]
    exact List.mem_map_of_mem (hperm.subset hf)
  · rw [List.map_map, List.map_map]
    refine List.map_congr_left ?_
    intro f hf
    have hmem : (f.1, f.2.sorted) ∈ (sortedFields fs).mergeSort byName := by
      rw [hperm.mem_iff, sortedFields_eq]
      exact List.mem_map_of_mem hf
    exact lookup_of_mem hn' hmem

namespace Reorders

variable {f : Json → Json} (h : Reorders f)
include h

theorem nat {n : Nat} : f (.nat n) = .nat n := h.int n

theorem word {s : String} : f (.word s) = .word s := h.str s.toList

theorem list {α : Type} {g : α → Json} {xs : List α} : f (.list g xs) = .list (fun x => f (g x)) xs := by
  rw [Json.list, h.arr, List.map_map]
  rfl

theorem optional {α : Type} {g : α → Json} {o : Option α} (hg : ∀ x, f (g x) = g x) :
    f (.optional g o) = .optional g o := by
  cases o with
  | none => exact h.null
  | some x => exact hg x

end Reorders

/-! ## Bytes -/

/-- UTF-8. -/
def encode (s : List Char) : ByteArray := (String.ofList s).toUTF8

def decode (bytes : ByteArray) : Option Json := (String.fromUTF8? bytes).bind fun s => read s.toList

theorem encode_injective : Function.Injective encode := by
  intro s t h
  exact String.ofList_injective (String.toByteArray_inj.1 h)

theorem decode_encode {j : Json} : decode (encode j.print) = some j := by
  have hvalid : (encode j.print).IsValidUTF8 := (String.ofList j.print).isValidUTF8
  have htext : String.fromUTF8? (encode j.print) = some (String.ofList j.print) := by
    rw [String.fromUTF8?, dif_pos hvalid]
    rfl
  rw [decode, htext, Option.bind_some, String.toList_ofList, read_print]

theorem decode_canonical {j : Json} : decode (encode j.canonical) = some j.sorted := decode_encode

end Json
