import Mathlib.Data.List.Basic
/-!
# JSON values

A value as a parser hands it over. A number is an integer, or a float by its text; a string is its code points.
-/

/-- A character of a number. -/
def numeric (c : Char) : Bool := c.isDigit || c = '-' || c = '+' || c = '.' || c = 'e'

/-- A number that is printed with a fraction or an exponent. -/
structure FloatText where
  text : List Char
  digits : text.all numeric = true
  point : text.any (fun c => c = '.' || c = 'e') = true

theorem FloatText.ne_nil (x : FloatText) : x.text ≠ [] := by
  intro h
  have := x.point
  simp [h] at this

inductive Json where
  | null
  | bool (b : Bool)
  | int (n : Int)
  | float (x : FloatText)
  | str (s : List Char)
  | arr (items : List Json)
  | obj (fields : List (String × Json))

namespace Json

/-- The value of a field, `null` where there is none. -/
def get (j : Json) (name : String) : Json :=
  match j with
  | .obj fields => (fields.lookup name).getD .null
  | _ => .null

def items : Json → List Json
  | .arr xs => xs
  | _ => []

def text : Json → List Char
  | .str s => s
  | _ => []

def number : Json → Int
  | .int n => n
  | _ => 0

def isNull : Json → Bool
  | .null => true
  | _ => false

@[simp] theorem get_obj {fields : List (String × Json)} {name : String} :
    (obj fields).get name = (fields.lookup name).getD .null := rfl
@[simp] theorem items_arr {xs : List Json} : (arr xs).items = xs := rfl
@[simp] theorem text_str {s : List Char} : (str s).text = s := rfl
@[simp] theorem number_int {n : Int} : (int n).number = n := rfl

/-- The object but for this field. -/
def without (name : String) : Json → Json
  | .obj fs => .obj (fs.filter (·.1 ≠ name))
  | j => j

/-! ## How values are printed -/

def nat (n : Nat) : Json := .int n
def word (s : String) : Json := .str s.toList
def list {α : Type} (f : α → Json) (xs : List α) : Json := .arr (xs.map f)

/-- A value that may be absent. -/
def optional {α : Type} (f : α → Json) : Option α → Json
  | none => .null
  | some x => f x

@[simp] theorem optional_none {α : Type} {f : α → Json} : optional f none = .null := rfl
@[simp] theorem optional_some {α : Type} {f : α → Json} {x : α} : optional f (some x) = f x := rfl

theorem isNull_optional {α : Type} {f : α → Json} (hf : ∀ x, (f x).isNull = false) {o : Option α} :
    (optional f o).isNull = o.isNone := by
  cases o with
  | none => rfl
  | some x => exact hf x

/-! ## How values are read -/

/-- The values of these fields, of an object that has them all and no other. -/
def record (names : List String) : Json → Option (List Json)
  | .obj fs => if fs.all (·.1 ∈ names) then names.mapM fun name => fs.lookup name else none
  | _ => none

def many {α : Type} (load : Json → Option α) : Json → Option (List α)
  | .arr xs => xs.mapM load
  | _ => none

def nullable {α : Type} (load : Json → Option α) : Json → Option (Option α)
  | .null => some none
  | j => (load j).map some

section
variable {α β : Type}

theorem mapM_map_some {f : α → β} {g : β → Option α} {xs : List α} (h : ∀ x ∈ xs, g (f x) = some x) :
    (xs.map f).mapM g = some xs := by
  induction xs with
  | nil => rfl
  | cons x xs ih =>
    have hx := h x List.mem_cons_self
    have hxs := ih fun y hy => h y (List.mem_cons_of_mem _ hy)
    simp [hx, hxs]

theorem lookup_of_mem [BEq α] [LawfulBEq α] {fs : List (α × β)} (hn : (fs.map Prod.fst).Nodup) {f : α × β} (hf : f ∈ fs) :
    fs.lookup f.1 = some f.2 := by
  induction fs with
  | nil => cases hf
  | cons g fs ih =>
    rw [List.map_cons, List.nodup_cons] at hn
    rcases List.mem_cons.1 hf with rfl | hf
    · rw [List.lookup_cons_self]
    · have hne : f.1 ≠ g.1 := fun h => hn.1 (h ▸ List.mem_map_of_mem hf)
      rw [List.lookup_cons, beq_eq_false_iff_ne.2 hne]
      exact ih hn.2 hf

theorem mapM_eq_some {f : α → Option β} {xs : List α} {ys : List β} :
    xs.mapM f = some ys ↔ xs.map f = ys.map some := by
  induction xs generalizing ys with
  | nil => cases ys <;> simp
  | cons x xs ih =>
    rw [List.mapM_cons, List.map_cons]
    cases f x with
    | none => cases ys <;> simp
    | some y =>
      cases ys with
      | nil => cases xs.mapM f <;> simp
      | cons z ys =>
        have := @ih ys
        cases hxs : xs.mapM f with
        | none => simp [← this, hxs]
        | some zs => simp [← this, hxs]

/-- What is read stands in the object, under its name. -/
theorem record_eq_some {fs : List (String × Json)} {names : List String} {values : List Json} :
    (obj fs).record names = some values ↔
      (∀ f ∈ fs, f.1 ∈ names) ∧ names.map (fun name => fs.lookup name) = values.map some := by
  have hall : fs.all (·.1 ∈ names) = true ↔ ∀ f ∈ fs, f.1 ∈ names := by
    simp only [List.all_eq_true, decide_eq_true_eq]
  rw [record, ← hall, ← mapM_eq_some]
  split
  · next h => exact ⟨fun h' => ⟨h, h'⟩, fun h' => h'.2⟩
  · next h => exact ⟨nofun, fun h' => absurd h'.1 h⟩

/-- An object is read by its names. -/
theorem record_obj {fs : List (String × Json)} {names : List String} {values : List Json} (hn : names.Nodup)
    (hnames : fs.map Prod.fst = names) (hvalues : fs.map Prod.snd = values) :
    (obj fs).record names = some values := by
  subst hnames
  subst hvalues
  refine record_eq_some.2 ⟨fun f hf => List.mem_map_of_mem hf, ?_⟩
  rw [List.map_map, List.map_map]
  exact List.map_congr_left fun f hf => lookup_of_mem hn hf

theorem many_list {load : Json → Option α} {f : α → Json} {xs : List α} (h : ∀ x ∈ xs, load (f x) = some x) :
    many load (list f xs) = some xs := mapM_map_some h

theorem nullable_optional {load : Json → Option α} {f : α → Json} {o : Option α} (hf : ∀ x, (f x).isNull = false)
    (h : ∀ x ∈ o, load (f x) = some x) : nullable load (optional f o) = some o := by
  cases o with
  | none => rfl
  | some x =>
    have hread : nullable load (f x) = (load (f x)).map some := by
      unfold nullable
      split
      · next hnull => exact absurd (hf x) (by rw [hnull]; simp [isNull])
      · rfl
    rw [optional_some, hread, h x rfl, Option.map_some]

end

end Json
