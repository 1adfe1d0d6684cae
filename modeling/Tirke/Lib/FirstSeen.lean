import Mathlib.Data.List.Basic
import Mathlib.Data.List.Induction
import Mathlib.Data.List.Nodup
/-!
# Numbering by first appearance

`firstSeen xs` keeps of every element its first occurrence, and `rank xs x` is the position of `x` in it, from one on.
A table that gives every new key the next number holds `table (firstSeen xs)` once it has seen `xs`.
-/

namespace FirstSeen

variable {α β : Type} [DecidableEq α] [DecidableEq β] {xs ys : List α} {x y : α}

def firstSeen (xs : List α) : List α := xs.eraseDups

def rank (xs : List α) (x : α) : Nat := (firstSeen xs).idxOf x + 1

@[simp] theorem firstSeen_nil : firstSeen ([] : List α) = [] := rfl

@[simp] theorem mem_firstSeen : x ∈ firstSeen xs ↔ x ∈ xs := List.mem_eraseDups

theorem firstSeen_concat_of_mem (h : x ∈ xs) : firstSeen (xs ++ [x]) = firstSeen xs := by
  simp [firstSeen, List.eraseDups_append, List.cons_removeAll, h]

theorem firstSeen_concat_of_notMem (h : x ∉ xs) : firstSeen (xs ++ [x]) = firstSeen xs ++ [x] := by
  simp [firstSeen, List.eraseDups_append, List.cons_removeAll, h, List.eraseDups_cons]

theorem nodup_firstSeen : (firstSeen xs).Nodup := by
  induction xs using List.reverseRecOn with
  | nil => exact List.nodup_nil
  | append_singleton xs x ih =>
    by_cases h : x ∈ xs
    · rw [firstSeen_concat_of_mem h]
      exact ih
    · rw [firstSeen_concat_of_notMem h]
      exact List.nodup_append'.2 ⟨ih, List.nodup_singleton x, by simpa using h⟩

/-- An injective renaming keeps the order. -/
theorem firstSeen_map {f : α → β} (hf : ∀ x ∈ xs, ∀ y ∈ xs, f x = f y → x = y) :
    firstSeen (xs.map f) = (firstSeen xs).map f := by
  induction xs using List.reverseRecOn with
  | nil => rfl
  | append_singleton xs x ih =>
    have ih := ih fun a ha b hb => hf a (List.mem_append_left _ ha) b (List.mem_append_left _ hb)
    rw [List.map_append, List.map_singleton]
    by_cases h : x ∈ xs
    · rw [firstSeen_concat_of_mem h, firstSeen_concat_of_mem (List.mem_map_of_mem h), ih]
    · have hnew : f x ∉ xs.map f := by
        intro hmem
        obtain ⟨a, ha, heq⟩ := List.mem_map.1 hmem
        have := hf a (List.mem_append_left _ ha) x (by simp) heq
        exact h (this ▸ ha)
      rw [firstSeen_concat_of_notMem h, firstSeen_concat_of_notMem hnew, ih, List.map_append, List.map_singleton]

theorem rank_append (h : x ∈ xs) : rank (xs ++ ys) x = rank xs x := by
  unfold rank firstSeen
  rw [List.eraseDups_append, List.idxOf_append_of_mem (List.mem_eraseDups.2 h)]

theorem rank_new (h : x ∉ xs) : rank (xs ++ [x]) x = (firstSeen xs).length + 1 := by
  have hnew : x ∉ firstSeen xs := fun hx => h (mem_firstSeen.1 hx)
  rw [rank, firstSeen_concat_of_notMem h, List.idxOf_append_of_notMem hnew]
  simp

theorem rank_inj (hx : x ∈ xs) (h : rank xs x = rank xs y) : x = y :=
  (List.idxOf_inj (mem_firstSeen.2 hx)).1 (Nat.succ.inj h)

/-- The ranks of what was seen, in the order in which it was, are `1, 2, …`. -/
theorem map_rank : (firstSeen xs).map (rank xs) = List.range' 1 (firstSeen xs).length := by
  refine List.ext_getElem (by simp) fun i hi hi' => ?_
  rw [List.length_map] at hi
  have hidx : (firstSeen xs).idxOf (firstSeen xs)[i] = i := nodup_firstSeen.idxOf_getElem i hi
  rw [List.getElem_map, List.getElem_range', rank, hidx]
  omega

end FirstSeen
