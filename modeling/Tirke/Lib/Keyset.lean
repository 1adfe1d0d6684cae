import Mathlib.Data.Finset.Card
import Mathlib.Data.List.Pairwise
import Mathlib.Order.Lattice
/-!
# Keyset pagination

A listing is served in pages, in decreasing order of a key: a page holds the first items below a boundary, and the key
of its last item is the boundary of the next page. Between two requests the listing may change.

* `Tour` is a client that follows the boundaries to the end, whatever server it talks to.
* `Tour.descending`, `Tour.complete`: the items it gets are in strictly decreasing order, and none is missing that is
  in every listing.
* `exists_tour`: it comes to an end when the keys that ever occur are finitely many.
-/

namespace Keyset

/-- One answer: the items, and the boundary of the next page if there is one. -/
structure Page (α κ : Type) where
  items : List α
  next : Option κ

/-- A client that asks once for each request, and each time from the boundary that the last page named. -/
inductive Tour {ρ α κ : Type} (serve : ρ → Option κ → Page α κ → Prop) : Option κ → List ρ → List α → Prop where
  | last {b : Option κ} {q : ρ} {p : Page α κ} (h : serve q b p) (hn : p.next = none) : Tour serve b [q] p.items
  | more {b : Option κ} {q : ρ} {p : Page α κ} {k : κ} {qs : List ρ} {xs : List α} (h : serve q b p)
      (hn : p.next = some k) (ht : Tour serve (some k) qs xs) : Tour serve b (q :: qs) (p.items ++ xs)

section
variable {α κ : Type} [LinearOrder κ] (key : α → κ)

def Descending (xs : List α) : Prop := xs.Pairwise fun x y => key y < key x

/-- The key comes after the boundary. -/
def After (b : Option κ) (k : κ) : Prop := ∀ k', b = some k' → k < k'

instance (b : Option κ) (k : κ) : Decidable (After b k) :=
  match b with
  | none => .isTrue nofun
  | some k' => decidable_of_iff (k < k') ⟨fun h _ he => by cases he; exact h, fun h => h k' rfl⟩

def below (b : Option κ) (xs : List α) : List α := xs.filter fun x => After b (key x)

/-- At most `limit` items below the boundary. -/
def page (q : List α × Nat) (b : Option κ) : Page α κ :=
  let rest := below key b q.1
  let items := rest.take q.2
  ⟨items, if items.length < rest.length then items.getLast?.map key else none⟩

variable {key} {b : Option κ} {k : κ} {xs ys : List α} {n : Nat} {q : List α × Nat} {x : α}

theorem mem_below : x ∈ below key b xs ↔ x ∈ xs ∧ After b (key x) := by simp [below]

theorem After.trans {k' : κ} (h : After b k) (hk : k' < k) : After b k' := fun k'' he => hk.trans (h k'' he)

theorem Descending.below (h : Descending key xs) : Descending key (below key b xs) := h.filter _

theorem page_items_sub (h : x ∈ (page key q b).items) : x ∈ q.1 ∧ After b (key x) :=
  mem_below.1 (List.mem_of_mem_take h)

theorem page_items_descending (h : Descending key q.1) : Descending key (page key q b).items :=
  List.Pairwise.sublist (List.take_sublist _ _) h.below

/-- The next boundary is the key of the last item. -/
theorem page_next (h : (page key q b).next = some k) :
    ∃ x, (page key q b).items.getLast? = some x ∧ key x = k := by
  simp only [page] at h ⊢
  split at h
  · exact Option.map_eq_some_iff.1 h
  · cases h

/-- What comes after the next boundary comes after the page. -/
theorem page_items_above (hd : Descending key q.1) (h : (page key q b).next = some k) (hx : x ∈ (page key q b).items) :
    k ≤ key x := by
  obtain ⟨y, hy, rfl⟩ := page_next h
  obtain ⟨init, hinit⟩ := List.getLast?_eq_some_iff.1 hy
  have hpair : Descending key (page key q b).items := page_items_descending hd
  rw [hinit] at hx hpair
  rcases List.mem_append.1 hx with hx | hx
  · exact le_of_lt ((List.pairwise_append.1 hpair).2.2 x hx y List.mem_cons_self)
  · rw [List.mem_singleton.1 hx]

/-- An item that comes before the next boundary is on the page, and so is every item of the last page. -/
theorem mem_page (hd : Descending key q.1) (hn : 1 ≤ q.2) (hx : x ∈ q.1) (hb : After b (key x))
    (h : ∀ k, (page key q b).next = some k → ¬ key x < k) : x ∈ (page key q b).items := by
  have hrest : x ∈ below key b q.1 := mem_below.2 ⟨hx, hb⟩
  by_cases hlen : ((below key b q.1).take q.2).length < (below key b q.1).length
  · -- the page is full: its last item is the next boundary, and `x` is not below it
    have hpos : (below key b q.1).take q.2 ≠ [] := by
      have hne : below key b q.1 ≠ [] := List.ne_nil_of_mem hrest
      simp only [ne_eq, List.take_eq_nil_iff, not_or]
      exact ⟨by omega, hne⟩
    have hnext : (page key q b).next = some (key (((below key b q.1).take q.2).getLast hpos)) := by
      simp only [page]
      rw [if_pos hlen, List.getLast?_eq_some_getLast hpos]
      rfl
    have hdesc : Descending key (below key b q.1) := hd.below
    by_contra hout
    have hdrop : x ∈ (below key b q.1).drop q.2 := by
      have hsplit := List.take_append_drop q.2 (below key b q.1)
      rw [← hsplit] at hrest
      exact (List.mem_append.1 hrest).resolve_left hout
    rw [Descending, ← List.take_append_drop q.2 (below key b q.1)] at hdesc
    exact h _ hnext ((List.pairwise_append.1 hdesc).2.2 _ (List.getLast_mem hpos) x hdrop)
  · have hall : (below key b q.1).take q.2 = below key b q.1 :=
      List.take_of_length_le (by rw [List.length_take] at hlen; omega)
    simp only [page, hall]
    exact hrest

/-! ## What the client gets -/

variable {ι : Type} {f : ι → List α × Nat} {is : List ι}

/-- A client of the pages of listings; `f i` is the listing at request `i`, and the limit. -/
abbrev Reader (key : α → κ) (f : ι → List α × Nat) : Option κ → List ι → List α → Prop :=
  Tour fun i b p => p = page key (f i) b

theorem Tour.sub (h : Reader key f b is xs) (hx : x ∈ xs) : After b (key x) ∧ ∃ i ∈ is, x ∈ (f i).1 := by
  induction h with
  | @last b i p h =>
    subst h
    obtain ⟨hq, hb⟩ := page_items_sub hx
    exact ⟨hb, i, List.mem_singleton_self i, hq⟩
  | @more b i p k is xs h hn ht ih =>
    subst h
    rcases List.mem_append.1 hx with hx | hx
    · obtain ⟨hq, hb⟩ := page_items_sub hx
      exact ⟨hb, i, List.mem_cons_self, hq⟩
    · obtain ⟨hk, i', hi', hxi⟩ := ih hx
      obtain ⟨y, hy, rfl⟩ := page_next hn
      have hb := (page_items_sub (List.mem_of_getLast? hy)).2
      exact ⟨hb.trans (hk _ rfl), i', List.mem_cons_of_mem _ hi', hxi⟩

/-- **The items come in strictly decreasing order.** -/
theorem Tour.descending (hd : ∀ i ∈ is, Descending key (f i).1) (h : Reader key f b is xs) : Descending key xs := by
  induction h with
  | @last b i p h =>
    subst h
    exact page_items_descending (hd _ List.mem_cons_self)
  | @more b i p k is xs h hn ht ih =>
    subst h
    have hi : Descending key (f i).1 := hd i List.mem_cons_self
    refine List.pairwise_append.2 ⟨page_items_descending hi, ih fun i' hi' => hd i' (List.mem_cons_of_mem _ hi'), ?_⟩
    intro x hx y hy
    exact lt_of_lt_of_le ((Tour.sub ht hy).1 k rfl) (page_items_above hi hn hx)

/-- **An item that is in every listing is not missed.** -/
theorem Tour.complete (hd : ∀ i ∈ is, Descending key (f i).1 ∧ 1 ≤ (f i).2) (h : Reader key f b is xs) (hb : After b k)
    (hk : ∀ i ∈ is, ∃ x ∈ (f i).1, key x = k) : ∃ x ∈ xs, key x = k := by
  induction h with
  | @last b i p h hn =>
    subst h
    obtain ⟨x, hx, rfl⟩ := hk i List.mem_cons_self
    obtain ⟨hi, hl⟩ := hd i List.mem_cons_self
    refine ⟨x, mem_page hi hl hx hb fun k hk => ?_, rfl⟩
    rw [hn] at hk
    cases hk
  | @more b i p k' is xs h hn ht ih =>
    subst h
    by_cases hlt : k < k'
    · have hk' : After (some k') k := fun _ he => by cases he; exact hlt
      obtain ⟨x, hx, hkey⟩ := ih (fun i' hi' => hd i' (List.mem_cons_of_mem _ hi')) hk'
        fun i' hi' => hk i' (List.mem_cons_of_mem _ hi')
      exact ⟨x, List.mem_append_right _ hx, hkey⟩
    · obtain ⟨x, hx, rfl⟩ := hk i List.mem_cons_self
      obtain ⟨hi, hl⟩ := hd i List.mem_cons_self
      refine ⟨x, List.mem_append_left _ (mem_page hi hl hx hb fun k hk => ?_), rfl⟩
      rw [hn] at hk
      cases hk
      exact hlt

/-- **The tour ends**, if only finitely many keys ever occur. -/
theorem exists_tour (S : Finset κ) (f : Nat → List α × Nat) (hf : ∀ n, ∀ x ∈ (f n).1, key x ∈ S) (b : Option κ) (i : Nat) :
    ∃ n xs, Reader key f b (List.range' i (n + 1)) xs := by
  induction hm : (S.filter fun k => After b k).card using Nat.strong_induction_on generalizing b i with
  | _ m ih =>
    cases hnext : (page key (f i) b).next with
    | none => exact ⟨0, _, .last rfl hnext⟩
    | some k =>
      -- the boundary was after the old one, and is not after itself: fewer keys are left
      obtain ⟨x, hx, hxk⟩ := page_next hnext
      obtain ⟨hxf, hb⟩ := page_items_sub (List.mem_of_getLast? hx)
      rw [hxk] at hb
      have hlt : (S.filter fun k' => After (some k) k').card < m := by
        rw [← hm]
        refine Finset.card_lt_card (Finset.ssubset_iff_of_subset ?_ |>.2 ⟨k, ?_, ?_⟩)
        · intro k' hk'
          obtain ⟨hS, hk'⟩ := Finset.mem_filter.1 hk'
          exact Finset.mem_filter.2 ⟨hS, hb.trans (hk' k rfl)⟩
        · exact Finset.mem_filter.2 ⟨hxk ▸ hf i x hxf, hb⟩
        · intro hk
          exact lt_irrefl k ((Finset.mem_filter.1 hk).2 k rfl)
      obtain ⟨n, xs, ht⟩ := ih _ hlt (some k) (i + 1) rfl
      exact ⟨n + 1, _, by rw [List.range'_succ]; exact .more rfl hnext ht⟩

end

/-! ## Boundaries by another name -/

/-- A server that names the boundaries differently shows the same client the same items. `P` holds of the boundaries that
occur. -/
theorem Tour.rename {ρ ρ' α κ γ : Type} {serve : ρ → Option κ → Page α κ → Prop} {serve' : ρ' → Option γ → Page α γ → Prop}
    {f : ρ → ρ'} {enc : κ → γ} {P : κ → Prop} {b : Option κ} {qs : List ρ} {xs : List α} (h : Tour serve b qs xs)
    (hb : ∀ k, b = some k → P k)
    (hs : ∀ q ∈ qs, ∀ b p, (∀ k, b = some k → P k) → serve q b p →
      serve' (f q) (b.map enc) ⟨p.items, p.next.map enc⟩ ∧ ∀ k, p.next = some k → P k) :
    Tour serve' (b.map enc) (qs.map f) xs := by
  induction h with
  | @last b q p h hn =>
    obtain ⟨hserve, -⟩ := hs q List.mem_cons_self b p hb h
    exact Tour.last (p := ⟨p.items, p.next.map enc⟩) hserve (by rw [hn]; rfl)
  | @more b q p k qs xs h hn ht ih =>
    obtain ⟨hserve, hP⟩ := hs q List.mem_cons_self b p hb h
    refine Tour.more (p := ⟨p.items, p.next.map enc⟩) (k := enc k) hserve (by rw [hn]; rfl) ?_
    refine ih (fun k' hk' => ?_) fun q' hq' => hs q' (List.mem_cons_of_mem _ hq')
    cases hk'
    exact hP k hn

end Keyset
