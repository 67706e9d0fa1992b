import Mathlib.Data.List.Sort

/-! Sorting by a key, with the order of equal elements left open, and the binary search of Go's library. -/

namespace Goiardi

open List

structure KeySort {α κ : Type} [LE κ] (key : α → κ) where
  sort : List α → List α
  perm : ∀ l, (sort l).Perm l
  sorted : ∀ l, (sort l).Pairwise fun a b => key a ≤ key b

def KeySort.insertion {α κ : Type} [LinearOrder κ] (key : α → κ) : KeySort key where
  sort := List.insertionSort fun a b => key a ≤ key b
  perm := perm_insertionSort _
  sorted l :=
    have : Std.Total fun a b : α => key a ≤ key b := ⟨fun a b => le_total (key a) (key b)⟩
    have : IsTrans α fun a b => key a ≤ key b := ⟨fun _ _ _ => le_trans⟩
    pairwise_insertionSort _ l

lemma KeySort.sort_eq {α κ : Type} [PartialOrder κ] {key : α → κ} (sorting : KeySort key) {l : List α}
    (h : l.Pairwise fun a b => key a < key b) : sorting.sort l = l := by
  have hn : (l.map key).Nodup := (pairwise_map.mpr h).imp fun hab => hab.ne
  exact Perm.eq_of_pairwise (fun a b ha hb hab hba =>
    inj_on_of_nodup_map hn ((sorting.perm l).mem_iff.mp ha) hb (le_antisymm hab hba))
    (sorting.sorted l) (h.imp fun hab => hab.le) (sorting.perm l)

/-- What Go's library promises of sorting with a comparison: the elements are put in some order, and in one without
inversions where the comparison is a strict weak order on their positions. -/
structure Sorter (α : Type) where
  sort : (α → α → Bool) → List α → List α
  perm : ∀ less l, (sort less l).Perm l
  sorted : ∀ less l, IsStrictWeakOrder (Fin l.length) (fun i j => less l[i] l[j] = true) →
    (sort less l).Pairwise fun a b => less b a = false

section

variable {α : Type} {less : α → α → Bool} {l : List α}

lemma not_less_trans (h : IsStrictWeakOrder (Fin l.length) fun i j => less l[i] l[j] = true) {i j k : Fin l.length}
    (hij : less l[j] l[i] = false) (hjk : less l[k] l[j] = false) : less l[k] l[i] = false := by
  rw [← Bool.not_eq_true] at hij hjk ⊢
  intro hki
  by_cases h₁ : less l[i] l[j] = true
  · exact hjk (h.trans _ _ _ hki h₁)
  · by_cases h₂ : less l[j] l[k] = true
    · exact hij (h.trans _ _ _ h₂ hki)
    · exact (h.incomp_trans i j k ⟨h₁, hij⟩ ⟨h₂, hjk⟩).2 hki

def Sorter.insertion (α : Type) : Sorter α where
  sort less := List.insertionSort fun a b => less b a = false
  perm less := perm_insertionSort _
  sorted less l h := by
    -- the positions are sorted in the same way, and on them the comparison is total
    let before (i j : Fin l.length) : Prop := less l[j] l[i] = false
    have htotal : Std.Total before := by
      refine ⟨fun i j => ?_⟩
      by_contra! hb
      simp only [before, Bool.not_eq_false] at hb
      exact h.irrefl i (h.trans _ _ _ hb.2 hb.1)
    have htrans : IsTrans _ before := ⟨fun _ _ _ => not_less_trans h⟩
    have hsorted := pairwise_insertionSort before (List.finRange l.length)
    have hmap := map_insertionSort before (fun a b => less b a = false) (fun i => l[i]) (List.finRange l.length)
      fun _ _ _ _ => Iff.rfl
    have hall : (List.finRange l.length).map (fun i => l[i]) = l := map_getElem_finRange l
    rw [hall] at hmap
    rw [← hmap, pairwise_map]
    exact hsorted

end

section

/-- The least number in `[i, j)` that passes the test, found by halving. -/
def searchFrom (f : ℕ → Bool) : ℕ → ℕ → ℕ → ℕ
  | 0, i, _ => i
  | fuel + 1, i, j =>
    if i < j then
      let h := (i + j) / 2
      if f h then searchFrom f fuel i h else searchFrom f fuel (h + 1) j
    else i

def search (n : ℕ) (f : ℕ → Bool) : ℕ := searchFrom f n 0 n

variable {f : ℕ → Bool} {n : ℕ}

structure Splits (f : ℕ → Bool) (n r : ℕ) : Prop where
  le : r ≤ n
  below : ∀ k < r, f k = false
  above : ∀ k, r ≤ k → k < n → f k = true

lemma searchFrom_splits (hm : ∀ a b, a ≤ b → b < n → f a = true → f b = true) {fuel i j : ℕ} (hij : i ≤ j)
    (hj : j ≤ n) (hfl : j - i ≤ fuel) (hlo : ∀ k < i, f k = false) (hhi : ∀ k, j ≤ k → k < n → f k = true) :
    Splits f n (searchFrom f fuel i j) := by
  induction fuel generalizing i j with
  | zero =>
    obtain rfl : i = j := by omega
    exact ⟨hj, hlo, hhi⟩
  | succ fuel ih =>
    rw [searchFrom]
    split
    · next hlt =>
      simp only
      cases hf : f ((i + j) / 2) with
      | true =>
        rw [if_pos rfl]
        exact ih (by omega) (by omega) (by omega) hlo fun k hk hkn => hm _ _ hk hkn hf
      | false =>
        rw [if_neg Bool.false_ne_true]
        refine ih (by omega) hj (by omega) (fun k hk => ?_) hhi
        by_contra hk'
        have hle : k ≤ (i + j) / 2 := by omega
        rw [hm k _ hle (by omega) (by simpa using hk')] at hf
        cases hf
    · obtain rfl : i = j := by omega
      exact ⟨hj, hlo, hhi⟩

variable {α : Type} {p : α → Bool}

def searchBy (p : α → Bool) (l : List α) : ℕ := search l.length fun i => (l[i]?).any p

lemma searchBy_splits {l : List α} (h : l.Pairwise fun a b => p a = true → p b = true) :
    Splits (fun i => (l[i]?).any p) l.length (searchBy p l) := by
  refine searchFrom_splits (fun a b hab hb ha => ?_) (Nat.zero_le _) le_rfl (by omega) (by omega) (by omega)
  have ha' : a < l.length := by omega
  simp only [List.getElem?_eq_getElem ha', List.getElem?_eq_getElem hb, Option.any_some] at ha ⊢
  rcases hab.eq_or_lt with rfl | hlt
  · exact ha
  · exact pairwise_iff_getElem.mp h a b ha' hb hlt ha

lemma Splits.drop {l : List α} {r : ℕ} (h : Splits (fun i => (l[i]?).any p) l.length r) :
    l.drop r = l.filter p ∧ l.take r = l.filter fun a => !p a := by
  have hlo : ∀ a ∈ l.take r, p a = false := by
    intro a ha
    obtain ⟨k, hk, rfl⟩ := mem_iff_getElem.mp ha
    have hkr : k < r ∧ k < l.length := by simpa using hk
    simpa [List.getElem?_eq_getElem hkr.2] using h.below k hkr.1
  have hhi : ∀ a ∈ l.drop r, p a = true := by
    intro a ha
    obtain ⟨k, hk, rfl⟩ := mem_iff_getElem.mp ha
    have hkr : r + k < l.length := by
      rw [length_drop] at hk
      omega
    simpa [List.getElem?_eq_getElem hkr] using h.above (r + k) (by omega) hkr
  have hs := take_append_drop r l
  constructor
  · conv_rhs => rw [← hs]
    rw [filter_append, filter_eq_nil_iff.mpr (by simpa using hlo), filter_eq_self.mpr hhi,
      nil_append]
  · conv_rhs => rw [← hs]
    rw [filter_append, filter_eq_self.mpr (by simpa using hlo), filter_eq_nil_iff.mpr (by simpa using hhi),
      append_nil]

end

end Goiardi
