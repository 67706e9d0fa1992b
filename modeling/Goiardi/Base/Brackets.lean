import Mathlib.Data.List.Basic

/-! Markers in a list: the search for the one that closes the last of several open ones. -/

namespace Goiardi.Brackets

open Option

variable {α β : Type} (depth : α → ℕ → ℕ)

/-- The elements up to the one after which none of `n` markers is open, that element, and those after it. `depth` says
how many markers are open after an element. -/
def closing (n : ℕ) : List α → Option (List α × α × List α)
  | [] => none
  | a :: l =>
    if depth a n = 0 then some ([], a, l)
    else (closing (depth a n) l).map fun (inner, last, after) => (a :: inner, last, after)

variable {depth} {n : ℕ} {l inner after : List α} {last : α}

lemma closing_append (h : closing depth n l = some (inner, last, after)) : l = inner ++ last :: after := by
  induction l generalizing n inner with
  | nil => cases h
  | cons a l ih =>
    rw [closing] at h
    split at h
    · cases h
      rfl
    · obtain ⟨⟨inner', last', after'⟩, hc, he⟩ := map_eq_some_iff.mp h
      cases he
      rw [ih hc, List.cons_append]

lemma closing_last (hn : 0 < n) (h : closing depth n l = some (inner, last, after)) :
    ∃ m, 0 < m ∧ depth last m = 0 := by
  induction l generalizing n inner with
  | nil => cases h
  | cons a l ih =>
    rw [closing] at h
    split at h
    · next hd =>
      cases h
      exact ⟨n, hn, hd⟩
    · next hd =>
      obtain ⟨⟨inner', last', after'⟩, hc, he⟩ := map_eq_some_iff.mp h
      cases he
      exact ih (Nat.pos_of_ne_zero hd) hc

lemma closing_map {depth' : β → ℕ → ℕ} {f : α → β} (hf : ∀ a n, depth' (f a) n = depth a n) (n : ℕ) (l : List α) :
    closing depth' n (l.map f) =
      (closing depth n l).map fun (inner, last, after) => (inner.map f, f last, after.map f) := by
  induction l generalizing n with
  | nil => rfl
  | cons a l ih =>
    rw [List.map_cons, closing, closing, hf]
    split
    · rfl
    · rw [ih, map_map, map_map]
      rfl

end Goiardi.Brackets
