import Goiardi.Base.Text

/-! The text of an SQL statement: its numbered placeholders and its parentheses. -/

namespace Goiardi.Sql

open List

section

def placeholder (n : ℕ) : Text := '$' :: Text.formatNat n

def placeholders : Text → List ℕ
  | [] => []
  | c :: t => if c = '$' then Text.digitsValue (t.takeWhile Char.isDigit) :: placeholders t else placeholders t

def Starts (t : Text) : Prop := ∀ c ∈ t.head?, c.isDigit = false

variable {t w rest : Text}

lemma starts_nil : Starts [] := by simp [Starts]

lemma starts_cons {c : Char} (h : c.isDigit = false) : Starts (c :: t) := by simpa [Starts] using h

lemma Starts.append (h : Starts t) (hr : Starts rest) : Starts (t ++ rest) := by
  cases t with
  | nil => exact hr
  | cons c t => exact h

lemma Starts.takeWhile_append (h : Starts rest) : (w ++ rest).takeWhile Char.isDigit = w.takeWhile Char.isDigit := by
  induction w with
  | nil =>
    cases rest with
    | nil => rfl
    | cons c rest =>
      have hc : c.isDigit = false := h c rfl
      simp [hc]
  | cons c w ih => simp only [cons_append, takeWhile_cons, ih]

lemma placeholders_append (h : Starts rest) : placeholders (w ++ rest) = placeholders w ++ placeholders rest := by
  induction w with
  | nil => rfl
  | cons c w ih =>
    simp only [cons_append, placeholders, ih, h.takeWhile_append]
    split <;> rfl

lemma placeholders_of_not_mem (h : '$' ∉ w) : placeholders w = [] := by
  induction w with
  | nil => rfl
  | cons c w ih =>
    obtain ⟨hc, hw⟩ := not_or.mp (mt mem_cons.mpr h)
    rw [placeholders, if_neg (Ne.symm hc), ih hw]

lemma starts_placeholder (n : ℕ) : Starts (placeholder n) := starts_cons (by decide)

@[simp] lemma placeholders_placeholder (n : ℕ) : placeholders (placeholder n) = [n] := by
  have hd : (Text.formatNat n).takeWhile Char.isDigit = Text.formatNat n :=
    takeWhile_eq_self_iff.mpr (all_eq_true.mp (Text.all_isDigit_formatNat n))
  rw [placeholder, placeholders, if_pos rfl, hd, Text.digitsValue_formatNat,
    placeholders_of_not_mem (Text.not_mem_formatNat (by decide) n)]

end

section

def depth : ℕ → Text → Option ℕ
  | d, [] => some d
  | d, c :: t =>
    if c = '(' then depth (d + 1) t
    else if c = ')' then if d = 0 then none else depth (d - 1) t
    else depth d t

def Matched (t : Text) : Prop := depth 0 t = some 0

def Neutral (t : Text) : Prop := ∀ d, depth d t = some d

variable {w rest : Text} {d e : ℕ}

lemma depth_append : depth d (w ++ rest) = (depth d w).bind fun e => depth e rest := by
  induction w generalizing d with
  | nil => rfl
  | cons c w ih =>
    simp only [cons_append, depth]
    split
    · exact ih
    · split
      · split
        · rfl
        · exact ih
      · exact ih

lemma depth_add (h : depth d w = some e) (k : ℕ) : depth (d + k) w = some (e + k) := by
  induction w generalizing d with
  | nil =>
    cases h
    rfl
  | cons c w ih =>
    simp only [depth] at h ⊢
    split
    · next hc =>
      rw [if_pos hc] at h
      rw [Nat.add_right_comm]
      exact ih h
    · next hc =>
      rw [if_neg hc] at h
      split
      · next hc' =>
        rw [if_pos hc'] at h
        split at h
        · cases h
        · next hd =>
          rw [if_neg (by omega), show d + k - 1 = d - 1 + k by omega]
          exact ih h
      · next hc' =>
        rw [if_neg hc'] at h
        exact ih h

lemma Matched.neutral (h : Matched w) : Neutral w := by
  intro d
  simpa using depth_add h d

lemma Neutral.matched (h : Neutral w) : Matched w := h 0

lemma Neutral.append (h : Neutral w) (hr : Neutral rest) : Neutral (w ++ rest) := by
  intro d
  rw [depth_append, h d, Option.bind_some, hr d]

lemma Neutral.wrap (h : Neutral w) : Neutral ('(' :: w ++ [')']) := by
  intro d
  rw [cons_append, depth, if_pos rfl, depth_append, h (d + 1)]
  rfl

lemma neutral_of_not_mem (ho : '(' ∉ w) (hc : ')' ∉ w) : Neutral w := by
  intro d
  induction w with
  | nil => rfl
  | cons c w ih =>
    obtain ⟨ho, ho'⟩ := not_or.mp (mt mem_cons.mpr ho)
    obtain ⟨hc, hc'⟩ := not_or.mp (mt mem_cons.mpr hc)
    rw [depth, if_neg (Ne.symm ho), if_neg (Ne.symm hc), ih ho' hc']

lemma neutral_formatNat (n : ℕ) : Neutral (Text.formatNat n) :=
  neutral_of_not_mem (Text.not_mem_formatNat (by decide) n) (Text.not_mem_formatNat (by decide) n)

lemma neutral_placeholder (n : ℕ) : Neutral (placeholder n) := by
  intro d
  exact neutral_formatNat n d

end

end Goiardi.Sql
