import Mathlib.Data.Char
import Mathlib.Data.List.TakeWhile
import Mathlib.Tactic

/-! Strings as lists of characters, with the scanning helpers the parsers share. -/

namespace Goiardi

open List

abbrev Text := List Char

instance : Coe String Text := ⟨String.toList⟩

instance (priority := high) Text.decidableMem (t : Text) (l : List Text) : Decidable (t ∈ l) := inferInstance

instance (priority := high) Text.decidableForallMem (t : Text) (p : Char → Prop) [DecidablePred p] :
    Decidable (∀ c ∈ t, p c) := List.decidableBAll p t

inductive Panic
  | indexOutOfRange
  | nilPointer
  | typeAssertion
  | nilMap
deriving DecidableEq, Repr

namespace Text

/-- The whitespace class `\s` of the regular expressions. -/
def isSpace (c : Char) : Bool := c = ' ' || c = '\t' || c = '\n' || c = '\x0c' || c = '\r'

def join (sep : Text) (ts : List Text) : Text := sep.intercalate ts

def beforeColons : Text → Text
  | [] => []
  | [c] => [c]
  | c :: d :: t => if c = ':' ∧ d = ':' then [] else c :: beforeColons (d :: t)

def digitsValue (t : Text) : ℕ := t.foldl (fun n c => 10 * n + (c.toNat - '0'.toNat)) 0

def maxInt64 : ℤ := 2 ^ 63 - 1

def minInt64 : ℤ := -2 ^ 63

/-- `strconv.ParseInt` in base ten and 64 bits: the value it returns and whether it reports no error. -/
def parseInt (t : Text) : ℤ × Bool :=
  let (negative, digits) :=
    match t with
    | '-' :: ds => (true, ds)
    | '+' :: ds => (false, ds)
    | ds => (false, ds)
  if digits = [] ∨ ¬ digits.all Char.isDigit then (0, false)
  else
    let n : ℤ := if negative then - (digitsValue digits : ℤ) else digitsValue digits
    if n < minInt64 then (minInt64, false)
    else if maxInt64 < n then (maxInt64, false)
    else (n, true)

def formatNat (n : ℕ) : Text := Nat.toDigits 10 n

def formatInt (n : ℤ) : Text := if n < 0 then '-' :: formatNat n.natAbs else formatNat n.natAbs

def span (p : Char → Bool) (t : Text) : Text × Text := (t.takeWhile p, t.dropWhile p)

def isNumberChar (c : Char) : Bool := c.isDigit || c = '.'

lemma isNumberChar_iff {c : Char} :
    isNumberChar c = true ↔ c ∈ ['0', '1', '2', '3', '4', '5', '6', '7', '8', '9', '.'] := by
  constructor
  · intro h
    simp only [isNumberChar, Char.isDigit, Bool.or_eq_true, Bool.and_eq_true, decide_eq_true_eq] at h
    rcases h with ⟨h₁, h₂⟩ | rfl
    · have hc : c = Char.ofNat c.toNat := (Char.ofNat_toNat c).symm
      have h₁' : 48 ≤ c.toNat := h₁
      have h₂' : c.toNat ≤ 57 := h₂
      rw [hc]
      interval_cases c.toNat <;> decide
    · decide
  · revert c
    decide

lemma all_isNumberChar_dropWhile (t : Text) : t.all isNumberChar = (t.dropWhile Char.isDigit).all isNumberChar := by
  have ha : (t.takeWhile Char.isDigit).all isNumberChar = true := by
    rw [all_eq_true]
    intro c hc
    simp [isNumberChar, mem_takeWhile_imp hc]
  conv_lhs => rw [← takeWhile_append_dropWhile (p := Char.isDigit) (l := t)]
  rw [all_append, ha, Bool.true_and]

lemma beforeColons_append {t : Text} (rest : Text) (h : ':' ∉ t) : beforeColons (t ++ rest) = t ++ beforeColons rest := by
  induction t with
  | nil => rfl
  | cons a t ih =>
    obtain ⟨ha, ht⟩ := not_or.mp (mt mem_cons.mpr h)
    rw [cons_append, cons_append, ← ih ht]
    cases t ++ rest with
    | nil => rfl
    | cons b l => simp [beforeColons, Ne.symm ha]

lemma not_mem_of_mem_splitOn {sep : Char} {t part : Text} (h : part ∈ t.splitOn sep) : sep ∉ part := by
  induction t generalizing part with
  | nil =>
    obtain rfl : part = [] := by simpa using h
    simp
  | cons c t ih =>
    rw [List.splitOn, splitOnP_cons_eq_if_modifyHead] at h
    split at h
    · rcases mem_cons.mp h with rfl | h
      · simp
      · exact ih h
    next hc =>
      cases ht : t.splitOn sep with
      | nil => exact absurd ht (splitOn_ne_nil _ _)
      | cons q qs =>
        have hs : sep ≠ c := fun he => hc (by simp [he])
        rw [ht] at ih
        rw [← List.splitOn, ht, modifyHead_cons] at h
        rcases mem_cons.mp h with rfl | h
        · simp [hs, ih]
        · exact ih (by simp [h])

lemma splitOn_eq_singleton_iff {sep : Char} {t part : Text} : t.splitOn sep = [part] ↔ sep ∉ t ∧ part = t := by
  constructor
  · intro h
    have ht : t = part := by
      have hi : [sep].intercalate (t.splitOn sep) = t := intercalate_splitOn sep
      rw [h] at hi
      simpa [List.intercalate] using hi.symm
    exact ⟨by rw [ht]; exact not_mem_of_mem_splitOn (t := t) (by simp [h]), ht.symm⟩
  · rintro ⟨h, rfl⟩
    exact splitOn_eq_singleton h

section

variable {α : Type} {a a' b b' : List α} {sep : α}

lemma append_cons_inj_left (h : a ++ sep :: b = a' ++ sep :: b') (ha : sep ∉ a) (ha' : sep ∉ a') : a = a' ∧ b = b' := by
  induction a generalizing a' with
  | nil =>
    cases a' with
    | nil => exact ⟨rfl, (List.cons.inj h).2⟩
    | cons d a' =>
      obtain ⟨rfl, -⟩ := List.cons.inj h
      exact absurd (.head _) ha'
  | cons c a ih =>
    cases a' with
    | nil =>
      obtain ⟨rfl, -⟩ := List.cons.inj h
      exact absurd (.head _) ha
    | cons d a' =>
      obtain ⟨hcd, hr⟩ := List.cons.inj h
      obtain ⟨rfl, rfl⟩ := ih hr (fun hm => ha (.tail _ hm)) fun hm => ha' (.tail _ hm)
      exact ⟨by rw [hcd], rfl⟩

lemma append_cons_inj_right (h : a ++ sep :: b = a' ++ sep :: b') (hb : sep ∉ b) (hb' : sep ∉ b') :
    a = a' ∧ b = b' := by
  have hr := congrArg List.reverse h
  simp only [reverse_append, reverse_cons, append_assoc, singleton_append] at hr
  obtain ⟨hb, ha⟩ := append_cons_inj_left hr (by simpa using hb) (by simpa using hb')
  exact ⟨reverse_injective ha, reverse_injective hb⟩

end

def Fits (n : ℤ) : Prop := minInt64 ≤ n ∧ n ≤ maxInt64

lemma digitsValue_formatNat (n : ℕ) : digitsValue (formatNat n) = n :=
  Nat.ofDigitChars_toDigits (by decide) (by decide)

lemma formatNat_ne_nil (n : ℕ) : formatNat n ≠ [] := Nat.toDigits_ne_nil

lemma all_isDigit_formatNat (n : ℕ) : (formatNat n).all Char.isDigit = true :=
  all_eq_true.mpr fun _ hc => Nat.isDigit_of_mem_toDigits (by decide) (by decide) hc

lemma not_mem_formatNat {c : Char} (hc : c.isDigit = false) (n : ℕ) : c ∉ formatNat n := by
  intro h
  have hd := all_eq_true.mp (all_isDigit_formatNat n) c h
  rw [hc] at hd
  cases hd

lemma formatNat_injective : Function.Injective formatNat := fun m n h => by
  rw [← digitsValue_formatNat m, h, digitsValue_formatNat]

lemma formatInt_injective : Function.Injective formatInt := by
  have hs (m n : ℕ) : '-' :: formatNat m ≠ formatNat n := fun h => by
    have hd := all_isDigit_formatNat n
    rw [← h] at hd
    cases hd
  intro m n h
  unfold formatInt at h
  split_ifs at h with hm hn hn
  · have := formatNat_injective (List.cons.inj h).2
    omega
  · exact absurd h (hs _ _)
  · exact absurd h.symm (hs _ _)
  · have := formatNat_injective h
    omega

def clamp (n : ℤ) : ℤ × Bool :=
  if n < minInt64 then (minInt64, false) else if maxInt64 < n then (maxInt64, false) else (n, true)

lemma parseInt_formatNat (n : ℕ) : parseInt (formatNat n) = clamp n := by
  have hd := all_isDigit_formatNat n
  have hv := digitsValue_formatNat n
  obtain ⟨c, ds, hcs⟩ := exists_cons_of_ne_nil (formatNat_ne_nil n)
  rw [hcs] at hd hv ⊢
  have hc : c.isDigit = true := all_eq_true.mp hd c (.head _)
  unfold parseInt
  split
  next negative digits heq =>
    split at heq
    · next hs =>
      rw [(List.cons.inj hs).1] at hc
      cases hc
    · next hs =>
      rw [(List.cons.inj hs).1] at hc
      cases hc
    · cases heq
      rw [if_neg (by simp [hd]), hv]
      rfl

lemma parseInt_neg_formatNat (n : ℕ) : parseInt ('-' :: formatNat n) = clamp (-n) := by
  have hf : ¬ (formatNat n = [] ∨ ¬ (formatNat n).all Char.isDigit = true) := by
    simp [formatNat_ne_nil, all_isDigit_formatNat]
  simp only [parseInt, if_neg hf, digitsValue_formatNat, if_true, clamp]

lemma parseInt_formatInt (n : ℤ) : parseInt (formatInt n) = clamp n := by
  rw [formatInt]
  split
  · rw [parseInt_neg_formatNat]
    congr 1
    omega
  · rw [parseInt_formatNat]
    congr 1
    omega

lemma clamp_of_fits {n : ℤ} (h : Fits n) : clamp n = (n, true) := by
  rw [clamp, if_neg (not_lt.mpr h.1), if_neg (not_lt.mpr h.2)]

lemma fits_of_clamp {n : ℤ} (h : (clamp n).2 = true) : Fits n := by
  unfold clamp at h
  split at h
  · cases h
  · split at h
    · cases h
    · exact ⟨by omega, by omega⟩

end Text

section

variable {α β : Type}

lemma mapM_eq_some_iff {f : α → Option β} {l : List α} {r : List β} :
    l.mapM f = some r ↔ List.Forall₂ (fun a b => f a = some b) l r := by
  induction l generalizing r with
  | nil => simp [eq_comm]
  | cons a l ih => simp [mapM_cons, forall₂_cons_left_iff, Option.bind_eq_some_iff, ih, @eq_comm _ r]

lemma forall₂_mem_right {R : α → β → Prop} {l : List α} {r : List β} (h : List.Forall₂ R l r) {b : β}
    (hb : b ∈ r) : ∃ a ∈ l, R a b := by
  induction h with
  | nil => simp at hb
  | cons hab _ ih =>
    rcases mem_cons.mp hb with rfl | hb
    · exact ⟨_, by simp, hab⟩
    · obtain ⟨a, ha, hr⟩ := ih hb
      exact ⟨a, by simp [ha], hr⟩

end

section

variable {κ β : Type} [BEq κ] [LawfulBEq κ] [DecidableEq κ] (m : List (κ × β)) {k k' : κ}

lemma lookup_filter_ne (h : k' ≠ k) : (m.filter fun p => p.1 ≠ k).lookup k' = m.lookup k' := by
  induction m with
  | nil => rfl
  | cons p m ih =>
    obtain ⟨q, j⟩ := p
    by_cases hq : q = k
    · subst hq
      have hk : (k' == q) = false := by simpa using h
      simpa [lookup_cons, hk] using ih
    · by_cases hk : k' = q
      · subst hk
        simp [hq]
      · have hk' : (k' == q) = false := by simpa using hk
        simpa [hq, lookup_cons, hk'] using ih

lemma lookup_filter_self : (m.filter fun p => p.1 ≠ k).lookup k = none := by
  rw [lookup_eq_none_iff]
  intro p hp
  have hne : p.1 ≠ k := by simpa using (mem_filter.mp hp).2
  simpa using fun h => hne h.symm

end

section

variable {ε α β : Type}

variable {x : Except ε α} {f : α → Except ε β} {b : β} {l : List α} {a : α}

lemma bind_eq_ok (h : x >>= f = .ok b) : ∃ a, x = .ok a ∧ f a = .ok b := by
  cases x with
  | error e => exact absurd h (by simp [bind, Except.bind])
  | ok a => exact ⟨a, rfl, h⟩

lemma map_eq_ok {f : α → β} (h : x.map f = .ok b) : ∃ a, x = .ok a ∧ f a = b := by
  cases x with
  | error e => exact absurd h (by simp [Except.map])
  | ok a => exact ⟨a, rfl, Except.ok.inj h⟩

lemma forM_eq_ok {f : α → Except ε Unit} {u : Unit} (h : l.forM f = .ok u) : ∀ a ∈ l, f a = .ok () := by
  induction l with
  | nil => simp
  | cons b l ih =>
    obtain ⟨v, hb, hl⟩ := bind_eq_ok (x := f b) h
    intro a ha
    rcases mem_cons.mp ha with rfl | ha
    · exact hb
    · exact ih hl a ha

lemma bind_eq_ok_iff : x >>= f = .ok b ↔ ∃ a, x = .ok a ∧ f a = .ok b := by
  refine ⟨bind_eq_ok, ?_⟩
  rintro ⟨a, rfl, h⟩
  exact h

lemma mapError_eq_ok_iff {ε' : Type} {f : ε → ε'} : x.mapError f = .ok a ↔ x = .ok a := by
  cases x <;> simp [Except.mapError]

lemma ok_eq_ok_iff {a b : α} : (pure a : Except ε α) = .ok b ↔ a = b := by
  simp [pure, Except.pure]

lemma ok_bind : (Except.ok a >>= f) = f a := rfl

lemma exists_unit {p : Unit → Prop} : (∃ u, p u) ↔ p () := ⟨fun ⟨_, h⟩ => h, fun h => ⟨_, h⟩⟩

lemma mapM_eq_ok_iff {r : List β} : l.mapM f = .ok r ↔ List.Forall₂ (fun a b => f a = .ok b) l r := by
  induction l generalizing r with
  | nil => simp [pure, Except.pure, eq_comm]
  | cons a l ih =>
    simp only [mapM_cons, forall₂_cons_left_iff, bind_eq_ok_iff, ok_eq_ok_iff, ih, @eq_comm _ r,
      exists_and_left]

lemma mapM_eq_ok_self_iff {g : β → α} {l : List β} : (l.map g).mapM f = .ok l ↔ ∀ b ∈ l, f (g b) = .ok b := by
  rw [mapM_eq_ok_iff, forall₂_map_left_iff, forall₂_same]

lemma mapM_ok {g : α → β} (h : ∀ a ∈ l, f a = .ok (g a)) : l.mapM f = .ok (l.map g) := by
  rwa [mapM_eq_ok_iff, forall₂_map_right_iff, forall₂_same]

lemma forM_ok {f : α → Except ε Unit} (h : ∀ a ∈ l, f a = .ok ()) : l.forM f = .ok () := by
  induction l with
  | nil => rfl
  | cons a l ih =>
    change (f a >>= fun _ => l.forM f) = .ok ()
    rw [h a (.head _)]
    exact ih fun b hb => h b (.tail _ hb)

end

end Goiardi
