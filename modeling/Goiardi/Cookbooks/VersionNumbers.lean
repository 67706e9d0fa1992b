import Goiardi.Cookbooks.Order

/-! The version numbers of the database: three columns for the numbers, from which the version is rebuilt. -/

namespace Goiardi.Cookbooks

open Validation List Text
open Uploads (component AcceptedVersion.parts splitOn_digits splitOn_digits_dot)

def parseSyntaxError (t : Text) : Text :=
  "strconv.ParseInt: parsing \"" ++ t ++ "\": invalid syntax"

def digitOf (c : Char) : ℕ :=
  if c.isDigit then c.toNat - '0'.toNat
  else if c.isAlpha then c.toLower.toNat - 'a'.toNat + 10
  else 36

def readDigits (base : ℕ) : ℕ → Text → Option ℕ
  | n, [] => some n
  | n, c :: t => if digitOf c < base then readDigits base (base * n + digitOf c) t else none

def chooseBase : Text → ℕ × Text
  | '0' :: b :: c :: t =>
    if b = 'x' ∨ b = 'X' then (16, c :: t)
    else if b = 'o' ∨ b = 'O' then (8, c :: t)
    else if b = 'b' ∨ b = 'B' then (2, c :: t)
    else (8, b :: c :: t)
  | '0' :: t => (8, t)
  | t => (10, t)

/-- `strconv.ParseInt` with base 0 and 64 bits. The underscores that it takes between digits are left out. -/
def parseIntAuto (t : Text) : Except Text ℤ :=
  let (negative, s) :=
    match t with
    | '-' :: s => (true, s)
    | '+' :: s => (false, s)
    | s => (false, s)
  if s = [] then .error (parseSyntaxError t)
  else
    match readDigits (chooseBase s).1 0 (chooseBase s).2 with
    | none => .error (parseSyntaxError t)
    | some n =>
      let v : ℤ := if negative then -n else n
      if v < Text.minInt64 ∨ Text.maxInt64 < v then .error (parseIntError t) else .ok v

-- after the check there are two parts or three
def extractVerNums (cbVersion : Text) : Except Text (ℤ × ℤ × ℤ) := do
  let _ ← validateAsVersion (.str cbVersion)
  let nums := cbVersion.splitOn '.'
  let maj ← parseIntAuto (nums.getD 0 [])
  let min ← parseIntAuto (nums.getD 1 [])
  if nums.length = 3 then
    let patch ← parseIntAuto (nums.getD 2 [])
    return (maj, min, patch)
  else return (maj, min, 0)

/-- The version that `fillCookbookVersionFromSQL` reads from a row. -/
def rowVersion (nums : ℤ × ℤ × ℤ) : Text :=
  Text.formatInt nums.1 ++ '.' :: Text.formatInt nums.2.1 ++ '.' :: Text.formatInt nums.2.2

def dotted (x y z : ℕ) : Text := Text.formatNat x ++ '.' :: Text.formatNat y ++ '.' :: Text.formatNat z

def Canonical (ver : Text) : Prop := ver = dotted (component ver 0) (component ver 1) (component ver 2)

instance (ver : Text) : Decidable (Canonical ver) := inferInstanceAs (Decidable (_ = _))

def decimals (ver : Text) : ℤ × ℤ × ℤ := (component ver 0, component ver 1, component ver 2)

lemma isDigit_bounds {c : Char} (h : c.isDigit = true) : '0'.toNat ≤ c.toNat ∧ c.toNat ≤ '9'.toNat := by
  obtain ⟨h₁, h₂⟩ := Bool.and_eq_true_iff.mp h
  exact ⟨UInt32.le_iff_toNat_le.mp (of_decide_eq_true h₁), UInt32.le_iff_toNat_le.mp (of_decide_eq_true h₂)⟩

lemma readDigits_decimal {t : Text} (h : t.all Char.isDigit = true) (n : ℕ) :
    readDigits 10 n t = some (t.foldl (fun n c => 10 * n + (c.toNat - '0'.toNat)) n) := by
  induction t generalizing n with
  | nil => rfl
  | cons c t ih =>
    rw [all_cons, Bool.and_eq_true] at h
    have hc : digitOf c = c.toNat - '0'.toNat := if_pos h.1
    have hlt : digitOf c < 10 := by
      have hle := (isDigit_bounds h.1).2
      have h₀ : '0'.toNat = 48 := rfl
      have h₉ : '9'.toNat = 57 := rfl
      omega
    rw [readDigits, if_pos hlt, ih h.2, hc]
    rfl

lemma chooseBase_of_ne {c : Char} (hc : c ≠ '0') (t : Text) : chooseBase (c :: t) = (10, c :: t) := by
  unfold chooseBase
  split
  · next h => exact absurd (List.cons.inj h).1 hc
  · next h => exact absurd (List.cons.inj h).1 hc
  · rfl

lemma formatNat_head {n : ℕ} (hn : n ≠ 0) : ∃ c t, formatNat n = c :: t ∧ c ≠ '0' := by
  induction n using Nat.strong_induction_on with
  | _ n ih =>
    by_cases hlt : n < 10
    · refine ⟨Nat.digitChar n, [], Nat.toDigits_of_lt_base hlt, fun h => hn ?_⟩
      interval_cases n <;> first | rfl | cases h
    · obtain ⟨c, t, ht, hc⟩ := ih (n / 10) (by omega) (by omega)
      refine ⟨c, t ++ [Nat.digitChar (n % 10)], ?_, hc⟩
      rw [formatNat] at ht
      rw [formatNat, Nat.toDigits_of_base_le (by decide) (by omega), ht, cons_append]

lemma parseIntAuto_formatNat {n : ℕ} (hn : (n : ℤ) ≤ maxInt64) : parseIntAuto (formatNat n) = .ok n := by
  by_cases h : n = 0
  · subst h
    rfl
  · obtain ⟨c, t, ht, hc⟩ := formatNat_head h
    have hd := all_isDigit_formatNat n
    have hv := digitsValue_formatNat n
    rw [ht] at hd hv ⊢
    have hc' : c.isDigit = true := all_eq_true.mp hd c (.head _)
    have hr : readDigits 10 0 (c :: t) = some n := by
      rw [readDigits_decimal hd]
      exact congrArg some hv
    unfold parseIntAuto
    split
    next negative s heq =>
      split at heq
      · next hs =>
        rw [(List.cons.inj hs).1] at hc'
        cases hc'
      · next hs =>
        rw [(List.cons.inj hs).1] at hc'
        cases hc'
      · cases heq
        have hm : ¬ (n : ℤ) < minInt64 := by
          have : minInt64 < 0 := by decide
          omega
        rw [if_neg (by simp), chooseBase_of_ne hc, hr]
        simp [hm, not_lt.mpr hn]

section

variable {s t : Text}

lemma splitOn_dotted (x y z : ℕ) : (dotted x y z).splitOn '.' = [formatNat x, formatNat y, formatNat z] := by
  rw [dotted, append_assoc, cons_append, splitOn_digits_dot (all_isDigit_formatNat x),
    splitOn_digits_dot (all_isDigit_formatNat y), splitOn_digits (all_isDigit_formatNat z)]

lemma Canonical.splitOn (h : Canonical s) : s.splitOn '.' =
    [formatNat (component s 0), formatNat (component s 1), formatNat (component s 2)] := by
  rw [← splitOn_dotted, ← h]

lemma le_maxInt64_of_atoi {n : ℕ} (h : atoi (formatNat n) = n) : (n : ℤ) ≤ maxInt64 := by
  rw [atoi, parseInt_formatNat, clamp] at h
  split_ifs at h with hmn hm
  · have : minInt64 < 0 := by decide
    omega
  · exact h.ge
  · exact not_lt.mp hm

lemma Canonical.extractVerNums (h : Canonical s) (hs : AcceptedVersion s) : extractVerNums s = .ok (decimals s) := by
  obtain ⟨-, -, -, -, -, hpr⟩ := AcceptedVersion.parts hs
  obtain ⟨v, hv⟩ := hs
  have hr : ∀ p ∈ s.splitOn '.', parseIntAuto p = .ok (digitsValue p : ℕ) := by
    intro p hp
    have ha := hpr p hp
    obtain ⟨n, rfl⟩ : ∃ n, p = formatNat n := by
      rw [h.splitOn] at hp
      simp only [mem_cons, not_mem_nil, or_false] at hp
      rcases hp with rfl | rfl | rfl <;> exact ⟨_, rfl⟩
    rw [digitsValue_formatNat] at ha ⊢
    exact parseIntAuto_formatNat (le_maxInt64_of_atoi ha)
  simp only [h.splitOn, forall_mem_cons, digitsValue_formatNat] at hr
  obtain ⟨h₀, h₁, h₂, -⟩ := hr
  rw [Cookbooks.extractVerNums, hv, ok_bind, h.splitOn]
  simp only [getD_cons_zero, getD_cons_succ, h₀, h₁, h₂, ok_bind]
  rfl

structure Faithful (ver : Text) : Prop where
  numbers : extractVerNums ver = .ok (decimals ver)
  rebuilt : rowVersion (decimals ver) = ver

def lexLess (x y : ℤ × ℤ × ℤ) : Prop := x.1 < y.1 ∨ x.1 = y.1 ∧ (x.2.1 < y.2.1 ∨ x.2.1 = y.2.1 ∧ x.2.2 < y.2.2)

def SameOrder (s t : Text) : Prop :=
  ∀ x y, extractVerNums s = .ok x → extractVerNums t = .ok y → x ≠ y → (lexLess x y ↔ versionLess s t = true)

lemma Canonical.headRank (h : Canonical s) : headRank ((s.splitOn '.').drop 2) = (component s 2 : ℕ) := by
  rw [h.splitOn, drop_succ_cons, drop_succ_cons, drop_zero, Cookbooks.headRank,
    digitsValue_formatNat]

lemma Canonical.versionLess_iff (h : Canonical s) (h' : Canonical t) (hs : AcceptedVersion s) (ht : AcceptedVersion t) :
    versionLess s t = true ↔ lexLess (decimals s) (decimals t) := by
  have htw : ¬ TwoPart s := by simp [TwoPart, h.splitOn]
  rw [Cookbooks.versionLess_iff hs ht, rank_lt, h.headRank, h'.headRank, lexLess, decimals, decimals]
  simp [htw]

/-- The columns are faithful to two versions exactly if both are three numbers without leading zeros. -/
theorem extractVerNums_faithful_iff (s t : Text) (hs : AcceptedVersion s) (ht : AcceptedVersion t) :
    Faithful s ∧ Faithful t ∧ SameOrder s t ↔ Canonical s ∧ Canonical t := by
  constructor
  · rintro ⟨h, h', -⟩
    exact ⟨h.rebuilt.symm, h'.rebuilt.symm⟩
  · rintro ⟨h, h'⟩
    refine ⟨⟨h.extractVerNums hs, h.symm⟩, ⟨h'.extractVerNums ht, h'.symm⟩, ?_⟩
    rintro x y hx hy -
    rw [h.extractVerNums hs] at hx
    rw [h'.extractVerNums ht] at hy
    cases hx
    cases hy
    exact (h.versionLess_iff h' hs ht).symm

theorem extractVerNums_faithful_iff_pair : Faithful "1.10.0" ∧ Faithful "1.9.0" ∧ SameOrder "1.10.0" "1.9.0" :=
  (extractVerNums_faithful_iff "1.10.0" "1.9.0" ⟨_, rfl⟩ ⟨_, rfl⟩).mpr (by decide +kernel)

theorem extractVerNums_unfaithful : (AcceptedVersion "1.010.0" ∧ extractVerNums "1.010.0" = .ok (1, 8, 0) ∧
      ¬ SameOrder "1.010.0" "1.9.0") ∧ (AcceptedVersion "1.08.0" ∧ (extractVerNums "1.08.0").isOk = false) ∧
    (AcceptedVersion "1.0." ∧ (extractVerNums "1.0.").isOk = false) ∧
    AcceptedVersion "1.0" ∧ AcceptedVersion "1.0.0" ∧ extractVerNums "1.0" = extractVerNums "1.0.0" ∧
      (extractVerNums "1.0").map rowVersion = .ok "1.0.0" := by
  have h : extractVerNums "1.010.0" = .ok (1, 8, 0) := by decide +kernel
  refine ⟨⟨⟨_, rfl⟩, h, fun hs => ?_⟩, ⟨⟨_, rfl⟩, by decide +kernel⟩, ⟨⟨_, rfl⟩, by decide +kernel⟩, ⟨_, rfl⟩,
    ⟨_, rfl⟩, by decide +kernel, by decide +kernel⟩
  have hl := hs (1, 8, 0) (1, 9, 0) h (by decide +kernel) (by decide)
  exact absurd (hl.mp (by simp [lexLess])) (by decide +kernel)

end

end Goiardi.Cookbooks
