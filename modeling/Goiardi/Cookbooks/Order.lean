import Goiardi.Cookbooks.Latest

/-! The order of versions. `versionLess` compares the numbers, with a missing third one before all others; two spellings
of the same two numbers are each less than the other. -/

namespace Goiardi.Cookbooks

open Validation List
open Uploads (component pairwise_insertionSort_key)

def TwoPart (ver : Text) : Prop := (ver.splitOn '.').length = 2

instance (ver : Text) : Decidable (TwoPart ver) := inferInstanceAs (Decidable (_ = 2))

def headRank : List Text → WithBot ℕ
  | [] => ⊥
  | p :: _ => (Text.digitsValue p : ℕ)

def rank (ver : Text) : ℕ ×ₗ ℕ ×ₗ WithBot ℕ :=
  toLex (component ver 0, toLex (component ver 1, headRank ((ver.splitOn '.').drop 2)))

variable {a b : Text}

lemma rank_lt : rank a < rank b ↔ component a 0 < component b 0 ∨ component a 0 = component b 0 ∧
    (component a 1 < component b 1 ∨ component a 1 = component b 1 ∧
      headRank ((a.splitOn '.').drop 2) < headRank ((b.splitOn '.').drop 2)) := by
  rw [rank, rank, Prod.Lex.toLex_lt_toLex, Prod.Lex.toLex_lt_toLex]

lemma rank_eq : rank a = rank b ↔ component a 0 = component b 0 ∧ component a 1 = component b 1 ∧
    headRank ((a.splitOn '.').drop 2) = headRank ((b.splitOn '.').drop 2) := by
  simp [rank]

lemma partsLess_cons (q : ℕ) (ic jc : Text) (iVer jVer : List Text) :
    partsLess (q + 1) (ic :: iVer) (jc :: jVer) = true ↔
      atoi ic < atoi jc ∨ atoi ic = atoi jc ∧ partsLess q iVer jVer = true := by
  rw [partsLess]
  split_ifs with h
  · rw [decide_eq_true_iff]
    exact ⟨.inl, fun hlt => hlt.resolve_right fun heq => h heq.1⟩
  · rw [not_not] at h
    simp [h]

lemma partsLess_third {as bs : List Text} (has : ∀ p ∈ as, atoi p = Text.digitsValue p)
    (hbs : ∀ p ∈ bs, atoi p = Text.digitsValue p) :
    partsLess 1 as bs = true ↔ headRank as < headRank bs ∨ headRank as = headRank bs ∧ as = [] := by
  cases as with
  | nil => cases bs <;> simp [partsLess, headRank]
  | cons p as =>
    cases bs with
    | nil => simp [partsLess, headRank]
    | cons r bs =>
      rw [partsLess_cons, has p (.head _), hbs r (.head _)]
      simp [partsLess, headRank]

def Numbered (ver : Text) : Prop :=
  ∃ major minor rest, ver.splitOn '.' = major :: minor :: rest ∧ ∀ p ∈ ver.splitOn '.', atoi p = Text.digitsValue p

lemma numbered_of_accepted (h : AcceptedVersion a) : Numbered a := by
  obtain ⟨major, minor, rest, hs, -, hp⟩ := Uploads.AcceptedVersion.parts h
  exact ⟨major, minor, rest, hs, hp⟩

lemma Numbered.versionLess_iff (ha : Numbered a) (hb : Numbered b) :
    versionLess a b = true ↔ rank a < rank b ∨ rank a = rank b ∧ TwoPart a ∧ a ≠ b := by
  by_cases heq : a = b
  · subst heq
    simp [versionLess]
  obtain ⟨a₀, a₁, as, hsa, hna⟩ := ha
  obtain ⟨b₀, b₁, bs, hsb, hnb⟩ := hb
  rw [hsa] at hna
  rw [hsb] at hnb
  simp only [forall_mem_cons] at hna hnb
  obtain ⟨ha₀, ha₁, has⟩ := hna
  obtain ⟨hb₀, hb₁, hbs⟩ := hnb
  have ht : TwoPart a ↔ as = [] := by simp [TwoPart, hsa]
  rw [versionLess, if_neg heq, rank_lt, rank_eq, hsa, hsb, partsLess_cons, partsLess_cons, partsLess_third has hbs, ha₀,
    ha₁, hb₀, hb₁, ht]
  simp only [component, hsa, hsb, getD_cons_zero, getD_cons_succ, drop_succ_cons, drop_zero,
    Nat.cast_lt, Nat.cast_inj]
  tauto

lemma versionLess_iff (ha : AcceptedVersion a) (hb : AcceptedVersion b) :
    versionLess a b = true ↔ rank a < rank b ∨ rank a = rank b ∧ TwoPart a ∧ a ≠ b :=
  (numbered_of_accepted ha).versionLess_iff (numbered_of_accepted hb)

def OneSpelling (S : Set Text) : Prop :=
  ∀ a ∈ S, ∀ b ∈ S, TwoPart a → TwoPart b → component a 0 = component b 0 → component a 1 = component b 1 → a = b

lemma headRank_of_twoPart (h : TwoPart a) : headRank ((a.splitOn '.').drop 2) = ⊥ := by
  rw [drop_eq_nil_of_le h.le]
  rfl

lemma rank_eq_of_twoPart (ha : TwoPart a) (hb : TwoPart b) :
    rank a = rank b ↔ component a 0 = component b 0 ∧ component a 1 = component b 1 := by
  rw [rank_eq, headRank_of_twoPart ha, headRank_of_twoPart hb]
  simp

lemma TwoPart.of_rank (ha : TwoPart a) (hb : AcceptedVersion b) (h : rank a = rank b) : TwoPart b := by
  obtain ⟨b₀, b₁, bs, hsb, -, -⟩ := Uploads.AcceptedVersion.parts hb
  have hr := (rank_eq.mp h).2.2
  rw [headRank_of_twoPart ha, hsb] at hr
  cases bs with
  | nil => simp [TwoPart, hsb]
  | cons p bs => cases hr

lemma OneSpelling.versionLess_iff {S : Set Text} (h : OneSpelling S) (hS : ∀ v ∈ S, AcceptedVersion v) (ha : a ∈ S)
    (hb : b ∈ S) : versionLess a b = true ↔ rank a < rank b := by
  rw [Cookbooks.versionLess_iff (hS a ha) (hS b hb), or_iff_left_iff_imp]
  rintro ⟨hr, ht, hne⟩
  have ht' := ht.of_rank (hS b hb) hr
  obtain ⟨h₀, h₁⟩ := (rank_eq_of_twoPart ht ht').mp hr
  exact absurd (h a ha b hb ht ht' h₀ h₁) hne

end Goiardi.Cookbooks
