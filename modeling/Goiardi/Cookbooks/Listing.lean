import Goiardi.Cookbooks.Constrained
import Goiardi.Cookbooks.VersionNumbers

/-! The listing of the versions that satisfy a constraint. The scan leaves the sorted list early, but only where no
version further on satisfies the constraint. -/

namespace Goiardi.Cookbooks

open Validation List Text
open Uploads (component numericKey pairwise_insertionSort_key splitOn_digits splitOn_digits_dot)

inductive Comparison
  | equal
  | above
  | below
  | atLeast
  | atMost
deriving DecidableEq

def Comparison.text : Comparison → Text
  | equal => "="
  | above => ">"
  | below => "<"
  | atLeast => ">="
  | atMost => "<="

def dottedPair (x y : ℕ) : Text := Text.formatNat x ++ '.' :: Text.formatNat y

inductive Restriction
  | compare (op : Comparison) (x y z : ℕ)
  | pessimistic (x y z : ℕ)
  | pessimisticPair (x y : ℕ)
deriving DecidableEq

namespace Restriction

def operator : Restriction → Text
  | compare op _ _ _ => op.text
  | pessimistic .. | pessimisticPair .. => "~>"

def version : Restriction → Text
  | compare _ x y z | pessimistic x y z => dotted x y z
  | pessimisticPair x y => dottedPair x y

def text (r : Restriction) : Text := r.operator ++ ' ' :: r.version

def numbers : Restriction → List ℕ
  | compare _ x y z | pessimistic x y z => [x, y, z]
  | pessimisticPair x y => [x, y]

def point (x y z : ℕ) : ℕ ×ₗ ℕ ×ₗ ℕ := toLex (x, toLex (y, z))

def Admits (key : ℕ ×ₗ ℕ ×ₗ ℕ) : Restriction → Prop
  | compare .equal x y z => key = point x y z
  | compare .above x y z => point x y z < key
  | compare .below x y z => key < point x y z
  | compare .atLeast x y z => point x y z ≤ key
  | compare .atMost x y z => key ≤ point x y z
  | pessimistic x y z => point x y z ≤ key ∧ key < point x (y + 1) 0
  | pessimisticPair x y => point x y 0 ≤ key ∧ key < point (x + 1) 0 0

instance (key : ℕ ×ₗ ℕ ×ₗ ℕ) : (r : Restriction) → Decidable (r.Admits key)
  | compare .equal _ _ _ => inferInstanceAs (Decidable (_ = _))
  | compare .above _ _ _ | compare .below _ _ _ => inferInstanceAs (Decidable (_ < _))
  | compare .atLeast _ _ _ | compare .atMost _ _ _ => inferInstanceAs (Decidable (_ ≤ _))
  | pessimistic .. | pessimisticPair .. => inferInstanceAs (Decidable (_ ∧ _))

end Restriction

def Small (n : ℕ) : Prop := n < 2 ^ 62

instance (n : ℕ) : Decidable (Small n) := inferInstanceAs (Decidable (n < 2 ^ 62))

def Plain (ver : Text) : Prop := ∃ x y z, Small x ∧ Small y ∧ Small z ∧ ver = dotted x y z

section

variable {a b c x y z n : ℕ}

lemma Small.le_maxInt64 (h : Small n) : (n : ℤ) ≤ maxInt64 := by
  unfold Small at h
  unfold maxInt64
  omega

lemma Small.succ_le_maxInt64 (h : Small n) : ((n + 1 : ℕ) : ℤ) ≤ maxInt64 := by
  unfold Small at h
  unfold maxInt64
  omega

lemma atoi_formatNat (h : (n : ℤ) ≤ maxInt64) : atoi (formatNat n) = n := by
  have hf : Text.Fits n := ⟨by unfold minInt64; omega, h⟩
  rw [atoi, parseInt_formatNat, clamp_of_fits hf]

lemma Small.atoi (h : Small n) : atoi (formatNat n) = n := atoi_formatNat h.le_maxInt64

lemma Small.increment (h : Small n) : increment n = (n + 1 : ℕ) := by
  unfold Small at h
  have ho : (1 : Int64).toInt = 1 := rfl
  have hs : Int64.size = 2 ^ 64 := rfl
  have hn : (n : ℤ).bmod (2 ^ 64) = n := Int.bmod_eq_of_le (by omega) (by omega)
  rw [Cookbooks.increment, Int64.toInt_add, Int64.toInt_ofInt, hs, ho, hn, Int.bmod_eq_of_le (by omega) (by omega)]
  rfl

lemma splitOn_dottedPair (x y : ℕ) : (dottedPair x y).splitOn '.' = [formatNat x, formatNat y] := by
  rw [dottedPair, splitOn_digits_dot (all_isDigit_formatNat x), splitOn_digits (all_isDigit_formatNat y)]

lemma numbered_dotted (hx : Small x) (hy : Small y) (hz : Small z) : Numbered (dotted x y z) := by
  refine ⟨_, _, _, splitOn_dotted x y z, ?_⟩
  simp [splitOn_dotted, hx.atoi, hy.atoi, hz.atoi, digitsValue_formatNat]

lemma numbered_dottedPair (hx : (x : ℤ) ≤ maxInt64) (hy : (y : ℤ) ≤ maxInt64) : Numbered (dottedPair x y) := by
  refine ⟨_, _, _, splitOn_dottedPair x y, ?_⟩
  simp [splitOn_dottedPair, atoi_formatNat hx, atoi_formatNat hy, digitsValue_formatNat]

lemma rank_dotted (x y z : ℕ) : rank (dotted x y z) = toLex (x, toLex (y, (z : WithBot ℕ))) := by
  simp [rank, component, splitOn_dotted, headRank, digitsValue_formatNat]

lemma rank_dottedPair (x y : ℕ) : rank (dottedPair x y) = toLex (x, toLex (y, (⊥ : WithBot ℕ))) := by
  simp [rank, component, splitOn_dottedPair, headRank, digitsValue_formatNat]

lemma not_twoPart_dotted (x y z : ℕ) : ¬ TwoPart (dotted x y z) := by simp [TwoPart, splitOn_dotted]

lemma point_lt : Restriction.point a b c < Restriction.point x y z ↔ a < x ∨ a = x ∧ (b < y ∨ b = y ∧ c < z) := by
  rw [Restriction.point, Restriction.point, Prod.Lex.toLex_lt_toLex, Prod.Lex.toLex_lt_toLex]

lemma versionLess_dotted (ha : Small a) (hb : Small b) (hc : Small c) (hx : Small x) (hy : Small y) (hz : Small z) :
    versionLess (dotted a b c) (dotted x y z) = true ↔ Restriction.point a b c < Restriction.point x y z := by
  rw [(numbered_dotted ha hb hc).versionLess_iff (numbered_dotted hx hy hz), rank_dotted, rank_dotted, point_lt,
    Prod.Lex.toLex_lt_toLex, Prod.Lex.toLex_lt_toLex]
  simp [not_twoPart_dotted]

lemma versionLess_dottedPair (ha : Small a) (hb : Small b) (hc : Small c) (hx : (x : ℤ) ≤ maxInt64)
    (hy : (y : ℤ) ≤ maxInt64) :
    versionLess (dotted a b c) (dottedPair x y) = true ↔ Restriction.point a b c < Restriction.point x y 0 := by
  rw [(numbered_dotted ha hb hc).versionLess_iff (numbered_dottedPair hx hy), rank_dotted, rank_dottedPair, point_lt,
    Prod.Lex.toLex_lt_toLex, Prod.Lex.toLex_lt_toLex]
  simp [not_twoPart_dotted]

lemma numericKey_dotted (x y z : ℕ) : numericKey (dotted x y z) = Restriction.point x y z := by
  simp [numericKey, component, splitOn_dotted, digitsValue_formatNat, Restriction.point]

lemma dotted_inj : dotted a b c = dotted x y z ↔ Restriction.point a b c = Restriction.point x y z := by
  constructor
  · intro h
    rw [← numericKey_dotted, h, numericKey_dotted]
  · intro h
    simp only [Restriction.point, EmbeddingLike.apply_eq_iff_eq, Prod.mk.injEq] at h
    obtain ⟨rfl, rfl, rfl⟩ := h
    rfl

lemma upperBound_dotted (hy : Small y) : upperBound (dotted x y z) = dottedPair x (y + 1) := by
  have ha := hy.atoi
  rw [upperBound, splitOn_dotted]
  simp only [length_cons, length_nil, getD_cons_zero, getD_cons_succ, ha, hy.increment, if_true]
  rfl

lemma upperBound_dottedPair (hx : Small x) : upperBound (dottedPair x y) = dottedPair (x + 1) 0 := by
  have ha := hx.atoi
  rw [upperBound, splitOn_dottedPair]
  simp only [length_cons, length_nil, getD_cons_zero, ha, hx.increment]
  rfl

structure Judges (act : Action) (r : Restriction) (key : ℕ ×ₗ ℕ ×ₗ ℕ) : Prop where
  ok_iff : act = .ok ↔ r.Admits key
  ne_invalid : act ≠ .invalid
  breakOff : act = .breakOff → ∀ k ≤ key, ¬ r.Admits k

variable {v B : Text} {r : Restriction} {key : ℕ ×ₗ ℕ ×ₗ ℕ}

lemma judges_ok (h : r.Admits key) : Judges .ok r key :=
  ⟨iff_of_true rfl h, by simp, by simp⟩

lemma judges_skip (h : ¬ r.Admits key) : Judges .skip r key :=
  ⟨iff_of_false (by simp) h, by simp, by simp⟩

lemma judges_breakOff (h : ∀ k ≤ key, ¬ r.Admits k) : Judges .breakOff r key :=
  ⟨iff_of_false (by simp) (h key le_rfl), by simp, fun _ => h⟩

lemma judges_compare (op : Comparison) (heq : v = B ↔ key = Restriction.point x y z)
    (hl : versionLess v B = true ↔ key < Restriction.point x y z) :
    Judges (verConstraintCheck v B op.text) (.compare op x y z) key := by
  cases op with
  | equal =>
    change Judges (if v = B then .ok else if versionLess v B then .breakOff else .skip) _ _
    simp only [heq, hl]
    split_ifs with h₁ h₂
    · exact judges_ok h₁
    · exact judges_breakOff fun k hk (h : k = _) => not_lt_of_ge (h ▸ hk) h₂
    · exact judges_skip h₁
  | above =>
    change Judges (if v = B ∨ versionLess v B then .breakOff else .ok) _ _
    simp only [heq, hl, ← le_iff_eq_or_lt]
    split_ifs with h
    · exact judges_breakOff fun k hk => not_lt_of_ge (hk.trans h)
    · exact judges_ok (lt_of_not_ge h)
  | below =>
    change Judges (if v = B ∨ ¬ versionLess v B then .skip else .ok) _ _
    simp only [heq, hl]
    split_ifs with h
    · exact judges_skip fun hlt => h.elim hlt.ne (· hlt)
    · exact judges_ok (not_not.mp (not_or.mp h).2)
  | atLeast =>
    change Judges (if ¬ versionLess v B then .ok else .breakOff) _ _
    simp only [hl]
    split_ifs with h
    · exact judges_breakOff fun k hk => not_le_of_gt (hk.trans_lt h)
    · exact judges_ok (not_lt.mp h)
  | atMost =>
    change Judges (if v = B ∨ versionLess v B then .ok else .skip) _ _
    simp only [heq, hl, ← le_iff_eq_or_lt]
    split_ifs with h
    · exact judges_ok h
    · exact judges_skip h

lemma judges_pessimistic {low hi : ℕ ×ₗ ℕ ×ₗ ℕ} (hr : ∀ k, r.Admits k ↔ low ≤ k ∧ k < hi)
    (hl : versionLess v B = true ↔ key < low) (hh : versionLess v (upperBound B) = true ↔ key < hi) :
    Judges (verConstraintCheck v B "~>") r key := by
  change Judges (if versionLess v B then .breakOff
    else if ¬ versionLess v B ∧ versionLess v (upperBound B) then .ok else .skip) _ _
  simp only [hl, hh, not_lt]
  split_ifs with h₁ h₂
  · exact judges_breakOff fun k hk h => not_le_of_gt (hk.trans_lt h₁) ((hr k).mp h).1
  · exact judges_ok ((hr key).mpr h₂)
  · exact judges_skip fun h => h₂ ((hr key).mp h)

end

def Restriction.Plain (r : Restriction) : Prop := ∀ n ∈ r.numbers, Small n

lemma Restriction.Plain.judges {r : Restriction} (hr : r.Plain) {v : Text} (hv : Cookbooks.Plain v) :
    Judges (verConstraintCheck v r.version r.operator) r (numericKey v) := by
  obtain ⟨a, b, c, ha, hb, hc, rfl⟩ := hv
  rw [numericKey_dotted]
  cases r with
  | compare op x y z =>
    simp only [Plain, numbers, forall_mem_cons] at hr
    obtain ⟨hx, hy, hz, -⟩ := hr
    exact judges_compare op dotted_inj (versionLess_dotted ha hb hc hx hy hz)
  | pessimistic x y z =>
    simp only [Plain, numbers, forall_mem_cons] at hr
    obtain ⟨hx, hy, hz, -⟩ := hr
    refine judges_pessimistic (fun _ => Iff.rfl) (versionLess_dotted ha hb hc hx hy hz) ?_
    rw [version, upperBound_dotted hy]
    exact versionLess_dottedPair ha hb hc hx.le_maxInt64 hy.succ_le_maxInt64
  | pessimisticPair x y =>
    simp only [Plain, numbers, forall_mem_cons] at hr
    obtain ⟨hx, hy, -⟩ := hr
    refine judges_pessimistic (fun _ => Iff.rfl) (versionLess_dottedPair ha hb hc hx.le_maxInt64 hy.le_maxInt64) ?_
    rw [version, upperBound_dottedPair hx]
    exact versionLess_dottedPair ha hb hc hx.succ_le_maxInt64 (by decide)

section

variable (baseURL : Text) (c : Cookbook)

def Cookbook.entry (v : CookbookVersion) : Text × Text := (c.objURL baseURL ++ '/' :: v.version, v.version)

variable {α : Type} {numVersions : Option ℤ} {nr : ℤ}

def limited (numVersions : Option ℤ) (nr : ℤ) (l : List α) : List α :=
  match numVersions with
  | none => l
  | some m => l.take (m - nr).toNat

lemma limited_nil (numVersions : Option ℤ) (nr : ℤ) : limited numVersions nr ([] : List α) = [] := by
  cases numVersions <;> simp [limited]

lemma limited_of_le (h : numVersions.any (· ≤ nr) = true) (l : List α) : limited numVersions nr l = [] := by
  cases numVersions with
  | none => cases h
  | some m =>
    have hle : m ≤ nr := by simpa using h
    rw [limited, Int.toNat_of_nonpos (by omega), take_zero]

lemma limited_cons (h : ¬ numVersions.any (· ≤ nr) = true) (a : α)
    (l : List α) : limited numVersions nr (a :: l) = a :: limited numVersions (nr + 1) l := by
  cases numVersions with
  | none => rfl
  | some m =>
    have hlt : nr < m := by simpa using h
    have hs : (m - nr).toNat = (m - (nr + 1)).toNat + 1 := by omega
    rw [limited, limited, hs, take_succ_cons]

lemma Plain.customObjURL {v : CookbookVersion} (h : Plain v.version) :
    c.customObjURL baseURL v.version = .ok (c.entry baseURL v).1 := by
  obtain ⟨x, y, z, -, -, -, hv⟩ := h
  rw [Cookbook.entry, hv]
  obtain ⟨d, t, ht⟩ := exists_cons_of_ne_nil (formatNat_ne_nil x)
  have hd : d ≠ '/' := by
    rintro rfl
    exact not_mem_formatNat rfl x (ht ▸ mem_cons_self)
  rw [dotted, ht]
  unfold Cookbook.customObjURL
  split
  · next h => cases h
  · next h => exact absurd (List.cons.inj h).1 hd
  · rfl

lemma Cookbook.infoLoop_eq (numVersions : Option ℤ) (check : Text → Action) {vs : List CookbookVersion}
    (hp : ∀ v ∈ vs, Plain v.version) (hvl : ∀ v ∈ vs, check v.version ≠ .invalid)
    (hb : vs.Pairwise fun v w => check v.version = .breakOff → check w.version ≠ .ok) (nr : ℤ) :
    c.infoLoop baseURL numVersions check nr vs =
      .ok ((limited numVersions nr (vs.filter fun v => check v.version = .ok)).map (c.entry baseURL)) := by
  induction vs generalizing nr with
  | nil => rw [infoLoop, filter_nil, limited_nil, map_nil]
  | cons v vs ih =>
    obtain ⟨hv, hvs⟩ := forall_mem_cons.mp hp
    obtain ⟨hok, ho⟩ := forall_mem_cons.mp hvl
    obtain ⟨hf, hr⟩ := pairwise_cons.mp hb
    rw [infoLoop]
    split_ifs with hl
    · rw [limited_of_le hl, map_nil]
    · cases ha : check v.version with
      | skip => rw [filter_cons_of_neg (by simp [ha]), ih hvs ho hr]
      | breakOff =>
        have hn : ∀ w ∈ vs, ¬ check w.version = .ok := fun w hw => hf w hw ha
        rw [filter_cons_of_neg (by simp [ha]), filter_eq_nil_iff.mpr (by simpa using hn), limited_nil,
          map_nil]
      | invalid => exact absurd ha hok
      | ok =>
        have hr' := ih hvs ho hr (nr + 1)
        rw [filter_cons_of_pos (by simp [ha]), limited_cons hl, map_cons, hv.customObjURL, hr']
        rfl

end

section

variable {c : Cookbook} {r : Restriction}

lemma Plain.key_inj {v w : Text} (hv : Plain v) (hw : Plain w) (h : numericKey v = numericKey w) : v = w := by
  obtain ⟨a, b, d, -, -, -, rfl⟩ := hv
  obtain ⟨x, y, z, -, -, -, rfl⟩ := hw
  rw [numericKey_dotted, numericKey_dotted] at h
  exact dotted_inj.mpr h

lemma Plain.versionLess_iff {v w : Text} (hv : Plain v) (hw : Plain w) :
    versionLess v w = true ↔ numericKey v < numericKey w := by
  obtain ⟨a, b, d, ha, hb, hd, rfl⟩ := hv
  obtain ⟨x, y, z, hx, hy, hz, rfl⟩ := hw
  rw [numericKey_dotted, numericKey_dotted]
  exact versionLess_dotted ha hb hd hx hy hz

lemma Cookbook.sortedVersions_descending (hc : ∀ v ∈ c.versions, Plain v.version) :
    c.sortedVersions.Pairwise fun v w => numericKey w.version < numericKey v.version := by
  have hle := pairwise_insertionSort_key (r := fun v w : CookbookVersion => ¬ versionLess v.version w.version)
    (f := fun v => numericKey v.version) (p := fun v => Plain v.version)
    (fun v w hv hw h => not_lt.mp fun hlt => h ((hv.versionLess_iff hw).mpr hlt))
    (fun v w hv hw h => ((hv.versionLess_iff hw).mp (not_not.mp h)).le) hc
  have hn : (c.sortedVersions.map CookbookVersion.version).Nodup :=
    ((perm_insertionSort _ c.versions).map _).nodup_iff.mpr c.versions_nodup
  have hne := pairwise_map.mp hn
  refine (hle.and hne).imp_of_mem fun {v w} hv hw h => h.1.lt_of_ne fun heq => h.2 ?_
  exact ((hc w (mem_sortedVersions.mp hw)).key_inj (hc v (mem_sortedVersions.mp hv)) heq).symm

lemma Restriction.traints_text (r : Restriction) : traints r.text = some (r.operator, r.version) := by
  have hop : ' ' ∉ r.operator := by
    cases r with
    | compare op x y z => cases op <;> simp [operator, Comparison.text]
    | _ => simp [operator]
  have hv : ' ' ∉ r.version := by
    cases r <;> simp [version, dotted, dottedPair, not_mem_formatNat (c := ' ') rfl]
  rw [traints, text, splitOn_append_cons_self, splitOn_eq_singleton hop, splitOn_eq_singleton hv]
  rfl

lemma numVersionsOf_formatNat (n : ℕ) : numVersionsOf (formatNat n) = some (atoi (formatNat n)) := by
  have ha : formatNat n ≠ "all" := by
    intro h
    exact not_mem_formatNat (c := 'a') rfl n (h ▸ by decide)
  rw [numVersionsOf, if_pos ⟨formatNat_ne_nil n, ha⟩]

structure Cookbook.Lists (c : Cookbook) (baseURL : Text) (r : Restriction) (l : List CookbookVersion) : Prop where
  perm : l.Perm (c.versions.filter fun v => r.Admits (numericKey v.version))
  descending : l.Pairwise fun v w => numericKey w.version < numericKey v.version
  first : ∀ n : ℕ, c.constrainedInfoHash baseURL (Text.formatNat n) r.text =
    .ok (some ⟨c.objURL baseURL, (l.take n).map (c.entry baseURL)⟩)
  all : c.constrainedInfoHash baseURL "all" r.text =
    .ok (some ⟨c.objURL baseURL, l.map (c.entry baseURL)⟩)
  latest : c.latestConstrained r.text = .ok l.head?

lemma take_limit {α : Type} {l : List α} (h : (l.length : ℤ) ≤ maxInt64) (n : ℕ) :
    limited (some (atoi (formatNat n))) 0 l = l.take n := by
  have hm : ¬ (n : ℤ) < minInt64 := by
    unfold minInt64
    omega
  rw [limited, atoi, parseInt_formatNat, clamp, if_neg hm]
  split_ifs with hmx
  · rw [take_of_length_le (by dsimp only; omega), take_of_length_le (by omega)]
  · rw [sub_zero, Int.toNat_natCast]

end

end Goiardi.Cookbooks
