import Goiardi.Base.Sorting
import Goiardi.Base.Text

/-! The last part of a search: its results are sorted, and one page of them is returned. -/

namespace Goiardi.Search

open List

inductive IntType
  | int
  | int8
  | int16
  | int32
  | int64
deriving DecidableEq, Repr

abbrev FloatValue := Option (WithBot (WithTop ℚ))

/-- The dynamic types that a value under the sort key can have. Only the ones with a case of their own are compared. -/
inductive SortValue
  | nil
  | int (type : IntType) (n : ℤ)
  | uint (type : IntType) (n : ℕ)
  | float (double : Bool) (x : FloatValue)
  | string (t : Text)
  | other (type : Text)
deriving DecidableEq

def IntType.compared (t : IntType) : Bool := t ≠ .int16

def lessFloat : FloatValue → FloatValue → Bool
  | some x, some y => x < y
  | _, _ => false

def lessValues : SortValue → SortValue → Bool
  | _, .nil => true
  | .nil, _ => false
  | .int t m, .int t' n => t = t' && t.compared && m < n
  | .uint t m, .uint t' n => t = t' && t.compared && m < n
  | .float d x, .float d' y => d = d' && lessFloat x y
  | .string t, .string u => t < u
  | _, _ => false

inductive Compared
  | int (type : IntType)
  | uint (type : IntType)
  | float (double : Bool)
  | string
deriving DecidableEq, Repr

def SortValue.compared : SortValue → Option Compared
  | .int t _ => if t.compared then some (.int t) else none
  | .uint t _ => if t.compared then some (.uint t) else none
  | .float d x => if x.isSome then some (.float d) else none
  | .string _ => some .string
  | .nil | .other _ => none

def SortValue.Comparable (a b : SortValue) : Prop := a.compared.isSome = true ∧ a.compared = b.compared

abbrev Result := List (Text × SortValue)

structure Results where
  res : List Result
  sortKey : Text

namespace Results

def base (sortKey : Text) (m : Result) : SortValue := (m.lookup sortKey).getD .nil

def less (r : Results) (i j : Fin r.res.length) : Bool :=
  lessValues (base r.sortKey r.res[i]) (base r.sortKey r.res[j])

end Results

section

variable (sorter : Sorter Result)

def orderKey (sortOrder : Text) : Text :=
  let sortKey := (sortOrder.splitOn ' ').headD []
  if sortKey = "id" then "name" else sortKey

def descends (sortOrder : Text) : Bool :=
  match sortOrder.splitOn ' ' with
  | _ :: ordering :: _ => ordering.map Char.toLower = "desc"
  | _ => false

def lessResults (sortKey : Text) (a b : Result) : Bool := lessValues (Results.base sortKey a) (Results.base sortKey b)

def sortResults (res : List Result) (sortOrder : Text) : List Result :=
  let less := lessResults (orderKey sortOrder)
  if descends sortOrder then sorter.sort (fun a b => less b a) res else sorter.sort less res

end

section

variable {α : Type}

def pageEnd (length : ℕ) (rows start : Int64) : ℤ :=
  if (length : ℤ) < (start + rows).toInt then length else (start + rows).toInt

/-- `res[start:end]` -/
def page (res : List α) (rows start : Int64) : Except Panic (List α) :=
  let stop := pageEnd res.length rows start
  if 0 ≤ start.toInt ∧ start.toInt ≤ stop then .ok ((res.take stop.toNat).drop start.toInt.toNat)
  else .error .indexOutOfRange

/-- What the handler passes on of a parameter: the error of `Atoi` is dropped. -/
def formInt (default : Int64) : Option (List Text) → Int64
  | none => default
  | some [] => 0
  | some (t :: _) => Int64.ofInt (Text.parseInt t).1

def defaultRows : Int64 := 1000

def finish (sorter : Sorter Result) (res : List Result) (sortOrder : Text) (rows start : Int64) :
    Except Panic (List Result) := page (sortResults sorter res sortOrder) rows start

end

section

variable {α : Type} {res : List α} {rows start : Int64}

lemma formInt_surjective (default n : Int64) : ∃ form, formInt default form = n := by
  refine ⟨some [Text.formatInt n.toInt], ?_⟩
  have hf : Text.Fits n.toInt := ⟨Int64.le_toInt n, by
    have := Int64.toInt_lt n
    rw [Text.maxInt64]
    omega⟩
  rw [formInt, Text.parseInt_formatInt, Text.clamp_of_fits hf, Int64.ofInt_toInt]

def InBounds (length : ℕ) (rows start : Int64) : Prop :=
  0 ≤ start.toInt ∧ start.toInt ≤ length ∧ 0 ≤ rows.toInt ∧ start.toInt + rows.toInt ≤ Text.maxInt64

lemma toInt_add_of_fits (h : Text.Fits (start.toInt + rows.toInt)) :
    (start + rows).toInt = start.toInt + rows.toInt := by
  obtain ⟨hlo, hhi⟩ := h
  rw [Text.minInt64] at hlo
  rw [Text.maxInt64] at hhi
  rw [Int64.toInt_add]
  exact Int.bmod_eq_of_le (by omega) (by omega)

lemma toInt_add_of_overflow (hs : 0 ≤ start.toInt) (h : Text.maxInt64 < start.toInt + rows.toInt) :
    (start + rows).toInt < 0 := by
  have hr := Int64.toInt_lt rows
  have hs' := Int64.toInt_lt start
  rw [Text.maxInt64] at h
  rw [Int64.toInt_add, Int.bmod_def]
  omega

lemma pageEnd_of_fits (length : ℕ) (h : Text.Fits (start.toInt + rows.toInt)) :
    pageEnd length rows start = min (length : ℤ) (start.toInt + rows.toInt) := by
  rw [pageEnd, toInt_add_of_fits h]
  omega

lemma page_of_inBounds (h : InBounds res.length rows start) :
    page res rows start = .ok ((res.drop start.toInt.toNat).take rows.toInt.toNat) := by
  obtain ⟨hs, hl, hr, hsm⟩ := h
  have he := pageEnd_of_fits res.length ⟨by rw [Text.minInt64]; omega, hsm⟩
  rw [page, if_pos ⟨hs, by omega⟩, he, drop_take]
  rcases le_total (res.length : ℤ) (start.toInt + rows.toInt) with hc | hc
  · rw [min_eq_left hc, take_of_length_le, take_of_length_le]
    all_goals
      rw [length_drop]
      omega
  · rw [min_eq_right hc]
    congr 2
    omega

lemma inBounds_of_page {l : List α} (h : page res rows start = .ok l) : InBounds res.length rows start := by
  rw [page] at h
  split at h
  · next hb =>
    obtain ⟨hs, hst⟩ := hb
    have hsm : start.toInt + rows.toInt ≤ Text.maxInt64 := by
      by_contra! ho
      have hn := toInt_add_of_overflow hs ho
      rw [pageEnd, if_neg (by omega)] at hst
      omega
    have hl := Int64.le_toInt rows
    rw [pageEnd_of_fits _ ⟨by rw [Text.minInt64]; omega, hsm⟩] at hst
    exact ⟨hs, by omega, by omega, hsm⟩
  · cases h

theorem finish_pages_iff (sorter : Sorter Result) (res : List Result) (sortOrder : Text) (rows start : Int64) :
    (∃ l, finish sorter res sortOrder rows start = .ok l ∧ (0 ≤ rows → 0 ≤ start →
        l = ((sortResults sorter res sortOrder).drop start.toInt.toNat).take rows.toInt.toNat)) ↔
      InBounds res.length rows start := by
  have hln : (sortResults sorter res sortOrder).length = res.length := by
    rw [sortResults]
    split
    · exact (sorter.perm _ _).length_eq
    · exact (sorter.perm _ _).length_eq
  constructor
  · rintro ⟨l, hl, -⟩
    rw [← hln]
    exact inBounds_of_page hl
  · intro h
    rw [← hln] at h
    exact ⟨_, page_of_inBounds h, fun _ _ => rfl⟩

def namedResult (name : String) : Result := [("name", .string name.toList)]

theorem finish_panics : finish (Sorter.insertion _) [namedResult "a"] "id ASC" 1000 2 = .error .indexOutOfRange ∧
      finish (Sorter.insertion _) [namedResult "a"] "id ASC" (-1) 0 = .error .indexOutOfRange ∧
      finish (Sorter.insertion _) [namedResult "a"] "id ASC" Int64.maxValue 1 = .error .indexOutOfRange := by
  decide +kernel

end

section

variable {a b c : SortValue}

lemma SortValue.Comparable.symm (h : a.Comparable b) : b.Comparable a := ⟨h.2 ▸ h.1, h.2.symm⟩

lemma SortValue.Comparable.trans (hab : a.Comparable b) (hbc : b.Comparable c) : a.Comparable c :=
  ⟨hab.1, hab.2.trans hbc.2⟩

def SortValue.rank : SortValue → WithBot (WithTop ℚ) ×ₗ Text
  | .int _ n => toLex (((n : ℚ) : WithTop ℚ), [])
  | .uint _ n => toLex (((n : ℚ) : WithTop ℚ), [])
  | .float _ x => toLex (x.getD 0, [])
  | .string t => toLex (0, t)
  | .nil | .other _ => toLex (0, [])

lemma lessValues_iff (hb : b ≠ .nil) : lessValues a b = true ↔ a.Comparable b ∧ a.rank < b.rank := by
  cases a with
  | int t m =>
    cases b with
    | int t' n => by_cases ht : t = t' <;> by_cases hc : t.compared = true <;>
        simp_all [lessValues, SortValue.Comparable, SortValue.compared, SortValue.rank, Prod.Lex.toLex_lt_toLex]
    | _ => simp_all [lessValues, SortValue.Comparable, SortValue.compared]
  | uint t m =>
    cases b with
    | uint t' n => by_cases ht : t = t' <;> by_cases hc : t.compared = true <;>
        simp_all [lessValues, SortValue.Comparable, SortValue.compared, SortValue.rank, Prod.Lex.toLex_lt_toLex]
    | _ => simp_all [lessValues, SortValue.Comparable, SortValue.compared]
  | float d x =>
    cases b with
    | float d' y => cases x <;> cases y <;>
        simp_all [lessValues, lessFloat, SortValue.Comparable, SortValue.compared, SortValue.rank, Prod.Lex.toLex_lt_toLex]
    | _ => cases x <;> simp_all [lessValues, SortValue.Comparable, SortValue.compared]
  | string t =>
    cases b with
    | string u => simp [lessValues, SortValue.Comparable, SortValue.compared, SortValue.rank, Prod.Lex.toLex_lt_toLex]
    | _ => simp_all [lessValues, SortValue.Comparable, SortValue.compared]
  | nil => cases b <;> simp_all [lessValues, SortValue.Comparable, SortValue.compared]
  | other t => cases b <;> simp_all [lessValues, SortValue.Comparable, SortValue.compared]

variable {ι : Type} {v : ι → SortValue}

lemma strictOrder_less (hv : ∀ i, v i ≠ .nil) : IsStrictOrder ι fun i j => lessValues (v i) (v j) = true where
  irrefl i := by simp [lessValues_iff (hv i)]
  trans i j k hij hjk := by
    rw [lessValues_iff (hv _)] at hij hjk ⊢
    exact ⟨hij.1.trans hjk.1, hij.2.trans hjk.2⟩

lemma comparable_or_unordered (hv : ∀ i, v i ≠ .nil)
    (h : IsStrictWeakOrder ι fun i j => lessValues (v i) (v j) = true) :
    (∀ i j, (v i).Comparable (v j)) ∨ ∀ i j, lessValues (v i) (v j) = false := by
  by_contra! hb
  obtain ⟨⟨k, k', hk⟩, i, j, hij⟩ := hb
  have hlt : lessValues (v i) (v j) = true := by simpa using hij
  have hc := ((lessValues_iff (hv j)).mp hlt).1
  -- a value that is not compared with the smaller one is not compared with the larger one either
  have ha (m : ι) (hm : ¬ (v i).Comparable (v m)) : False := by
    have hnt (n : ι) (hn : (v i).Comparable (v n)) :
        ¬ lessValues (v n) (v m) = true ∧ ¬ lessValues (v m) (v n) = true := by
      constructor
      · intro hl
        exact hm (hn.trans ((lessValues_iff (hv m)).mp hl).1)
      · intro hl
        exact hm (hn.trans ((lessValues_iff (hv n)).mp hl).1.symm)
    have hi := hnt i (hc.trans hc.symm)
    have hj := hnt j hc
    exact (h.incomp_trans i m j hi hj.symm).1 hlt
  by_cases hik : (v i).Comparable (v k)
  · exact ha k' fun hi' => hk (hik.symm.trans hi')
  · exact ha k hik

lemma strictWeak_iff (hv : ∀ i, v i ≠ .nil) : IsStrictWeakOrder ι (fun i j => lessValues (v i) (v j) = true) ↔
      (∀ i j, (v i).Comparable (v j)) ∨ ∀ i j, lessValues (v i) (v j) = false := by
  constructor
  · exact comparable_or_unordered hv
  · intro h
    refine { strictOrder_less hv with incomp_trans := ?_ }
    intro i j k hij hjk
    rcases h with ha | hn
    · simp only [lessValues_iff (hv _), ha, true_and, not_lt] at hij hjk ⊢
      exact ⟨hjk.1.trans hij.1, hij.2.trans hjk.2⟩
    · simp [hn]

namespace Results

def Ordered (r : Results) : Prop :=
  (∀ i j : Fin r.res.length, (base r.sortKey r.res[i]).Comparable (base r.sortKey r.res[j])) ∨
    ∀ i j, r.less i j = false

def NoInversions (sortKey : Text) (descending : Bool) (sorted : List Result) : Prop :=
  sorted.Pairwise fun a b =>
    (if descending then lessResults sortKey a b else lessResults sortKey b a) = false

end Results

theorem less_ordered (r : Results) (hkey : ∀ m ∈ r.res, Results.base r.sortKey m ≠ .nil) : (∀ i, r.less i i = false) ∧
      (∀ i j, r.less i j = true → r.less j i = false) ∧
      (∀ i j k, r.less i j = true → r.less j k = true → r.less i k = true) ∧
      (IsStrictWeakOrder (Fin r.res.length) (fun i j => r.less i j = true) ↔ r.Ordered) ∧
      (r.Ordered → ∀ sorter : Sorter Result,
        Results.NoInversions r.sortKey false (sorter.sort (lessResults r.sortKey) r.res) ∧
          Results.NoInversions r.sortKey true (sorter.sort (fun a b => lessResults r.sortKey b a) r.res)) := by
  have hv (i : Fin r.res.length) : Results.base r.sortKey r.res[i] ≠ .nil := hkey _ (getElem_mem _)
  have hs := strictOrder_less hv
  have hi := strictWeak_iff hv
  refine ⟨fun i => by simpa using! hs.irrefl i, fun i j hij => ?_, hs.trans, hi, fun h sorter => ?_⟩
  · rw [← Bool.not_eq_true]
    exact fun hji => hs.irrefl i (hs.trans i j i hij hji)
  · have hw := hi.mpr h
    have hsw : IsStrictWeakOrder (Fin r.res.length) fun i j => lessResults r.sortKey r.res[j] r.res[i] = true :=
      { irrefl := hw.irrefl
        trans := fun i j k hij hjk => hw.trans k j i hjk hij
        incomp_trans := fun i j k hij hjk => (hw.incomp_trans i j k hij.symm hjk.symm).symm }
    exact ⟨sorter.sorted _ _ hw, sorter.sorted _ _ hsw⟩

def flaggedResult : Result := [("name", .other "bool")]

theorem less_ordered_names : ∃ r : Results, r.res = [namedResult "b", namedResult "a"] ∧ r.Ordered ∧
      IsStrictWeakOrder (Fin r.res.length) fun i j => r.less i j = true := by
  have ho : (Results.mk [namedResult "b", namedResult "a"] "name").Ordered := .inl <| by
    intro i j
    fin_cases i <;> fin_cases j <;> exact ⟨rfl, rfl⟩
  refine ⟨_, rfl, ho, ((less_ordered _ ?_).2.2.2.1).mpr ho⟩
  decide +kernel

theorem less_not_ordered : ¬ IsStrictWeakOrder (Fin 3)
        (fun i j => (Results.mk [namedResult "a", flaggedResult, namedResult "b"] "name").less i j = true) ∧
      ¬ IsStrictWeakOrder (Fin 1) (fun i j => (Results.mk [[]] "name").less i j = true) := by
  constructor
  · intro h
    exact absurd ((h.incomp_trans 0 1 2 (by decide +kernel) (by decide +kernel)).1) (by decide +kernel)
  · intro h
    exact h.irrefl 0 (by decide +kernel)

end

end Goiardi.Search
