import Goiardi.Search.Statement

/-! A range in the two searches: the bounds that the statement compares a value with, and those that the trie search
compares it with. -/

namespace Goiardi.Search.Postgres

open List IdxDoc

def Comparison.admits (value arg : Text) : Comparison → Bool
  | equal => value = arg
  | unequal => value ≠ arg
  | above equals => if equals then arg ≤ value else arg < value
  | below equals => if equals then value ≤ arg else value < arg
  | _ => false

def valueTest : Piece × Text → Option (Comparison × Text)
  | (.test _ .value c, arg) => some (c, arg)
  | _ => none

def valueTests (b : Built) : List (Comparison × Text) := ((slotted b.clause).zip b.args).filterMap valueTest

/-- What a condition asks of the value: all its comparisons, negated if it starts with `NOT`. -/
def valueCondition (b : Built) (value : Text) : Bool :=
  xor (.not ∈ b.clause) ((valueTests b).all fun t => t.1.admits value t.2)

section

variable (lib : Library) (cvt : Bool) (field start stop : Text) (inclusive negated : Bool) (tNum : ℕ) (op : Op)

lemma not_mem_bounds (column : Column) (l : List (Text × Comparison × Comparison))
    (f : Text × Comparison × Comparison → Comparison) :
    .not ∉ [Piece.and].intercalate (l.map fun b => [Piece.test tNum column (f b)]) := by
  induction l with
  | nil => simp
  | cons b l ih =>
    cases l with
    | nil => simp
    | cons b' l =>
      rw [map_cons] at ih
      rw [map_cons, map_cons, intercalate_cons_cons, mem_append, mem_append, not_or, not_or]
      exact ⟨⟨by simp, by simp⟩, ih⟩

lemma not_mem_rangeClause (bounds : List (Text × Comparison × Comparison)) :
    .not ∈ rangeClause bounds tNum op negated ↔ negated = true := by
  have hop : Piece.not ∉ binOp op := by cases op <;> simp [binOp]
  have hv := not_mem_bounds tNum .value bounds fun b => b.2.1
  have hp := not_mem_bounds tNum .path bounds fun b => b.2.2
  unfold rangeClause
  by_cases hb : bounds = []
  · cases negated <;> simp [hb, hop]
  · cases negated <;> simp [hb, hop, hv, hp]

lemma valueTests_range : valueTests (buildRangeQuery lib cvt field start stop inclusive tNum op negated) =
    (if stop < start then rangeBounds stop start inclusive else rangeBounds start stop inclusive).map
      fun b => (b.2.1, b.1) := by
  rw [valueTests, buildRangeQuery]
  generalize (if stop < start then rangeBounds stop start inclusive else rangeBounds start stop inclusive) = bounds
  dsimp only
  have hv : ((bounds.map fun b => Piece.test tNum .value b.2.1).zip (bounds.map Prod.fst)).filterMap valueTest =
      bounds.map fun b => (b.2.1, b.1) := by
    induction bounds with
    | nil => rfl
    | cons b bounds ih => simp [valueTest, ih]
  have hpt (args : List Text) : (List.zip (if bounds = [] then [] else
      .test tNum .path .pathMatch :: bounds.map fun b => .test tNum .path b.2.2) args).filterMap valueTest = [] := by
    refine filterMap_eq_nil_iff.mpr fun pa hp => ?_
    obtain ⟨p, arg⟩ := pa
    replace hp := (of_mem_zip hp).1
    split_ifs at hp
    · cases hp
    · rcases mem_cons.mp hp with rfl | hp
      · rfl
      · obtain ⟨b, -, rfl⟩ := mem_map.mp hp
        rfl
  rw [slotted_rangeClause, append_assoc, append_assoc, singleton_append, cons_append,
    zip_cons_cons, zip_append (by simp), filterMap_cons_none rfl, filterMap_append, hv, hpt,
    append_nil]

lemma valueCondition_range (value : Text) :
    valueCondition (buildRangeQuery lib cvt field start stop inclusive tNum op negated) value =
      xor negated ((if stop < start then rangeBounds stop start inclusive else rangeBounds start stop inclusive).all
        fun b => b.2.1.admits value b.1) := by
  have hn : decide (Piece.not ∈ (buildRangeQuery lib cvt field start stop inclusive tNum op negated).clause) =
      negated := by
    rw [Bool.eq_iff_iff, decide_eq_true_iff]
    exact not_mem_rangeClause negated tNum op _
  rw [valueCondition, hn, valueTests_range, all_map]
  rfl

lemma lt_iff_append_le (l v : Text) : l < v ↔ l ++ [Char.ofNat 0] ≤ v := by
  have hm (c : Char) : ¬ c < Char.ofNat 0 := fun h => absurd (Char.lt_def.mp h) (by simp)
  rw [← not_lt]
  induction l generalizing v with
  | nil =>
    cases v with
    | nil => simp
    | cons c v => simp [cons_lt_cons_iff, hm]
  | cons a l ih =>
    cases v with
    | nil => simp
    | cons c v =>
      have hv := ih v
      rw [cons_append, cons_lt_cons_iff, cons_lt_cons_iff]
      rcases lt_trichotomy a c with h | rfl | h
      · simp [h, h.not_gt, h.ne']
      · simp [hv]
      · simp [h, h.not_gt, h.ne']

lemma all_rangeBounds (value : Text) : (rangeBounds start stop inclusive).all (fun b => b.2.1.admits value b.1) =
    ((start = ['*'] || (Comparison.above inclusive).admits value start) &&
      (stop = ['*'] || (Comparison.below inclusive).admits value stop)) := by
  unfold rangeBounds
  split_ifs with h₁ h₂ h₂ <;> simp_all

variable {start stop}

lemma forall_between_iff (hlt : stop < start) :
    (∀ value, ¬ (stop < value ∧ value < start)) ↔ start = stop ++ [Char.ofNat 0] := by
  constructor
  · intro h
    have hn : stop < stop ++ [Char.ofNat 0] := (lt_iff_append_le stop _).mpr le_rfl
    exact le_antisymm (le_of_not_gt fun hs => h _ ⟨hn, hs⟩) ((lt_iff_append_le stop start).mp hlt)
  · rintro rfl value ⟨hl, hr⟩
    exact not_lt_of_ge ((lt_iff_append_le stop value).mp hl) hr

lemma condition_ordered (hw : ¬ (start = ['*'] ∧ stop = ['*'])) (hle : start ≤ stop) :
    (∀ value, valueCondition (buildRangeQuery lib cvt field start stop inclusive tNum op negated) value =
      rangeTest start stop inclusive negated value) ↔ negated = false := by
  simp only [valueCondition_range, if_neg hle.not_gt, all_rangeBounds]
  cases negated with
  | false =>
    refine iff_of_true (fun value => ?_) rfl
    by_cases hs : start = ['*'] <;> by_cases hst : stop = ['*'] <;> cases inclusive <;>
      simp_all [rangeTest, Comparison.admits]
  | true =>
    -- The negations keep the bounds in one search and not in the other.
    refine iff_of_false (fun h => ?_) Bool.noConfusion
    by_cases hs : start = ['*']
    · replace h := h stop
      cases inclusive <;> simp_all [rangeTest, Comparison.admits]
    · replace h := h start
      by_cases hst : stop = ['*'] <;> cases inclusive <;>
        simp_all [rangeTest, Comparison.admits, hle.not_gt]

lemma condition_swapped (hlt : stop < start) :
    (∀ value, valueCondition (buildRangeQuery lib cvt field start stop inclusive tNum op negated) value =
      rangeTest start stop inclusive negated value) ↔
      inclusive = false ∧ start ≠ ['*'] ∧ stop ≠ ['*'] ∧ start = stop ++ [Char.ofNat 0] := by
  simp only [valueCondition_range, if_pos hlt, all_rangeBounds]
  by_cases hs : start = ['*']
  · refine iff_of_false (fun h => ?_) fun h => h.2.1 hs
    subst hs
    replace h := h ['*']
    cases negated <;> cases inclusive <;>
      simp [rangeTest, Comparison.admits, hlt, hlt.le, hlt.ne, hlt.not_ge, hlt.not_gt] at h
  by_cases hst : stop = ['*']
  · refine iff_of_false (fun h => ?_) fun h => h.2.2.1 hst
    subst hst
    replace h := h ['*']
    cases negated <;> cases inclusive <;>
      simp [rangeTest, Comparison.admits, hlt, hlt.le, hlt.ne', hlt.not_ge, hlt.not_gt] at h
  cases inclusive with
  | true =>
    refine iff_of_false (fun h => ?_) fun h => Bool.noConfusion h.1
    replace h := h start
    cases negated <;> simp [rangeTest, Comparison.admits, hs, hst, hlt.le, hlt.not_ge] at h
  | false =>
    rw [← forall_between_iff hlt]
    have ht (value : Text) : rangeTest start stop false negated value = negated := by
      cases negated with
      | false =>
        simp only [rangeTest, hs, hst, if_false, Bool.and_eq_false_iff, decide_eq_false_iff_not, not_lt]
        exact (le_or_gt value start).imp_right fun h => (hlt.trans h).le
      | true =>
        simp only [rangeTest, hs, hst, if_false, Bool.or_eq_true, decide_eq_true_iff]
        exact (lt_or_ge value start).imp_right fun h => hlt.trans_le h
    cases negated <;> simp [ht, Comparison.admits, hs, hst, or_iff_not_imp_left]

/-- The two searches take the same values of a range exactly if its bounds are in order and it is not negated, or it
is exclusive and its bounds are a text and the one before it. -/
theorem valueCondition_eq_iff (hw : ¬ (start = ['*'] ∧ stop = ['*'])) :
    (∀ value, valueCondition (buildRangeQuery lib cvt field start stop inclusive tNum op negated) value =
        IdxDoc.rangeTest start stop inclusive negated value) ↔ negated = false ∧ start ≤ stop ∨
        inclusive = false ∧ start ≠ ['*'] ∧ stop ≠ ['*'] ∧ start = stop ++ [Char.ofNat 0] := by
  rcases le_or_gt start stop with hle | hlt
  · have hne : start ≠ stop ++ [Char.ofNat 0] := fun h => not_lt_of_ge hle ((lt_iff_append_le stop start).mpr h.ge)
    rw [condition_ordered lib cvt field inclusive negated tNum op hw hle]
    simp [hle, hne]
  · rw [condition_swapped lib cvt field inclusive negated tNum op hlt]
    simp [hlt.not_ge]

end

theorem valueCondition_eq_iff_ordered :
    (∀ value, valueCondition (buildRangeQuery asciiLibrary false ['a'] ['b'] ['d'] true 0 .notAnOp false) value =
        IdxDoc.rangeTest ['b'] ['d'] true false value) ∧ ['b'] ≤ ['d'] :=
  have hle : ['b'] ≤ ['d'] := by decide
  ⟨(valueCondition_eq_iff asciiLibrary false ['a'] true false 0 .notAnOp (by decide)).mpr (.inl ⟨rfl, hle⟩), hle⟩

theorem valueCondition_differs :
    (valueCondition (buildRangeQuery asciiLibrary false ['a'] ['b'] ['*'] true 0 .notAnOp false) ['c'] = false ∧
      IdxDoc.rangeTest ['b'] ['*'] true false ['c'] = true) ∧
    (valueCondition (buildRangeQuery asciiLibrary false ['a'] ['d'] ['b'] true 0 .notAnOp false) ['c'] = true ∧
      IdxDoc.rangeTest ['d'] ['b'] true false ['c'] = false) ∧
    (valueCondition (buildRangeQuery asciiLibrary false ['a'] ['b'] ['d'] true 0 .notAnOp true) ['b'] = false ∧
      IdxDoc.rangeTest ['b'] ['d'] true true ['b'] = true) ∧
    valueCondition (buildRangeQuery asciiLibrary false ['a'] ['d'] ['b'] false 0 .notAnOp true) ['c'] = false ∧
      IdxDoc.rangeTest ['d'] ['b'] false true ['c'] = true := by
  decide +kernel

end Goiardi.Search.Postgres
