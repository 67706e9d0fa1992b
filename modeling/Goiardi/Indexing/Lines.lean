import Goiardi.Base.Text
import Mathlib.Data.List.AList

/-! `Indexify`: a flattened object becomes the sorted lines of its index document. -/

namespace Goiardi.Indexing

open List

inductive FlatValue
  | text (t : Text)
  | list (ts : List Text)
deriving DecidableEq, Repr

abbrev Flattened := AList fun _ : Text => FlatValue

def trimStringMax (s : Text) (strLength : ℤ) : Text :=
  if strLength ≤ 0 then s
  else if strLength < s.length then s.take strLength.toNat
  else s

def delTwoPosElements (pos skip : ℕ) (strs : List Text) : List Text := strs.take pos ++ strs.drop (pos + skip)

def repeats (strs : List Text) (i : ℕ) : ℕ :=
  match strs.drop i with
  | [] => 0
  | v :: rest => (rest.takeWhile (· = v)).length

-- the loop runs over the length that the slice had at the start
def removeDups : ℕ → ℕ → List Text → List Text
  | 0, _, strs => strs
  | n + 1, i, strs =>
    if strs.length < i then strs
    else
      let s := repeats strs i
      removeDups n (i + 1) (if s = 0 then strs else delTwoPosElements (i + 1) s strs)

def removeDupStrings (strs : List Text) : List Text := removeDups strs.length 0 strs

def sortStrings (strs : List Text) : List Text := strs.insertionSort (· ≤ ·)

def indexLine (key value : Text) : Text := key ++ ':' :: value

def FlatValue.values : FlatValue → List Text
  | text v => [v]
  | list vs => removeDupStrings (sortStrings vs)

def indexify (indexValTrim : ℤ) (flattened : Flattened) : List Text :=
  sortStrings (flattened.entries.flatMap fun e => e.2.values.map fun v => indexLine e.1 (trimStringMax v indexValTrim))

section

lemma pairwise_sortStrings (strs : List Text) : (sortStrings strs).Pairwise (· ≤ ·) :=
  pairwise_insertionSort _ _

lemma perm_sortStrings (strs : List Text) : (sortStrings strs).Perm strs := perm_insertionSort _ _

variable {strs pre rest : List Text} {v : Text}

lemma drop_length_takeWhile (v : Text) (l : List Text) : l.drop (l.takeWhile (· = v)).length = l.dropWhile (· = v) := by
  induction l with
  | nil => rfl
  | cons w l ih =>
    by_cases hw : w = v
    · simpa [takeWhile_cons, dropWhile_cons, hw] using ih
    · simp [hw]

lemma delTwoPosElements_append :
    delTwoPosElements (pre.length + 1) (repeats (pre ++ v :: rest) pre.length) (pre ++ v :: rest) =
      (pre ++ [v]) ++ rest.dropWhile (· = v) := by
  have hr : repeats (pre ++ v :: rest) pre.length = (rest.takeWhile (· = v)).length := by
    rw [repeats, drop_left]
  have hs : pre ++ v :: rest = (pre ++ [v]) ++ rest := by simp
  have hl : pre.length + 1 = (pre ++ [v]).length := by simp
  rw [delTwoPosElements, hr, hs, hl, take_left, ← drop_drop, drop_left,
    drop_length_takeWhile]

lemma lt_of_mem_dropWhile (h : (v :: rest).Pairwise (· ≤ ·)) {w : Text} (hw : w ∈ rest.dropWhile (· = v)) : v < w := by
  induction rest with
  | nil => cases hw
  | cons u rest ih =>
    obtain ⟨hv, hr⟩ := pairwise_cons.mp h
    rw [dropWhile_cons] at hw
    split at hw
    · exact ih (pairwise_cons.mpr ⟨fun x hx => hv x (.tail _ hx), (pairwise_cons.mp hr).2⟩) hw
    · next hne =>
      have hlt : v < u := lt_of_le_of_ne (hv u (.head _)) fun he => hne (by simp [he])
      rcases mem_cons.mp hw with rfl | hw
      · exact hlt
      · exact hlt.trans_le ((pairwise_cons.mp hr).1 w hw)

lemma mem_cons_dropWhile {w : Text} : w ∈ v :: rest.dropWhile (· = v) ↔ w ∈ v :: rest := by
  conv_rhs => rw [← takeWhile_append_dropWhile (p := fun u => decide (u = v)) (l := rest)]
  simp only [mem_cons, mem_append]
  constructor
  · rintro (hw | hw)
    · exact .inl hw
    · exact .inr (.inr hw)
  · rintro (hw | hw | hw)
    · exact .inl hw
    · exact .inl (by simpa using mem_takeWhile_imp hw)
    · exact .inr hw

lemma removeDups_spec {n : ℕ} (pre rest : List Text) (hn : rest.length ≤ n) (hs : rest.Pairwise (· ≤ ·)) (hpr : pre.Pairwise (· < ·))
    (hb : ∀ x ∈ pre, ∀ y ∈ rest, x < y) : (removeDups n pre.length (pre ++ rest)).Pairwise (· < ·) ∧
      ∀ w, w ∈ removeDups n pre.length (pre ++ rest) ↔ w ∈ pre ++ rest := by
  induction n generalizing pre rest with
  | zero =>
    obtain rfl : rest = [] := length_eq_zero_iff.mp (by omega)
    rw [append_nil]
    exact ⟨hpr, fun _ => Iff.rfl⟩
  | succ n ih =>
    rw [removeDups, if_neg (by simp)]
    dsimp only
    rw [ite_eq_right_iff.mpr fun h => by rw [h, delTwoPosElements, Nat.add_zero, take_append_drop]]
    cases rest with
    | nil =>
      have hd : delTwoPosElements (pre.length + 1) (repeats (pre ++ []) pre.length) (pre ++ []) = pre := by
        simp [delTwoPosElements, repeats]
      have hst : removeDups n (pre.length + 1) pre = pre := by
        cases n with
        | zero => rfl
        | succ n => rw [removeDups, if_pos (Nat.lt_succ_self _)]
      rw [hd, hst, append_nil]
      exact ⟨hpr, fun _ => Iff.rfl⟩
    | cons v rest =>
      have hv := (pairwise_cons.mp hs).1
      have hsb : (rest.dropWhile (· = v)).Sublist rest := dropWhile_sublist _
      have hl : pre.length + 1 = (pre ++ [v]).length := by simp
      rw [delTwoPosElements_append, hl]
      obtain ⟨hp, hm⟩ := ih (pre ++ [v]) (rest.dropWhile (· = v))
        (by have := hsb.length_le; simp at hn; omega) ((pairwise_cons.mp hs).2.sublist hsb)
        (pairwise_append.mpr ⟨hpr, pairwise_singleton _ _, fun x hx y hy =>
          hb x hx y (by simp [mem_singleton.mp hy])⟩)
        (fun x hx y hy => by
          rcases mem_append.mp hx with hx | hx
          · exact hb x hx y (.tail _ (hsb.subset hy))
          · rw [mem_singleton.mp hx]
            exact lt_of_mem_dropWhile hs hy)
      refine ⟨hp, fun w => (hm w).trans ?_⟩
      rw [append_assoc, singleton_append, mem_append, mem_append, mem_cons_dropWhile]

lemma removeDupStrings_sort (strs : List Text) : (removeDupStrings (sortStrings strs)).Pairwise (· < ·) ∧
      ∀ w, w ∈ removeDupStrings (sortStrings strs) ↔ w ∈ strs := by
  obtain ⟨hp, hm⟩ := removeDups_spec [] _ (le_refl (sortStrings strs).length) (pairwise_sortStrings strs)
    List.Pairwise.nil (by simp)
  exact ⟨hp, fun w => (hm w).trans (perm_sortStrings strs).mem_iff⟩

end

/-- A slice of strings: the array behind it, from the first string of the slice on, and the number of strings. -/
structure Slice where
  array : List Text
  len : ℕ
  len_le : len ≤ array.length

namespace Slice

def strs (s : Slice) : List Text := s.array.take s.len

-- `append` copies the strings after the gap over it, in the same array
def delTwoPosElements (pos skip : ℕ) (s : Slice) : Except Panic Slice :=
  if h : pos + skip ≤ s.len then
    .ok {
      array := s.array.take pos ++ s.strs.drop (pos + skip) ++ s.array.drop (s.len - skip)
      len := s.len - skip
      len_le := by
        have := s.len_le
        simp [strs]
        omega }
  else .error .indexOutOfRange

/-- The rounds of the loop from the index `i` on. They are as many as the slice had strings at the start, and each reads
its string from the array. -/
def removeDups : ℕ → ℕ → Slice → Except Panic Slice
  | 0, _, s => .ok s
  | n + 1, i, s =>
    match s.array[i]? with
    | none => .error .indexOutOfRange
    | some v =>
      if s.len < i then .ok s
      else do
        let skip := ((s.strs.drop (i + 1)).takeWhile (· = v)).length
        removeDups n (i + 1) (← if skip = 0 then .ok s else s.delTwoPosElements (i + 1) skip)

def removeDupStrings (s : Slice) : Except Panic Slice := s.removeDups s.len 0

variable {s : Slice} {i n : ℕ} {v : Text}

lemma length_strs (s : Slice) : s.strs.length = s.len := by simp [strs, s.len_le]

lemma repeats_eq (hv : s.array[i]? = some v) :
    Indexing.repeats s.strs i = ((s.strs.drop (i + 1)).takeWhile (· = v)).length := by
  by_cases hi : i < s.len
  · have hg : s.strs[i]? = some v := by rw [strs, getElem?_take_of_lt hi, hv]
    obtain ⟨hl, hg⟩ := List.getElem?_eq_some_iff.mp hg
    rw [repeats, drop_eq_getElem_cons hl, hg]
  · have hd : s.strs.drop i = [] := drop_eq_nil_of_le (by rw [length_strs]; omega)
    rw [repeats, hd, ← drop_drop, hd]
    rfl

lemma delTwoPosElements_eq {pos skip : ℕ} (h : pos + skip ≤ s.len) : ∃ s', s.delTwoPosElements pos skip = .ok s' ∧
    s'.strs = Indexing.delTwoPosElements pos skip s.strs ∧ s'.array.length = s.array.length := by
  refine ⟨_, dif_pos h, ?_, ?_⟩
  · have hl := s.len_le
    have ht : (s.array.take pos ++ s.strs.drop (pos + skip)).length = s.len - skip := by
      simp [strs]
      omega
    change take (s.len - skip) (_ ++ _) = _
    rw [take_left' ht, Indexing.delTwoPosElements, strs, take_take, min_eq_left (by omega)]
  · have hl := s.len_le
    simp [strs]
    omega

/-- The array keeps its length, and what the header shows changes as if every round had made a new list. -/
lemma removeDups_eq (h : i + n ≤ s.array.length) :
    ∃ out, s.removeDups n i = .ok out ∧ out.strs = Indexing.removeDups n i s.strs := by
  induction n generalizing i s with
  | zero => exact ⟨s, rfl, rfl⟩
  | succ n ih =>
    obtain ⟨v, hv⟩ : ∃ v, s.array[i]? = some v := ⟨_, getElem?_eq_getElem (by omega)⟩
    rw [removeDups, hv, Indexing.removeDups, length_strs]
    dsimp only
    split
    · exact ⟨s, rfl, rfl⟩
    · rw [← repeats_eq hv]
      split
      · exact ih (by omega)
      · next hs =>
        have hr : i + 1 + Indexing.repeats s.strs i ≤ s.len := by
          have hle : ((s.strs.drop (i + 1)).takeWhile (· = v)).length ≤ (s.strs.drop (i + 1)).length :=
            (takeWhile_sublist _).length_le
          rw [repeats_eq hv] at hs ⊢
          rw [length_drop, length_strs] at hle
          omega
        obtain ⟨s', hd, hst, hl⟩ := delTwoPosElements_eq hr
        rw [hd, ← hst]
        exact ih (by omega)

theorem removeDupStrings_spec (s : Slice) (hs : s.strs.Pairwise (· ≤ ·)) :
    ∃ out, s.removeDupStrings = .ok out ∧ out.strs.Pairwise (· < ·) ∧ ∀ w, w ∈ out.strs ↔ w ∈ s.strs := by
  obtain ⟨out, ho, he⟩ := removeDups_eq (s := s) (i := 0) (n := s.len) (by simpa using s.len_le)
  obtain ⟨hp, hm⟩ := removeDups_spec [] s.strs (length_strs s).le hs .nil (by simp)
  exact ⟨out, ho, he ▸ hp, fun w => he ▸ hm w⟩

theorem removeDupStrings_spec_dupes : ∃ out,
    Slice.removeDupStrings ⟨["", "", "has", "some", "some", "zero"], 5, by decide⟩ = .ok out ∧ out.strs = ["", "has", "some"] ∧
      out.strs.Pairwise (· < ·) := by
  obtain ⟨out, ho, hp, -⟩ :=
    removeDupStrings_spec ⟨["", "", "has", "some", "some", "zero"], 5, by decide⟩ (by decide)
  refine ⟨out, ho, ?_, hp⟩
  cases ho
  decide

end Slice

section

variable {trim : ℤ} {flat : Flattened}

namespace FlatValue

lemma values_nodup (v : FlatValue) : v.values.Nodup := by
  cases v with
  | text t => exact nodup_singleton t
  | list ts => exact (removeDupStrings_sort ts).1.imp ne_of_lt

end FlatValue

def Flattened.values (flat : Flattened) (k : Text) : List Text :=
  match flat.lookup k with
  | some (.text v) => [v]
  | some (.list vs) => vs
  | none => []

lemma Flattened.mem_values {k v : Text} : v ∈ flat.values k ↔ ∃ e ∈ flat.entries, e.1 = k ∧ v ∈ e.2.values := by
  have hen (u : FlatValue) : flat.lookup k = some u ↔ (⟨k, u⟩ : Sigma _) ∈ flat.entries := AList.mem_lookup_iff
  constructor
  · intro hv
    rw [Flattened.values] at hv
    split at hv
    · next u hu => exact ⟨_, (hen _).mp hu, rfl, hv⟩
    · next us hus => exact ⟨_, (hen _).mp hus, rfl, ((removeDupStrings_sort us).2 v).mpr hv⟩
    · cases hv
  · rintro ⟨⟨_, u⟩, he, rfl, hv⟩
    rw [Flattened.values, (hen u).mpr he]
    cases u with
    | text t => exact hv
    | list ts => exact ((removeDupStrings_sort ts).2 v).mp hv

def Flattened.HasLine (flat : Flattened) (trim : ℤ) (l : Text) : Prop :=
  ∃ k v, v ∈ flat.values k ∧ l = indexLine k (trimStringMax v trim)

lemma mem_indexify {l : Text} : l ∈ indexify trim flat ↔ flat.HasLine trim l := by
  rw [indexify, (perm_sortStrings _).mem_iff, mem_flatMap]
  constructor
  · rintro ⟨e, he, hl⟩
    obtain ⟨v, hv, rfl⟩ := mem_map.mp hl
    exact ⟨e.1, v, Flattened.mem_values.mpr ⟨e, he, rfl, hv⟩, rfl⟩
  · rintro ⟨k, v, hvl, rfl⟩
    obtain ⟨e, he, rfl, hv⟩ := Flattened.mem_values.mp hvl
    exact ⟨e, he, mem_map_of_mem hv⟩

lemma pairwise_indexify (trim : ℤ) (flat : Flattened) : (indexify trim flat).Pairwise (· ≤ ·) :=
  pairwise_sortStrings _

/-- No two values give one line: different values of a field differ after trimming, and no line of a field is also a
line of another. -/
def Flattened.Distinct (flat : Flattened) (trim : ℤ) : Prop :=
  ∀ k k' v v', v ∈ flat.values k → v' ∈ flat.values k' →
    indexLine k (trimStringMax v trim) = indexLine k' (trimStringMax v' trim) → k = k' ∧ v = v'

lemma nodup_indexify_iff : (indexify trim flat).Nodup ↔ flat.Distinct trim := by
  rw [indexify, (perm_sortStrings _).nodup_iff, nodup_flatMap]
  constructor
  · rintro ⟨hw, ha⟩ k k' v v' hvl hvl' hln
    obtain ⟨e, he, rfl, hv⟩ := Flattened.mem_values.mp hvl
    obtain ⟨e', he', rfl, hv'⟩ := Flattened.mem_values.mp hvl'
    by_cases hee : e = e'
    · subst hee
      exact ⟨rfl, inj_on_of_nodup_map (hw e he) hv hv' hln⟩
    · have : Std.Symm (Function.onFun List.Disjoint fun e : Sigma fun _ : Text => FlatValue =>
          e.2.values.map fun v => indexLine e.1 (trimStringMax v trim)) := ⟨fun _ _ h => h.symm⟩
      have hd := ha.forall he he' hee
      exact absurd (mem_map_of_mem hv') (hd (hln ▸ mem_map_of_mem hv))
  · intro h
    constructor
    · intro e he
      refine List.Nodup.map_on (fun v hv v' hv' hln => ?_) e.2.values_nodup
      exact (h e.1 e.1 v v' (Flattened.mem_values.mpr ⟨e, he, rfl, hv⟩)
        (Flattened.mem_values.mpr ⟨e, he, rfl, hv'⟩) hln).2
    · have hk : flat.entries.Pairwise fun e e' => e.1 ≠ e'.1 := pairwise_map.mp flat.nodupKeys
      refine hk.imp_of_mem fun {e e'} he he' hne l hl hl' => ?_
      obtain ⟨v, hv, rfl⟩ := mem_map.mp hl
      obtain ⟨v', hv', hln⟩ := mem_map.mp hl'
      exact hne (h e.1 e'.1 v v' (Flattened.mem_values.mpr ⟨e, he, rfl, hv⟩)
        (Flattened.mem_values.mpr ⟨e', he', rfl, hv'⟩) hln.symm).1

theorem indexify_strict_iff (trim : ℤ) (flat : Flattened) :
    ((indexify trim flat).Pairwise (· < ·) ∧ ∀ l, l ∈ indexify trim flat ↔ flat.HasLine trim l) ↔
      flat.Distinct trim := by
  rw [← nodup_indexify_iff]
  constructor
  · exact fun h => h.1.imp ne_of_lt
  · intro h
    exact ⟨((pairwise_indexify trim flat).and h).imp fun hlt => lt_of_le_of_ne hlt.1 hlt.2, fun _ => mem_indexify⟩

def Flattened.of (entries : List (String × FlatValue)) : Flattened :=
  (entries.map fun p => (⟨p.1.toList, p.2⟩ : Sigma fun _ : Text => FlatValue)).toAList

theorem indexify_repeats : indexify 1 (.of [("a", .list ["bc".toList, "bd".toList])]) = ["a:b".toList, "a:b".toList] ∧
      indexify 0 (.of [("a", .text "b:c".toList), ("a:b", .text "c".toList)]) = ["a:b:c".toList, "a:b:c".toList] := by
  decide +kernel

end

end Goiardi.Indexing
