import Goiardi.Authentication.Requests
import Goiardi.Base.Sorting

/-! The signature of a request is spread over numbered headers. `assembleSignedHeader` puts it together exactly where no
header has the number 0 and where no two headers, and no header with more than digits, fill the numbers from 1 on. -/

namespace Goiardi.Authentication

open List Option Finset AList

open Uploads (Fault demand)

def number (k : Text) : ℕ := (authHeader k).elim 0 fun m => Text.digitsValue m.1

def trailing (k : Text) : Text := (authHeader k).elim [] Prod.snd

def index (k : Text) : ℤ := (authHeader k).elim 0 fun m => (Text.parseInt m.1).1

def matching (h : Header) : List Text := h.entries.keys.filter fun k => (authHeader k).isSome

lemma parseInt_digits {ds : Text} (hne : ds ≠ []) (ha : ds.all Char.isDigit = true) :
    Text.parseInt ds = Text.clamp (Text.digitsValue ds) := by
  obtain ⟨c, t, rfl⟩ := exists_cons_of_ne_nil hne
  have hc : c.isDigit = true := all_eq_true.mp ha c (.head _)
  unfold Text.parseInt
  split
  next negative digits heq =>
    split at heq
    · next hs =>
      cases hs
      cases hc
    · next hs =>
      cases hs
      cases hc
    · cases heq
      rw [if_neg (by simp [ha])]
      rfl

lemma authHeader_eq_some_iff {k : Text} {m : Text × Text} : authHeader k = some m ↔
    ∃ t, afterFolded authLabel k = some t ∧ t.takeWhile Char.isDigit ≠ [] ∧
      m = (t.takeWhile Char.isDigit, t.dropWhile Char.isDigit) := by
  unfold authHeader
  cases afterFolded authLabel k with
  | none => simp
  | some t =>
    change (if t.takeWhile Char.isDigit = [] then none
      else some (t.takeWhile Char.isDigit, t.dropWhile Char.isDigit)) = some m ↔ _
    constructor
    · intro hm
      split at hm
      · cases hm
      · next hne => exact ⟨t, rfl, hne, (some.inj hm).symm⟩
    · rintro ⟨u, hu, hne, rfl⟩
      cases hu
      exact if_neg hne

lemma authHeader_digits {k : Text} {m : Text × Text} (hm : authHeader k = some m) :
    m.1 ≠ [] ∧ m.1.all Char.isDigit = true := by
  obtain ⟨t, -, hne, rfl⟩ := authHeader_eq_some_iff.mp hm
  exact ⟨hne, all_eq_true.mpr fun _ hc => mem_takeWhile_imp hc⟩

lemma index_eq (k : Text) : index k = min (number k : ℤ) Text.maxInt64 := by
  unfold index number
  cases hm : authHeader k with
  | none => rfl
  | some m =>
    obtain ⟨hne, ha⟩ := authHeader_digits hm
    change (Text.parseInt m.1).1 = min (Text.digitsValue m.1 : ℤ) Text.maxInt64
    rw [parseInt_digits hne ha, Text.clamp]
    have hmn : Text.minInt64 < 0 := by decide
    split_ifs <;> simp only [] <;> omega

def changeCase (upper : Bool) (c : Char) : Char := if upper then c.toUpper else c.toLower

lemma isTokenChar_lt {c : Char} (hc : isTokenChar c = true) : c.toNat < 128 := by
  have hb (first last : Char) (h : (first.val ≤ c.val && c.val ≤ last.val) = true) : c.val ≤ last.val :=
    of_decide_eq_true (Bool.and_eq_true_iff.mp h).2
  have hlt (last : Char) (hl : last.toNat < 128) (h : c.val ≤ last.val) : c.toNat < 128 :=
    (UInt32.le_iff_toNat_le.mp h).trans_lt hl
  unfold isTokenChar at hc
  rcases Bool.or_eq_true_iff.mp hc with hc | hc
  · rcases Bool.or_eq_true_iff.mp hc with hc | hc
    · rcases Bool.or_eq_true_iff.mp hc with hc | hc
      · exact hlt 'Z' (by decide) (of_decide_eq_true hc).2
      · exact hlt 'z' (by decide) (hb 'a' 'z' hc)
    · exact hlt '9' (by decide) (hb '0' '9' hc)
  · have ha : ∀ d ∈ "!#$%&'*+-.^_`|~".toList, d.toNat < 128 := by decide
    exact ha c (by simpa using hc)

lemma forall_token {p : Char → Prop} (h : ∀ i : Fin 128, p (Char.ofNat i)) {c : Char} (hc : isTokenChar c = true) :
    p c := by
  rw [← Char.ofNat_toNat c]
  exact h ⟨c.toNat, isTokenChar_lt hc⟩

lemma isDigit_changeCase (upper : Bool) {c : Char} (hc : isTokenChar c = true) :
    (changeCase upper c).isDigit = c.isDigit ∧ (c.isDigit = true → changeCase upper c = c) := by
  refine forall_token (p := fun c => (changeCase upper c).isDigit = c.isDigit ∧
    (c.isDigit = true → changeCase upper c = c)) ?_ hc
  cases upper <;> decide +kernel

lemma folds_changeCase (upper : Bool) {p c : Char} (hp : p ∈ authLabel)
    (hc : isTokenChar c = true) (h : folds p c = true) : folds p (changeCase upper c) = true := by
  have hf : ∀ p ∈ authLabel, ∀ i : Fin 128, folds p (Char.ofNat i) = true →
      folds p (changeCase upper (Char.ofNat i)) = true := by
    cases upper <;> decide +kernel
  exact forall_token (p := fun c => folds p c = true → folds p (changeCase upper c) = true) (hf p hp) hc h

lemma afterFolded_capitalise {ps t u : Text} (upper : Bool) (hps : ps ⊆ authLabel)
    (ht : t.all isTokenChar = true) (h : afterFolded ps t = some u) :
    u.all isTokenChar = true ∧ ∃ upper', afterFolded ps (capitalise upper t) = some (capitalise upper' u) := by
  induction ps generalizing t upper with
  | nil =>
    cases h
    exact ⟨ht, upper, by rw [afterFolded]⟩
  | cons p ps ih =>
    cases t with
    | nil => cases h
    | cons c t =>
      rw [all_cons, Bool.and_eq_true] at ht
      rw [afterFolded] at h
      split at h
      · next hf =>
        have hh := folds_changeCase upper (hps (.head _)) ht.1 hf
        obtain ⟨hu, upper', hr⟩ := ih (c = '-') (fun q hq => hps (.tail _ hq)) ht.2 h
        refine ⟨hu, upper', ?_⟩
        change (if folds p (changeCase upper c) = true then _ else none) = _
        rw [if_pos hh, hr]
      · cases h

lemma takeWhile_capitalise (upper : Bool) {t : Text} (ht : t.all isTokenChar = true) :
    (capitalise upper t).takeWhile Char.isDigit = t.takeWhile Char.isDigit := by
  induction t generalizing upper with
  | nil => rfl
  | cons c t ih =>
    rw [all_cons, Bool.and_eq_true] at ht
    obtain ⟨hd, hs⟩ := isDigit_changeCase upper ht.1
    change (changeCase upper c :: capitalise (c = '-') t).takeWhile Char.isDigit = _
    rw [takeWhile_cons, takeWhile_cons, hd]
    split
    · next hc => rw [hs hc, ih _ ht.2]
    · rfl

lemma authHeader_canonicalKey {k : Text} {m : Text × Text} (hm : authHeader k = some m) :
    ∃ rest, authHeader (canonicalKey k) = some (m.1, rest) := by
  unfold canonicalKey
  split
  · next ht =>
    obtain ⟨t, ha, hne, rfl⟩ := authHeader_eq_some_iff.mp hm
    obtain ⟨hu, upper, hc⟩ := afterFolded_capitalise true (fun _ h => h) ht ha
    rw [← takeWhile_capitalise upper hu] at hne ⊢
    exact ⟨_, authHeader_eq_some_iff.mpr ⟨_, hc, hne, rfl⟩⟩
  · exact ⟨m.2, hm⟩

def Header.value (h : Header) (k : Text) : Text :=
  match h.entries.lookup k with
  | some (v :: _) => v
  | _ => []

lemma get_eq_value_or_nil {h : Header} (hnd : ((matching h).map number).Nodup) {k : Text} (hk : k ∈ matching h) :
    h.get k = h.value k ∨ h.get k = [] := by
  obtain ⟨hky, hs⟩ := mem_filter.mp hk
  obtain ⟨m, hm⟩ := isSome_iff_exists.mp hs
  obtain ⟨rest, hc⟩ := authHeader_canonicalKey hm
  rw [Header.get]
  by_cases hmm : canonicalKey k ∈ h.entries.keys
  · have hmt : canonicalKey k ∈ matching h := mem_filter.mpr ⟨hmm, by rw [hc]; rfl⟩
    have hn : number (canonicalKey k) = number k := by rw [number, number, hc, hm]; rfl
    rw [inj_on_of_nodup_map hnd hmt hk hn]
    exact .inl rfl
  · right
    rw [lookup_eq_none.mpr hmm]

section

variable (ord : HeaderOrder) (h : Header)

lemma storeHeader_of_some {st : AList fun _ : ℤ => Text} {k : Text} (hk : (authHeader k).isSome = true) :
    storeHeader h st k = st.insert (index k) (h.get k) := by
  obtain ⟨m, hm⟩ := isSome_iff_exists.mp hk
  unfold storeHeader index
  rw [hm]
  rfl

lemma storeHeader_of_none {st : AList fun _ : ℤ => Text} {k : Text} (hk : ¬ (authHeader k).isSome = true) :
    storeHeader h st k = st := by
  unfold storeHeader
  rw [not_isSome_iff_eq_none.mp hk]

lemma foldl_storeHeader (ks : List Text) (st : AList fun _ : ℤ => Text) (i : ℤ) :
    (∀ v, (ks.foldl (storeHeader h) st).lookup i = some v →
      (∃ k ∈ ks, (authHeader k).isSome = true ∧ index k = i ∧ v = h.get k) ∨ st.lookup i = some v) ∧
    ((∃ k ∈ ks, (authHeader k).isSome = true ∧ index k = i) ∨ i ∈ st → i ∈ ks.foldl (storeHeader h) st) := by
  induction ks generalizing st with
  | nil =>
    refine ⟨fun v hv => .inr hv, ?_⟩
    rintro (⟨k, hk, -⟩ | hi)
    · cases hk
    · exact hi
  | cons k ks ih =>
    obtain ⟨hf, ha⟩ := ih (storeHeader h st k)
    rw [foldl_cons]
    by_cases hk : (authHeader k).isSome = true
    · rw [storeHeader_of_some h hk] at hf ha ⊢
      constructor
      · intro v hv
        rcases hf v hv with ⟨k', hk', hr⟩ | hv
        · exact .inl ⟨k', .tail _ hk', hr⟩
        · by_cases hi : i = index k
          · rw [hi, lookup_insert] at hv
            cases hv
            exact .inl ⟨k, .head _, hk, hi.symm, rfl⟩
          · rw [lookup_insert_ne hi] at hv
            exact .inr hv
      · rintro (⟨k', hk', hs, hi⟩ | hi)
        · rcases mem_cons.mp hk' with rfl | hk'
          · exact ha (.inr ((mem_insert _).mpr (.inl hi.symm)))
          · exact ha (.inl ⟨k', hk', hs, hi⟩)
        · exact ha (.inr ((mem_insert _).mpr (.inr hi)))
    · rw [storeHeader_of_none h hk] at hf ha ⊢
      constructor
      · intro v hv
        rcases hf v hv with ⟨k', hk', hr⟩ | hv
        · exact .inl ⟨k', .tail _ hk', hr⟩
        · exact .inr hv
      · rintro (⟨k', hk', hs, hi⟩ | hi)
        · rcases mem_cons.mp hk' with rfl | hk'
          · exact absurd hs hk
          · exact ha (.inl ⟨k', hk', hs, hi⟩)
        · exact ha (.inr hi)

def slots : List (ℤ × Text) := (sHeadStore ord h).entries.map fun e => (e.1, e.2)

lemma mem_slots {e : ℤ × Text} : e ∈ slots ord h ↔ (sHeadStore ord h).lookup e.1 = some e.2 := by
  rw [← Option.mem_def, AList.mem_lookup_iff, slots, List.mem_map]
  constructor
  · rintro ⟨e, he, rfl⟩
    exact he
  · exact fun he => ⟨_, he, rfl⟩

lemma nodup_slots : ((slots ord h).map Prod.fst).Nodup := by
  rw [slots, List.map_map]
  exact (sHeadStore ord h).nodupKeys

variable {h} {i : ℤ}

lemma mem_matching {k : Text} : k ∈ matching h ↔ k ∈ ord.keys h.entries.keys ∧ (authHeader k).isSome = true := by
  rw [matching, mem_filter, (ord.keys_perm _).mem_iff]

lemma of_mem_slots {ord : HeaderOrder} {v : Text} (hv : (i, v) ∈ slots ord h) : ∃ k ∈ matching h, index k = i ∧ v = h.get k := by
  rcases (foldl_storeHeader h _ ∅ i).1 v (mem_slots ord h |>.mp hv) with ⟨k, hk, hs, hi, hg⟩ | hn
  · exact ⟨k, (mem_matching ord).mpr ⟨hk, hs⟩, hi, hg⟩
  · cases hn

lemma mem_map_slots : i ∈ (slots ord h).map Prod.fst ↔ ∃ k ∈ matching h, index k = i := by
  constructor
  · intro hi
    obtain ⟨⟨_, v⟩, hv, rfl⟩ := mem_map.mp hi
    obtain ⟨k, hk, hi, -⟩ := of_mem_slots hv
    exact ⟨k, hk, hi⟩
  · rintro ⟨k, hk, hi⟩
    obtain ⟨hm, hsm⟩ := (mem_matching ord).mp hk
    have hs := (foldl_storeHeader h (ord.keys h.entries.keys) ∅ i).2 (.inl ⟨k, hm, hsm, hi⟩)
    obtain ⟨v, hv⟩ := isSome_iff_exists.mp (lookup_isSome.mpr hs)
    exact mem_map.mpr ⟨(i, v), (mem_slots ord h).mpr hv, rfl⟩

lemma length_slots_lt : ((slots ord h).length : ℤ) < Text.maxInt64 := by
  have hs : (slots ord h).map Prod.fst ⊆ (matching h).map index := by
    intro i hi
    obtain ⟨k, hk, hi⟩ := (mem_map_slots ord).mp hi
    exact mem_map.mpr ⟨k, hk, hi⟩
  have hle := ((nodup_slots ord h).subperm hs).length_le
  rw [length_map, length_map] at hle
  have hf : (matching h).length ≤ h.entries.keys.length := length_filter_le _ _
  have hsm := h.small
  omega

end

section

variable {limit : ℕ} {l : List (ℤ × Text)} {sH : List Text}

lemma fillSlots_ok (hlm : sH.length = limit) (hn : (l.map Prod.fst).Nodup) (hrn : ∀ e ∈ l, 1 ≤ e.1 ∧ e.1 ≤ limit) :
    ∃ r, fillSlots limit sH l = .ok r ∧ r.length = limit ∧ (∀ e ∈ l, r[(e.1 - 1).toNat]? = some e.2) ∧
      ∀ j : ℕ, (j + 1 : ℤ) ∉ l.map Prod.fst → r[j]? = sH[j]? := by
  induction l generalizing sH with
  | nil => exact ⟨sH, rfl, hlm, by simp, fun _ _ => rfl⟩
  | cons e l ih =>
    obtain ⟨k, v⟩ := e
    obtain ⟨hl, hh⟩ := hrn (k, v) (.head _)
    obtain ⟨hnm, hn⟩ := nodup_cons.mp hn
    obtain ⟨r, hr, hln, hs, hk⟩ := ih
      (show (sH.set (k - 1).toNat v).length = limit by rw [length_set, hlm]) hn fun e he => hrn e (.tail _ he)
    refine ⟨r, ?_, hln, ?_, ?_⟩
    · rw [fillSlots, if_neg (by simp only at hh; omega), if_pos (by simp only at hl hh; omega), hr]
    · intro e he
      rcases mem_cons.mp he with rfl | he
      · have hb : (((k - 1).toNat : ℕ) + 1 : ℤ) = k := by simp only at hl; omega
        rw [hk _ (by rw [hb]; exact hnm), List.getElem?_set_self (by simp only at hl hh; omega)]
      · exact hs e he
    · intro j hj
      rw [List.map_cons, List.mem_cons, not_or] at hj
      rw [hk j hj.2, List.getElem?_set_ne (by have := hj.1; simp only at this hl; omega)]

lemma fillSlots_malformed (hl : sH.length = limit) (hp : ∀ e ∈ l, 1 ≤ e.1) (ho : ∃ e ∈ l, (limit : ℤ) < e.1) :
    fillSlots limit sH l = .error malformed := by
  induction l generalizing sH with
  | nil =>
    obtain ⟨e, he, -⟩ := ho
    cases he
  | cons e l ih =>
    obtain ⟨k, v⟩ := e
    have hlw : 1 ≤ k := hp (k, v) (.head _)
    rw [fillSlots]
    split
    · rfl
    · next hk =>
      rw [if_pos (by omega)]
      refine ih (by rw [length_set, hl]) (fun e he => hp e (.tail _ he)) ?_
      obtain ⟨e, he, ho⟩ := ho
      rcases mem_cons.mp he with rfl | he
      · exact absurd ho hk
      · exact ⟨e, he, ho⟩

end

section

variable {ord : HeaderOrder} {h : Header} {ks : List Text}

lemma assembleSignedHeader_eq : assembleSignedHeader ord h = (do
    demand ((slots ord h).length ≠ 0) (unauthorized "No authentication headers found!")
    let sH ← fillSlots (slots ord h).length (List.replicate (slots ord h).length []) (ord.slots (slots ord h))
    return sH.flatten) := rfl

structure Numbered (h : Header) (ks : List Text) : Prop where
  perm : ks.Perm (matching h)
  nonempty : ks ≠ []
  numbers : ks.map number = List.range' 1 ks.length
  whole : ∀ k ∈ ks, trailing k = []

def Fills (h : Header) (n : ℕ) : Prop := ∀ i, i ∈ (matching h).map number ↔ 1 ≤ i ∧ i ≤ n

lemma Numbered.fills (hks : Numbered h ks) : Fills h ks.length := by
  intro i
  rw [← (hks.perm.map number).mem_iff, hks.numbers, mem_range'_1]
  omega

lemma one_le_of_mem_slots (hz : ∀ k ∈ matching h, number k ≠ 0) {e : ℤ × Text} (he : e ∈ slots ord h) : 1 ≤ e.1 := by
  obtain ⟨k, hk, hi, -⟩ := of_mem_slots (v := e.2) he
  have hne := hz k hk
  rw [← hi, index_eq]
  exact le_min (by omega) (by decide)

lemma mem_slots_of_le (hz : ∀ k ∈ matching h, number k ≠ 0)
    (hle : ∀ e ∈ slots ord h, e.1 ≤ (slots ord h).length) {i : ℤ} (hi : 1 ≤ i) (hi' : i ≤ (slots ord h).length) :
    i ∈ (slots ord h).map Prod.fst := by
  have hs : ((slots ord h).map Prod.fst).toFinset ⊆ Finset.Icc 1 ((slots ord h).length : ℤ) := by
    intro j hj
    obtain ⟨e, he, rfl⟩ := mem_map.mp (mem_toFinset.mp hj)
    exact mem_Icc.mpr ⟨one_le_of_mem_slots hz he, hle e he⟩
  have hc : ((slots ord h).map Prod.fst).toFinset.card = (slots ord h).length := by
    rw [toFinset_card_of_nodup (nodup_slots ord h), length_map]
  have heq := eq_of_subset_of_card_le hs (by rw [hc, Int.card_Icc]; omega)
  exact mem_toFinset.mp (heq ▸ mem_Icc.mpr ⟨hi, hi'⟩)

lemma fills_iff (ord : HeaderOrder) (hz : ∀ k ∈ matching h, number k ≠ 0) :
    Fills h (slots ord h).length ↔ ∀ e ∈ slots ord h, e.1 ≤ (slots ord h).length := by
  have hlt := length_slots_lt ord (h := h)
  constructor
  · intro hfills e he
    obtain ⟨k, hk, hi, -⟩ := of_mem_slots (v := e.2) he
    have hn := ((hfills (number k)).mp (mem_map_of_mem hk)).2
    rw [← hi, index_eq]
    omega
  · intro hle i
    constructor
    · intro hi
      obtain ⟨k, hk, rfl⟩ := mem_map.mp hi
      obtain ⟨e, he, hin⟩ := mem_map.mp ((mem_map_slots ord).mpr ⟨k, hk, rfl⟩)
      have hb := hle e he
      have hne := hz k hk
      rw [hin, index_eq] at hb
      omega
    · rintro ⟨ho, hi⟩
      obtain ⟨k, hk, hin⟩ := (mem_map_slots ord).mp (mem_slots_of_le hz hle
        (i := i) (by omega) (by omega))
      rw [index_eq] at hin
      exact mem_map.mpr ⟨k, hk, by omega⟩

section

variable {n : ℕ} (hfills : Fills h n)

include hfills

lemma Fills.lt_maxInt64 : (n : ℤ) < Text.maxInt64 := by
  have hs : List.range' 1 n ⊆ (matching h).map number := by
    intro i hi
    rw [mem_range'_1] at hi
    exact (hfills i).mpr ⟨hi.1, by omega⟩
  have hle := ((nodup_range' (s := 1) (n := n)).subperm hs).length_le
  rw [length_range', length_map] at hle
  have hf : (matching h).length ≤ h.entries.keys.length := length_filter_le _ _
  have hsm := h.small
  omega

lemma Fills.index_eq_number {k : Text} (hk : k ∈ matching h) : index k = number k := by
  have hlt := hfills.lt_maxInt64
  have hle := ((hfills (number k)).mp (mem_map_of_mem hk)).2
  rw [index_eq]
  omega

lemma Fills.mem_map_slots_iff (ord : HeaderOrder) (i : ℤ) : i ∈ (slots ord h).map Prod.fst ↔ 1 ≤ i ∧ i ≤ n := by
  rw [mem_map_slots]
  constructor
  · rintro ⟨k, hk, rfl⟩
    obtain ⟨hl, hh⟩ := (hfills (number k)).mp (mem_map_of_mem hk)
    rw [hfills.index_eq_number hk]
    omega
  · rintro ⟨hl, hh⟩
    obtain ⟨k, hk, hn⟩ := mem_map.mp ((hfills i.toNat).mpr ⟨by omega, by omega⟩)
    exact ⟨k, hk, by rw [hfills.index_eq_number hk]; omega⟩

lemma Fills.length_slots (ord : HeaderOrder) : (slots ord h).length = n := by
  have heq : ((slots ord h).map Prod.fst).toFinset = Finset.Icc 1 (n : ℤ) := by
    ext i
    rw [List.mem_toFinset, hfills.mem_map_slots_iff, Finset.mem_Icc]
  have hc := congrArg Finset.card heq
  rw [List.toFinset_card_of_nodup (nodup_slots ord h), List.length_map, Int.card_Icc] at hc
  omega

lemma Fills.assembleSignedHeader_ok (hn : n ≠ 0) (ord : HeaderOrder) : ∃ r : List Text, r.length = n ∧
    (∀ e ∈ slots ord h, r[(e.1 - 1).toNat]? = some e.2) ∧ assembleSignedHeader ord h = .ok r.flatten := by
  have hl := hfills.length_slots ord
  have hp := ord.slots_perm (slots ord h)
  have hrn : ∀ e ∈ ord.slots (slots ord h), 1 ≤ e.1 ∧ e.1 ≤ (slots ord h).length := by
    intro e he
    rw [hl]
    exact (hfills.mem_map_slots_iff ord e.1).mp (mem_map_of_mem (hp.mem_iff.mp he))
  obtain ⟨r, hr, hln, hs, -⟩ := fillSlots_ok
    (show (List.replicate (slots ord h).length ([] : Text)).length = (slots ord h).length by simp)
    ((hp.map Prod.fst).nodup_iff.mpr (nodup_slots ord h)) hrn
  refine ⟨r, hln.trans hl, fun e he => hs e (hp.mem_iff.mpr he), ?_⟩
  rw [assembleSignedHeader_eq, demand, if_pos (by rw [hl]; exact hn), hr]
  rfl

end

lemma Numbered.assembleSignedHeader_eq_ok (hks : Numbered h ks) (ord : HeaderOrder) :
    assembleSignedHeader ord h = .ok (ks.flatMap h.get) := by
  have hfills := hks.fills
  obtain ⟨r, hl, hst, hok⟩ := hfills.assembleSignedHeader_ok (fun h => hks.nonempty (length_eq_zero_iff.mp h)) ord
  have hn : ∀ j k, ks[j]? = some k → number k = j + 1 := by
    intro j k hk
    have hm : (ks.map number)[j]? = some (number k) := by rw [List.getElem?_map, hk]; rfl
    rw [hks.numbers, List.getElem?_range' (List.getElem?_eq_some_iff.mp hk).1] at hm
    have := some.inj hm
    omega
  -- the entry of a place is the value of the header with its number
  have hp : r = ks.map h.get := by
    refine ext_getElem? fun j => ?_
    cases hk : ks[j]? with
    | none =>
      have hj : ks.length ≤ j := List.getElem?_eq_none_iff.mp hk
      rw [List.getElem?_map, hk, List.getElem?_eq_none_iff.mpr (by omega)]
      rfl
    | some k =>
      have hj := (List.getElem?_eq_some_iff.mp hk).1
      obtain ⟨e, he, hej⟩ := mem_map.mp ((hfills.mem_map_slots_iff ord (j + 1)).mpr ⟨by omega, by omega⟩)
      obtain ⟨k', hk', hi, hg⟩ := of_mem_slots (v := e.2) he
      obtain ⟨j', hj'⟩ := mem_iff_getElem?.mp (hks.perm.mem_iff.mpr hk')
      have hs : j' = j := by
        have := hn j' k' hj'
        rw [hfills.index_eq_number hk'] at hi
        omega
      cases hs
      cases hk.symm.trans hj'
      rw [List.getElem?_map, hk, map_some, ← hg, ← hst e he, hej]
      congr 1
      omega
  rw [hok, hp, flatMap_def]

lemma length_slots_eq_zero_iff : (slots ord h).length = 0 ↔ matching h = [] := by
  constructor
  · intro hl
    refine eq_nil_iff_forall_not_mem.mpr fun k hk => ?_
    have hmm := (mem_map_slots ord).mpr ⟨k, hk, rfl⟩
    rw [length_eq_zero_iff.mp hl] at hmm
    cases hmm
  · intro hm
    refine length_eq_zero_iff.mpr (eq_nil_iff_forall_not_mem.mpr fun e he => ?_)
    obtain ⟨k, hk, -⟩ := of_mem_slots (v := e.2) he
    rw [hm] at hk
    cases hk

lemma assembleSignedHeader_refused (hz : ∀ k ∈ matching h, number k ≠ 0) (hfills : ∀ n, n ≠ 0 → ¬ Fills h n)
    (ord : HeaderOrder) : assembleSignedHeader ord h =
      .error (if matching h = [] then unauthorized "No authentication headers found!" else malformed) := by
  rw [assembleSignedHeader_eq]
  by_cases hn : matching h = []
  · rw [if_pos hn, demand, if_neg (not_not.mpr (length_slots_eq_zero_iff.mpr hn))]
    rfl
  · have hl : (slots ord h).length ≠ 0 := mt length_slots_eq_zero_iff.mp hn
    have hp := ord.slots_perm (slots ord h)
    obtain ⟨e, he, ho⟩ : ∃ e ∈ slots ord h, ¬ e.1 ≤ (slots ord h).length := by
      by_contra hle
      push Not at hle
      exact hfills _ hl ((fills_iff ord hz).mpr hle)
    rw [if_neg hn, demand, if_pos hl, fillSlots_malformed (by simp)
      (fun e he => one_le_of_mem_slots hz (hp.mem_iff.mp he)) ⟨e, hp.mem_iff.mpr he, not_le.mp ho⟩]
    rfl

def zeroFirst : HeaderOrder where
  keys l := l
  slots l := (l.filter fun e => e.1 = 0) ++ l.filter fun e => !(e.1 = 0)
  keys_perm _ := .refl _
  slots_perm l := filter_append_perm _ l

lemma assembleSignedHeader_zero {k : Text} (hk : k ∈ matching h) (hz : number k = 0) :
    assembleSignedHeader zeroFirst h = .error (.panic .indexOutOfRange) := by
  have hi : index k = 0 := by
    rw [index_eq, hz]
    rfl
  obtain ⟨e, he, hfs⟩ := mem_map.mp ((mem_map_slots zeroFirst).mpr ⟨k, hk, hi⟩)
  have hm : e ∈ (slots zeroFirst h).filter fun e => e.1 = 0 := mem_filter.mpr ⟨he, by simpa using hfs⟩
  obtain ⟨e', rest, hc⟩ := exists_cons_of_ne_nil (ne_nil_of_mem hm)
  have hf' : e'.1 = 0 := by
    have hh : e' ∈ (slots zeroFirst h).filter fun e => e.1 = 0 := by rw [hc]; exact .head _
    simpa using (mem_filter.mp hh).2
  have hl : (slots zeroFirst h).length ≠ 0 := fun h => by
    rw [length_eq_zero_iff.mp h] at he
    cases he
  have hf : ∀ limit sH l, fillSlots limit sH (e' :: l) = .error (.panic .indexOutOfRange) := by
    intro limit sH l
    obtain ⟨i, v⟩ := e'
    obtain rfl : i = 0 := hf'
    rw [fillSlots, if_neg (by omega), if_neg (by omega)]
  rw [assembleSignedHeader_eq, demand, if_pos hl]
  change (fillSlots _ _ (((slots zeroFirst h).filter fun e => e.1 = 0) ++ _) >>= _) = _
  rw [hc, cons_append, hf]
  rfl

lemma Fills.numbered {n : ℕ} (hfills : Fills h n) (hn : n ≠ 0) (hnd : ((matching h).map number).Nodup)
    (hw : ∀ k ∈ matching h, trailing k = []) : ∃ ks, Numbered h ks := by
  have hp : ((matching h).map number).Perm (List.range' 1 n) := by
    refine (perm_ext_iff_of_nodup hnd nodup_range').mpr fun i => ?_
    rw [hfills i, mem_range'_1]
    omega
  let ks := (matching h).insertionSort fun k k' => number k ≤ number k'
  have hks : ks.Perm (matching h) := perm_insertionSort _ _
  have hl : ks.length = n := by
    rw [hks.length_eq, ← length_map number, hp.length_eq, length_range']
  refine ⟨ks, hks, fun hnl => hn ?_, ?_, fun k hk => hw k (hks.mem_iff.mp hk)⟩
  · rw [← hl, hnl]
    rfl
  · rw [hl]
    refine List.Perm.eq_of_pairwise (fun _ _ _ _ => le_antisymm) ?_ (pairwise_le_range' 1)
      ((hks.map number).trans hp)
    exact pairwise_map.mpr ((KeySort.insertion number).sorted _)

/-- `assembleSignedHeader` as it should be: it never panics, the orders of the maps do not matter, and it joins the
values of the headers that are numbered from 1 on and refuses all others. -/
structure Exact (h : Header) : Prop where
  returns : ∀ ord p, assembleSignedHeader ord h ≠ .error (.panic p)
  independent : ∀ ord ord', assembleSignedHeader ord h = assembleSignedHeader ord' h
  joins : ∀ ord ks, Numbered h ks → assembleSignedHeader ord h = .ok (ks.flatMap h.value)
  refuses : ∀ ord, (¬ ∃ ks, Numbered h ks) → ∃ e, assembleSignedHeader ord h = .error (.refused e)

structure Tidy (h : Header) : Prop where
  once : ((matching h).map number).Nodup
  whole : ∀ k ∈ matching h, trailing k = []
  found : ∀ k ∈ matching h, h.get k = h.value k

lemma eq_of_flatMap_eq {α : Type} {f g : α → Text} {l : List α} (hfg : ∀ a ∈ l, f a = g a ∨ f a = [])
    (heq : l.flatMap f = l.flatMap g) : ∀ a ∈ l, f a = g a := by
  have hle : ∀ a ∈ l, (f a).length ≤ (g a).length := by
    intro a ha
    rcases hfg a ha with h | h <;> simp [h]
  induction l with
  | nil => simp
  | cons a l ih =>
    have hf : ∀ l' : List α, (∀ a ∈ l', (f a).length ≤ (g a).length) →
        (l'.flatMap f).length ≤ (l'.flatMap g).length := by
      intro l' hl'
      rw [length_flatMap, length_flatMap]
      exact sum_le_sum hl'
    have hln := congrArg List.length heq
    rw [flatMap_cons, flatMap_cons, length_append, length_append] at hln
    have hh := hle a (.head _)
    have ht := hf l fun b hb => hle b (.tail _ hb)
    rw [flatMap_cons, flatMap_cons] at heq
    obtain ⟨ha, hl⟩ := append_inj heq (by omega)
    exact forall_mem_cons.mpr ⟨ha, ih (fun b hb => hfg b (.tail _ hb)) hl fun b hb => hle b (.tail _ hb)⟩

lemma Fills.zero (hfills : Fills h 0) : matching h = [] := by
  refine eq_nil_iff_forall_not_mem.mpr fun k hk => ?_
  obtain ⟨hl, hh⟩ := (hfills (number k)).mp (mem_map_of_mem hk)
  omega

lemma Exact.tidy (hex : Exact h) {n : ℕ} (hfills : Fills h n) : Tidy h := by
  rcases Nat.eq_zero_or_pos n with rfl | hp
  · refine ⟨?_, ?_, ?_⟩ <;> simp [hfills.zero]
  · obtain ⟨r, -, -, hok⟩ := hfills.assembleSignedHeader_ok (Nat.pos_iff_ne_zero.mp hp) zeroFirst
    obtain ⟨ks, hks⟩ : ∃ ks, Numbered h ks := by
      by_contra hnn
      obtain ⟨e, he⟩ := hex.refuses zeroFirst hnn
      rw [hok] at he
      cases he
    have hn : ((matching h).map number).Nodup := by
      rw [← (hks.perm.map number).nodup_iff, hks.numbers]
      exact nodup_range'
    have hj := Except.ok.inj ((hks.assembleSignedHeader_eq_ok zeroFirst).symm.trans (hex.joins zeroFirst ks hks))
    have hf := eq_of_flatMap_eq (fun k hk => get_eq_value_or_nil hn (hks.perm.mem_iff.mp hk)) hj
    exact ⟨hn, fun k hk => hks.whole k (hks.perm.mem_iff.mpr hk), fun k hk => hf k (hks.perm.mem_iff.mpr hk)⟩

lemma exact_of_tidy (hz : ∀ k ∈ matching h, number k ≠ 0) (htd : ∀ n, Fills h n → Tidy h) : Exact h := by
  by_cases hf : ∃ n, n ≠ 0 ∧ Fills h n
  · obtain ⟨n, hn, hfills⟩ := hf
    have ht := htd n hfills
    obtain ⟨ks, hks⟩ := hfills.numbered hn ht.once ht.whole
    have hok := hks.assembleSignedHeader_eq_ok
    refine ⟨fun ord p hp => ?_, fun ord ord' => (hok ord).trans (hok ord').symm, fun ord ks' hk' => ?_,
      fun _ hnn => absurd ⟨ks, hks⟩ hnn⟩
    · rw [hok] at hp
      cases hp
    · rw [hk'.assembleSignedHeader_eq_ok]
      exact congrArg Except.ok (flatMap_congr fun k hk => ht.found k (hk'.perm.mem_iff.mp hk))
  · have hr := assembleSignedHeader_refused hz fun n hn hfills => hf ⟨n, hn, hfills⟩
    refine ⟨fun ord p hp => ?_, fun ord ord' => (hr ord).trans (hr ord').symm, fun ord ks hks => ?_,
      fun ord _ => ?_⟩
    · rw [hr] at hp
      split at hp <;> cases hp
    · exact absurd ⟨ks.length, fun h => hks.nonempty (length_eq_zero_iff.mp h), hks.fills⟩ hf
    · rw [hr]
      split
      · exact ⟨_, rfl⟩
      · exact ⟨_, rfl⟩

theorem assembleSignedHeader_exact_iff (h : Header) :
    Exact h ↔ (∀ k ∈ matching h, number k ≠ 0) ∧ ∀ n, Fills h n → Tidy h := by
  refine ⟨fun he => ⟨fun k hk hz => ?_, fun n => he.tidy⟩, fun hh => exact_of_tidy hh.1 hh.2⟩
  exact he.returns zeroFirst _ (assembleSignedHeader_zero hk hz)

end

def single (k v : String) : Header where
  entries := AList.singleton k.toList [v.toList]
  small := by
    change (1 : ℤ) < Text.maxInt64
    decide

def twice : Header where
  entries := ((∅ : AList fun _ : Text => List Text).insert "X-Ops-Authorization-1".toList ["a".toList]).insert
    "X-Ops-Authorization-01".toList ["b".toList]
  small := by decide

def backwards : HeaderOrder := ⟨List.reverse, id, reverse_perm, slots_perm_id⟩

theorem assembleSignedHeader_misreads :
    assembleSignedHeader givenOrder (single "X-Ops-Authorization-0" "a") = .error (.panic .indexOutOfRange) ∧
      assembleSignedHeader givenOrder twice = .ok "a".toList ∧ assembleSignedHeader backwards twice = .ok "b".toList ∧
      assembleSignedHeader givenOrder (single "X-Ops-Authorization-1x" "a") = .ok "a".toList ∧
      assembleSignedHeader givenOrder (single "x-ops-authorization-1" "a") = .ok [] := by
  decide +kernel

end Goiardi.Authentication
