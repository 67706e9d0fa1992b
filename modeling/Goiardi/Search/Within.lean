import Goiardi.Search.Operands

/-! The two ways to search a query link: in the whole collection, and within documents gathered before. -/

namespace Goiardi.Search

open List Finset

section

variable {search : Text → Bool → Except Fault (Finset Text)} {field : Text} {terms : List QueryTerm}
  {val : QueryTerm → Finset Text} {k : Text}

lemma searchTerms_ok {rs : List (Op × Finset Text)} (h : searchTerms search field terms = .ok rs) :
    ∀ v ∈ terms, ∃ S, search (makeSearchTerm field v.term) v.mod.negates = .ok S := by
  induction terms generalizing rs with
  | nil => simp
  | cons v terms ih =>
    obtain ⟨S, hS, h⟩ := bind_ok h
    obtain ⟨rs', hr', -⟩ := bind_ok h
    intro w hw
    cases hw with
    | head => exact ⟨S, hS⟩
    | tail _ hw => exact ih hr' w hw

lemma searchTerms_eq (h : ∀ v ∈ terms, search (makeSearchTerm field v.term) v.mod.negates = .ok (val v)) :
    searchTerms search field terms = .ok (terms.map fun v => (v.mod, val v)) := by
  induction terms with
  | nil => rfl
  | cons v terms ih =>
    rw [searchTerms, h v (.head _), ok_bind, ih fun w hw => h w (.tail _ hw)]
    rfl

def counting (terms : List QueryTerm) : List QueryTerm := terms.takeWhile fun v => v.mod ≠ .unaryReq

lemma foldl_step_required (rs : List (Op × Finset Text)) (m : Merge) (h : m.reqOp = true) :
    (rs.foldl Merge.step m).res = m.res := by
  induction rs generalizing m with
  | nil => rfl
  | cons r rs ih =>
    have hs : (m.step r).reqOp = true ∧ (m.step r).res = m.res := by
      rw [Merge.step]
      split
      · exact ⟨rfl, rfl⟩
      · simp [h]
    rw [foldl_cons, ih _ hs.1, hs.2]

lemma mem_foldl_step (m : Merge) (h : m.reqOp = false) :
    k ∈ ((terms.map fun v => (v.mod, val v)).foldl Merge.step m).res ↔ k ∈ m.res ∨ ∃ v ∈ counting terms, k ∈ val v := by
  induction terms generalizing m with
  | nil => simp [counting]
  | cons v terms ih =>
    rw [List.map_cons, List.foldl_cons]
    by_cases hv : v.mod = .unaryReq
    · have hs : (m.step (v.mod, val v)).reqOp = true ∧ (m.step (v.mod, val v)).res = m.res := by
        simp [Merge.step, hv]
      rw [foldl_step_required _ _ hs.1, hs.2]
      simp [counting, hv]
    · have hs : (m.step (v.mod, val v)).reqOp = false ∧ (m.step (v.mod, val v)).res = m.res ∪ val v := by
        simp [Merge.step, hv, h]
      rw [ih _ hs.1, hs.2, mem_union]
      simp [counting, hv, or_assoc]

lemma mem_mergeResults : k ∈ mergeResults (terms.map fun v => (v.mod, val v)) ↔ ∃ v ∈ counting terms, k ∈ val v := by
  rw [mergeResults, mem_foldl_step _ rfl]
  simp

end

def docsOf : Except Fault (Finset Text) → Finset Text
  | .ok S => S
  | .error _ => ∅

section

variable {lib : Library} {i : FileIndex} {idx : Text} {c : IdxCollection} {D S : Finset Text}

def QueryTerm.Lost (field : Text) (v : QueryTerm) : Prop :=
  v.mod.negates = true ∧ makeSearchTerm field v.term = everything

def Query.Agrees (lib : Library) (i : FileIndex) (idx : Text) (c : IdxCollection) (notop : Bool) (D : Finset Text) :
    Query → Prop
  | basic [] term _ => ∀ kv ∈ c.within D,
      kv.2.examine lib (unescape (makeSearchTerm [] term.term)) = kv.2.textSearch lib (unescape term.term)
  | basic field term _ => makeSearchTerm field term.term = everything → notop = true → D = ∅
  | grouped field terms _ => (∃ v ∈ counting terms, v.Lost field) → ∀ k ∈ D, ∃ v ∈ counting terms, ¬ v.Lost field ∧
      k ∈ docsOf (i.search lib idx (makeSearchTerm field v.term) v.mod.negates)
  | range .. => True

lemma search_everything (hc : i.idxmap.lookup idx = some c) (notop : Bool) :
    i.search lib idx everything notop = .ok c.allDocs := by
  simp only [FileIndex.search, FileIndex.collection, hc, ok_bind, if_pos]
  rfl

lemma searchResults_everything (notop : Bool) :
    i.searchResults lib idx everything notop D = .ok (if notop then ∅ else D) := by
  rw [FileIndex.searchResults, if_pos rfl]
  rfl

lemma searchResults_of_search (hc : i.idxmap.lookup idx = some c) (hD : D ⊆ c.allDocs) {term : Text} {notop : Bool}
    (hl : ¬ (notop = true ∧ term = everything)) (h : i.search lib idx term notop = .ok S) :
    i.searchResults lib idx term notop D = .ok (S ∩ D) := by
  by_cases ht : term = everything
  · have hn : notop = false := by simpa [ht] using hl
    subst ht hn
    rw [search_everything hc] at h
    cases h
    rw [searchResults_everything, inter_eq_right.mpr hD]
    rfl
  · rw [search_eq hc ht] at h
    rw [searchResults_eq hc ht, IdxCollection.collect_within h]

lemma basic_agrees_iff (hc : i.idxmap.lookup idx = some c) (hD : D ⊆ c.allDocs) {field term : Text} {notop : Bool}
    (h : i.search lib idx (makeSearchTerm field term) notop = .ok S) :
    i.searchResults lib idx (makeSearchTerm field term) notop D = .ok (S ∩ D) ↔
      (makeSearchTerm field term = everything → notop = true → D = ∅) := by
  by_cases hl : notop = true ∧ makeSearchTerm field term = everything
  · obtain ⟨rfl, ht⟩ := hl
    rw [ht, search_everything hc] at h
    cases h
    rw [ht, searchResults_everything, inter_eq_right.mpr hD]
    simp [eq_comm]
  · refine iff_of_true (searchResults_of_search hc hD hl h) fun ht hn => absurd ⟨hn, ht⟩ hl

lemma collect_eq_iff {examine examine' : IdxDoc → Except Fault Bool} {notop : Bool} {docs : List (Text × IdxDoc)}
    (hn : (docs.map Prod.fst).Nodup) (h : collect examine notop docs = .ok S) :
    collect examine' notop docs = .ok S ↔ ∀ kv ∈ docs, examine' kv.2 = examine kv.2 := by
  constructor
  · intro h' kv hkv
    obtain ⟨m, hm⟩ := total_of_collect h kv hkv
    obtain ⟨m', hm'⟩ := total_of_collect h' kv hkv
    have hu : ∀ v, (kv.1, v) ∈ docs → v = kv.2 := fun v hv =>
      congrArg Prod.snd (inj_on_of_nodup_map hn hv hkv rfl)
    have hmm : ∀ e : IdxDoc → Except Fault Bool, (∃ v, (kv.1, v) ∈ docs ∧ e v = .ok (!notop)) ↔
        e kv.2 = .ok (!notop) := by
      intro e
      constructor
      · rintro ⟨v, hv, he⟩
        rwa [hu v hv] at he
      · exact fun he => ⟨kv.2, hkv, he⟩
    have hi : examine' kv.2 = .ok (!notop) ↔ examine kv.2 = .ok (!notop) := by
      rw [← hmm, ← hmm, ← mem_collect h, ← mem_collect h']
    rw [hm, hm'] at hi ⊢
    cases m <;> cases m' <;> cases notop <;> simp_all
  · intro heq
    obtain ⟨T, hT⟩ : ∃ T, collect examine' notop docs = .ok T := by
      refine collect_of_total fun kv hkv => ?_
      rw [heq kv hkv]
      exact total_of_collect h kv hkv
    have he : T = S := by
      ext k
      rw [mem_collect hT, mem_collect h]
      constructor
      · rintro ⟨v, hv, hx⟩
        exact ⟨v, hv, by rw [← heq _ hv]; exact hx⟩
      · rintro ⟨v, hv, hx⟩
        exact ⟨v, hv, by rw [heq _ hv]; exact hx⟩
    rw [hT, he]

lemma fieldless_agrees_iff (hc : i.idxmap.lookup idx = some c) {term : Text} {notop : Bool}
    (h : i.searchText lib idx term notop = .ok S) :
    i.searchResults lib idx (makeSearchTerm [] term) notop D = .ok (S ∩ D) ↔ ∀ kv ∈ c.within D,
      kv.2.examine lib (unescape (makeSearchTerm [] term)) = kv.2.textSearch lib (unescape term) := by
  simp only [FileIndex.searchText, FileIndex.collection, hc, ok_bind, searchTextCollection] at h
  rw [searchResults_eq hc fun h => by simpa [makeSearchTerm, everything] using congrArg List.head? h]
  exact collect_eq_iff (c.nodup.sublist (filter_sublist.map _)) (IdxCollection.collect_within h D)

lemma grouped_agrees_iff (hc : i.idxmap.lookup idx = some c) (hD : D ⊆ c.allDocs) {field : Text}
    {terms : List QueryTerm} {complete notop : Bool}
    (h : (Query.grouped field terms complete).searchIndex lib i idx notop = .ok S) :
    (Query.grouped field terms complete).searchResults lib i idx notop D = .ok (S ∩ D) ↔
      (Query.grouped field terms complete).Agrees lib i idx c notop D := by
  classical
  obtain ⟨rs, hrs, h⟩ := bind_ok h
  let val (v : QueryTerm) : Finset Text := docsOf (i.search lib idx (makeSearchTerm field v.term) v.mod.negates)
  let valIn (v : QueryTerm) : Finset Text := if v.Lost field then ∅ else val v ∩ D
  have hvl : ∀ v ∈ terms, i.search lib idx (makeSearchTerm field v.term) v.mod.negates = .ok (val v) := by
    intro v hv
    obtain ⟨T, hT⟩ := searchTerms_ok hrs v hv
    simp only [val, hT, docsOf]
  have hvi : ∀ v ∈ terms,
      i.searchResults lib idx (makeSearchTerm field v.term) v.mod.negates D = .ok (valIn v) := by
    intro v hv
    by_cases hl : v.Lost field
    · rw [hl.2, searchResults_everything, hl.1]
      simp [valIn, hl]
    · rw [searchResults_of_search hc hD hl (hvl v hv)]
      simp [valIn, hl]
  rw [searchTerms_eq hvl] at hrs
  cases hrs
  cases h
  have hr : (Query.grouped field terms complete).searchResults lib i idx notop D =
      .ok (mergeResults (terms.map fun v => (v.mod, valIn v))) := by
    rw [Query.searchResults, searchTerms_eq hvi]
    rfl
  rw [hr, Except.ok.injEq]
  constructor
  · rintro heq ⟨v, hv, hls⟩ k hk
    have hvk : k ∈ val v := by
      have ha : val v = c.allDocs := by
        simp only [val, hls.2, search_everything hc, docsOf]
      rw [ha]
      exact hD hk
    have hin : k ∈ mergeResults (terms.map fun v => (v.mod, valIn v)) := by
      rw [heq, mem_inter, mem_mergeResults]
      exact ⟨⟨v, hv, hvk⟩, hk⟩
    obtain ⟨w, hw, hkw⟩ := mem_mergeResults.mp hin
    by_cases hl : w.Lost field
    · simp [valIn, hl] at hkw
    · simp only [valIn, if_neg hl, mem_inter] at hkw
      exact ⟨w, hw, hl, hkw.1⟩
  · intro hcv
    ext k
    rw [mem_inter, mem_mergeResults, mem_mergeResults]
    constructor
    · rintro ⟨v, hv, hkv⟩
      by_cases hl : v.Lost field
      · simp [valIn, hl] at hkv
      · simp only [valIn, if_neg hl, mem_inter] at hkv
        exact ⟨⟨v, hv, hkv.1⟩, hkv.2⟩
    · rintro ⟨⟨v, hv, hkv⟩, hk⟩
      by_cases hl : v.Lost field
      · obtain ⟨w, hw, hlw, hkw⟩ := hcv ⟨v, hv, hl⟩ k hk
        exact ⟨w, hw, by simp [valIn, hlw, val, hkw, hk]⟩
      · exact ⟨v, hv, by simp [valIn, hl, hkv, hk]⟩

/-- The search of a link within gathered documents keeps those that its search of the whole collection finds, except
for a negated `*:*`, a term without a field, and a group in which a negated `*` counts. -/
theorem searchResults_eq_inter_iff (hc : i.idxmap.lookup idx = some c) (hD : D ⊆ c.allDocs) (q : Query) (notop : Bool)
    (hS : q.searchIndex lib i idx notop = .ok S) :
    q.searchResults lib i idx notop D = .ok (S ∩ D) ↔ q.Agrees lib i idx c notop D := by
  cases q with
  | basic field term complete =>
    cases field with
    | nil => exact fieldless_agrees_iff hc hS
    | cons x field => exact basic_agrees_iff hc hD hS
  | grouped field terms complete => exact grouped_agrees_iff hc hD hS
  | range field start stop inclusive negated =>
    simp only [Query.searchIndex, FileIndex.searchRange, FileIndex.collection, hc, ok_bind] at hS
    refine iff_of_true ?_ trivial
    simp only [Query.searchResults, FileIndex.searchResultsRange, FileIndex.documents, hc]
    exact IdxCollection.collect_within hS D

theorem searchResults_eq_inter_iff_range :
    (Query.range ['a'] ['1'] ['*'] true false).searchIndex asciiLibrary twoNodeIndex "node" false = .ok {['m']} ∧
    (Query.range ['a'] ['1'] ['*'] true false).searchResults asciiLibrary twoNodeIndex "node" false
      {['m'], ['n']} = .ok {['m']} :=
  have hS : (Query.range ['a'] ['1'] ['*'] true false).searchIndex asciiLibrary twoNodeIndex "node" false =
      .ok {['m']} := by decide +kernel
  ⟨hS, ((searchResults_eq_inter_iff (c := twoNodes) (D := {['m'], ['n']}) rfl (by decide) _ _ hS).mpr trivial).trans
    (by decide +kernel)⟩

/-- A library that answers as the source's does for a term without wildcards in a text of one line: the pattern
between `(?m)` and `$` is the end of the text. -/
def lineEndLibrary : Library := { asciiLibrary with compile := fun re => .ok fun t => (re.drop 4).dropLast.isSuffixOf t }

theorem searchResults_ne_inter :
    (Query.basic ['*'] ⟨['*'], .unaryNot⟩ true).searchIndex asciiLibrary twoNodeIndex "node" true = .ok {['m'], ['n']} ∧
    (Query.basic ['*'] ⟨['*'], .unaryNot⟩ true).searchResults asciiLibrary twoNodeIndex "node" true {['m']} = .ok ∅ ∧
    (Query.basic [] ⟨['1'], .notAnOp⟩ true).searchIndex lineEndLibrary twoNodeIndex "node" false = .ok {['m'], ['n']} ∧
    (Query.basic [] ⟨['1'], .notAnOp⟩ true).searchResults lineEndLibrary twoNodeIndex "node" false {['m']} = .ok ∅ := by
  decide +kernel

end

end Goiardi.Search
