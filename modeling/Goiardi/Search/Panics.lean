import Goiardi.Search.Stack

/-! Which queries panic. The searches of single links never do; a chain does when the walk meets a marker with
nothing after it, which a plain query reaches exactly at an empty pair of parentheses that ends its group. -/

namespace Goiardi.Search

open List

def Answers {α : Type} (quiet : Prop) (x : Except Fault α) : Prop :=
  (∃ a, x = .ok a) ∨ ¬ quiet ∧ ∃ t, x = .error (.error t)

section

variable {α β : Type} {quiet : Prop}

lemma answers_ok (a : α) : Answers quiet (.ok a : Except Fault α) := .inl ⟨a, rfl⟩

lemma answers_error (t : Text) : Answers False (.error (.error t) : Except Fault α) := .inr ⟨not_false, t, rfl⟩

lemma Answers.bind {x : Except Fault α} {f : α → Except Fault β} (h : Answers quiet x) (hf : ∀ a, Answers quiet (f a)) :
    Answers quiet (x >>= f) := by
  rcases h with ⟨a, rfl⟩ | ⟨hq, t, rfl⟩
  · exact hf a
  · exact .inr ⟨hq, t, rfl⟩

lemma orError_answers (x : Except Text α) : Answers False (orError x) := by
  cases x with
  | ok a => exact answers_ok a
  | error t => exact answers_error t

end

section

variable (lib : Library) (doc : IdxDoc)

lemma unescape_ne_nil {t : Text} (h : t ≠ []) : unescape t ≠ [] := by
  fun_cases unescape t with
  | case1 => exact absurd rfl h
  | case2 => simp
  | case3 => simp
  | case4 => simp

lemma colon_mem_unescape {t : Text} (h : ':' ∈ t) : ':' ∈ unescape t := by
  fun_induction unescape t with
  | case1 => exact h
  | case2 => exact h
  | case3 c d t hc ih =>
    simp only [mem_cons] at h ⊢
    rcases h with h | h | h
    · exact absurd (h.trans hc.1) (by decide)
    · exact .inl h
    · exact .inr (ih h)
  | case4 c d t _ ih =>
    rcases mem_cons.mp h with h | h
    · exact mem_cons.mpr (.inl h)
    · exact .tail _ (ih h)

lemma splitColon_isSome {t : Text} (h : ':' ∈ t) : ∃ key re, splitColon t = some (key, re) := by
  induction t with
  | nil => cases h
  | cons c t ih =>
    rw [splitColon]
    split
    · exact ⟨_, _, rfl⟩
    · next hc =>
      obtain ⟨key, re, hk⟩ := ih ((mem_cons.mp h).resolve_left fun h => hc h.symm)
      exact ⟨c :: key, re, by rw [hk]; rfl⟩

lemma examine_answers {term : Text} (h : ':' ∈ term) : Answers False (doc.examine lib term) := by
  rw [IdxDoc.examine]
  split
  · obtain ⟨key, re, hs⟩ := splitColon_isSome h
    rw [IdxDoc.regexSearch, hs]
    refine (orError_answers _).bind fun reComp => (orError_answers _).bind fun trie => ?_
    split <;> exact answers_ok _
  · exact (orError_answers _).bind fun trie => answers_ok _

lemma textSearch_answers {term : Text} (h : term ≠ []) : Answers False (doc.textSearch lib term) := by
  cases term with
  | nil => exact absurd rfl h
  | cons c term =>
    rw [IdxDoc.textSearch]
    split
    · exact answers_error _
    · exact (orError_answers _).bind fun reComp => (orError_answers _).bind fun docText => answers_ok _

lemma rangeSearch_answers (field start stop : Text) (inclusive negated : Bool) :
    Answers False (doc.rangeSearch field start stop inclusive negated) := by
  rw [IdxDoc.rangeSearch]
  split
  · exact answers_error _
  · refine (orError_answers _).bind fun trie => ?_
    split <;> exact answers_ok _

end

section

variable {lib : Library} {i : FileIndex} {idx : Text} {quiet : Prop}

lemma collect_answers {examine : IdxDoc → Except Fault Bool} (h : ∀ doc, Answers False (examine doc)) (notop : Bool)
    (docs : List (Text × IdxDoc)) : Answers False (collect examine notop docs) := by
  induction docs with
  | nil => exact answers_ok _
  | cons kv docs ih => exact (h kv.2).bind fun m => ih.bind fun r => answers_ok _

lemma examine_term_answers (lib : Library) (f t : Text) (doc : IdxDoc) :
    Answers False (doc.examine lib (unescape (makeSearchTerm f t))) :=
  examine_answers lib doc (colon_mem_unescape (by simp [makeSearchTerm]))

lemma collection_answers (i : FileIndex) (idx : Text) : Answers False (i.collection idx) := by
  rw [FileIndex.collection]
  split
  · exact answers_ok _
  · exact answers_error _

lemma search_answers (f t : Text) (notop : Bool) : Answers False (i.search lib idx (makeSearchTerm f t) notop) := by
  refine (collection_answers i idx).bind fun c => ?_
  split
  · exact answers_ok _
  · exact collect_answers (examine_term_answers lib f t) notop _

lemma searchResults_answers (f t : Text) (notop : Bool) (d : Finset Text) :
    Answers False (i.searchResults lib idx (makeSearchTerm f t) notop d) := by
  rw [FileIndex.searchResults]
  split
  · exact answers_ok _
  · exact collect_answers (examine_term_answers lib f t) notop _

lemma searchTerms_answers {search : Text → Bool → Except Fault (Finset Text)} {f : Text} (terms : List QueryTerm)
    (h : ∀ t notop, Answers quiet (search (makeSearchTerm f t) notop)) : Answers quiet (searchTerms search f terms) := by
  induction terms with
  | nil => exact answers_ok _
  | cons v terms ih => exact (h _ _).bind fun r => ih.bind fun rest => answers_ok _

lemma Query.searchIndex_answers {q : Query} {op : Op} {prevOp : Option Op} (h : Link.Leaf ⟨.query q, op, prevOp⟩)
    (notop : Bool) : Answers False (q.searchIndex lib i idx notop) := by
  cases q with
  | basic f t c =>
    rw [searchIndex]
    split
    · exact (collection_answers i idx).bind fun c =>
        collect_answers (fun doc => textSearch_answers lib doc (unescape_ne_nil h.2)) notop _
    · exact search_answers f t.term notop
  | grouped f terms c => exact (searchTerms_answers terms fun t n => search_answers f t n).bind fun _ => answers_ok _
  | range f a b inclusive negated =>
    exact (collection_answers i idx).bind fun c =>
      collect_answers (fun doc => rangeSearch_answers doc f a b inclusive negated) false _

lemma Query.searchResults_answers (q : Query) (notop : Bool) (d : Finset Text) :
    Answers False (q.searchResults lib i idx notop d) := by
  cases q with
  | basic f t c => exact Search.searchResults_answers f t.term notop d
  | grouped f terms c =>
    exact (searchTerms_answers terms fun t n => Search.searchResults_answers f t n d).bind fun _ => answers_ok _
  | range f a b inclusive negated =>
    exact collect_answers (fun doc => rangeSearch_answers doc f a b inclusive negated) false _

section

variable {c : IdxCollection} (hc : i.idxmap.lookup idx = some c) (hd : c.docs = [])

include hc hd

lemma search_of_empty (t : Text) (notop : Bool) : Answers quiet (i.search lib idx t notop) := by
  simp only [FileIndex.search, FileIndex.collection, hc, ok_bind]
  split
  · exact answers_ok _
  · rw [searchCollection, hd]
    exact answers_ok _

lemma searchResults_of_empty (t : Text) (notop : Bool) (d : Finset Text) :
    Answers quiet (i.searchResults lib idx t notop d) := by
  rw [FileIndex.searchResults]
  split
  · exact answers_ok _
  · simp only [searchCollection, FileIndex.documents, hc, IdxCollection.within, hd]
    exact answers_ok _

lemma Query.searchIndex_of_empty (q : Query) (notop : Bool) : Answers quiet (q.searchIndex lib i idx notop) := by
  cases q with
  | basic f t c =>
    rw [searchIndex]
    split
    · simp only [FileIndex.searchText, FileIndex.collection, hc, ok_bind, searchTextCollection, hd]
      exact answers_ok _
    · exact search_of_empty hc hd _ _
  | grouped f terms c => exact (searchTerms_answers terms fun t n => search_of_empty hc hd _ n).bind fun _ => answers_ok _
  | range f a b inclusive negated =>
    simp only [searchIndex, FileIndex.searchRange, FileIndex.collection, hc, ok_bind, searchRangeCollection, hd]
    exact answers_ok _

lemma Query.searchResults_of_empty (q : Query) (notop : Bool) (d : Finset Text) :
    Answers quiet (q.searchResults lib i idx notop d) := by
  cases q with
  | basic f t c => exact Search.searchResults_of_empty hc hd _ _ d
  | grouped f terms c =>
    exact (searchTerms_answers terms fun t n => Search.searchResults_of_empty hc hd _ n d).bind fun _ => answers_ok _
  | range f a b inclusive negated =>
    simp only [searchResults, FileIndex.searchResultsRange, FileIndex.documents, hc, IdxCollection.within, hd,
      searchRangeCollection]
    exact answers_ok _

end

end

section

variable {α β : Type} {quiet : Prop}

def Fate (quiet : Prop) (x : Except Fault α) : Option Bool → Prop
  | none => Answers quiet x
  | some false => ∃ t, x = .error (.error t)
  | some true => x = .error (.panic .nilPointer) ∨ ¬ quiet ∧ ∃ t, x = .error (.error t)

variable {x : Except Fault α} {f f' : Option Bool} {xs ys : List Queryable} {s e : Queryable}

lemma Fate.bind {g : α → Except Fault β} (h : Fate quiet x f)
    (hg : ∀ a, Fate quiet (g a) f') : Fate quiet (x >>= g) (f <|> f') := by
  match f with
  | none =>
    rcases h with ⟨a, rfl⟩ | ⟨hq, t, rfl⟩
    · exact hg a
    · match f' with
      | none => exact .inr ⟨hq, t, rfl⟩
      | some false => exact ⟨t, rfl⟩
      | some true => exact .inr ⟨hq, t, rfl⟩
  | some false =>
    obtain ⟨t, rfl⟩ := h
    exact ⟨t, rfl⟩
  | some true =>
    rcases h with rfl | ⟨hq, t, rfl⟩
    · exact .inl rfl
    · exact .inr ⟨hq, t, rfl⟩

lemma Fate.pure {g : α → β} {f : Option Bool} (h : Fate quiet x f) :
    Fate quiet (do return g (← x)) f := by
  have hb : Fate quiet (x >>= fun a => .ok (g a)) (f <|> none) := h.bind fun a => answers_ok (g a)
  cases f <;> exact hb

def Queryable.Plain (quiet : Prop) (s : Queryable) : Prop :=
  match s.kind with
  | .query searchIndex searchResults => Answers quiet searchIndex ∧ ∀ d, Answers quiet (searchResults d)
  | .subQuery _ => False
  | .notQuery => True

lemma fate_leaves {f : Option Bool} (hx : ∀ x ∈ xs, x.Plain quiet)
    (hy : ∀ curOp docs, Fate quiet (execute curOp docs ys) f) :
    ∀ curOp docs, Fate quiet (execute curOp docs (xs ++ ys)) f := by
  induction xs with
  | nil => exact hy
  | cons x xs ih =>
    intro curOp docs
    have hp := hx x (.head _)
    have hrs := ih fun y hm => hx y (.tail _ hm)
    rw [cons_append]
    cases hk : x.kind with
    | query searchIndex searchResults =>
      simp only [Queryable.Plain, hk] at hp
      have hr : Answers quiet (searched curOp docs searchIndex searchResults) := by
        rw [searched]
        split
        · exact hp.2 docs
        · exact hp.1
      rw [execute_query hk]
      exact Fate.bind (f := none) hr fun r => (hrs _ _).pure
    | subQuery b =>
      simp only [Queryable.Plain, hk] at hp
    | notQuery =>
      rw [execute_notQuery hk]
      exact (hrs _ _).pure

lemma fate_bracketed (hs : s.kind = .subQuery true) (he : e.kind = .subQuery false) (hp : Passes xs) (hne : xs ≠ [])
    (hx : ∀ curOp docs, Fate quiet (execute curOp docs xs) f) (hy : ∀ curOp docs, Fate quiet (execute curOp docs ys) f')
    (curOp : Op) (docs : Finset Text) : Fate quiet (execute curOp docs (s :: (xs ++ e :: ys))) (f <|> f') := by
  rw [execute_subQuery hs (hp.extract he) hne]
  exact (hx _ _).bind fun r => (hy _ _).pure

lemma fate_empty {ys : List Queryable} (hs : s.kind = .subQuery true) (he : e.kind = .subQuery false)
    (hp : Passes ys) (curOp : Op) (docs : Finset Text) :
    Fate quiet (execute curOp docs (s :: e :: ys)) (some ys.isEmpty) := by
  have hx : extractSubQuery (e :: ys) = .ok ([], e, ys) := passes_nil.extract he
  rw [execute_subQuery_empty hs hx]
  cases ys with
  | nil =>
    rw [execute_fault he rfl]
    exact .inl rfl
  | cons y ys =>
    rw [execute_fault he (hp.unfinished (by simp))]
    exact ⟨unfinishedText, rfl⟩

end

section

variable {lib : Library} {i : FileIndex} {idx : Text} {quiet : Prop}

lemma Link.Leaf.plain {l : Link} (h : l.Leaf) : (l.queryable lib i idx).Plain False := by
  obtain ⟨body, op, prevOp⟩ := l
  cases body with
  | query q => exact ⟨q.searchIndex_answers h _, fun d => q.searchResults_answers _ d⟩
  | subQuery b => exact h.elim
  | notQuery => trivial

lemma Link.Leaf.plain_of_empty {l : Link} (h : l.Leaf) {c : IdxCollection} (hc : i.idxmap.lookup idx = some c)
    (hd : c.docs = []) : (l.queryable lib i idx).Plain quiet := by
  obtain ⟨body, op, prevOp⟩ := l
  cases body with
  | query q => exact ⟨q.searchIndex_of_empty hc hd _, fun d => q.searchResults_of_empty hc hd _ d⟩
  | subQuery b => exact h.elim
  | notQuery => trivial

theorem Phrase.Shape.fate {p : Phrase} {ls : List Link} (h : p.Shape ls)
    (hq : ∀ l : Link, l.Leaf → (l.queryable lib i idx).Plain quiet) (curOp : Op) (docs : Finset Text) :
    Fate quiet (execute curOp docs (ls.map (Link.queryable lib i idx))) p.firstEmpty := by
  induction p generalizing ls curOp docs with
  | nil =>
    have hl : ls = [] := h
    subst hl
    exact answers_ok _
  | operand _ _ _ _ ih | required _ _ ih | weighted _ _ _ _ ih | fieldGroup _ _ _ _ _ _ ih =>
    obtain ⟨xs, ys, rfl, -, hl, hr⟩ := h
    rw [map_append]
    refine fate_leaves ?_ (fun curOp docs => ih hr curOp docs) curOp docs
    intro q hm
    obtain ⟨l, hlm, rfl⟩ := mem_map.mp hm
    exact hq l (hl l hlm)
  | group inner _ rest ih ih' =>
    obtain ⟨s, xs, e, ys, rfl, hs, he, hx, hy⟩ := h
    rw [map_cons, map_append, map_cons, firstEmpty]
    split
    · next hi =>
      have hx' := hx.eq_nil_iff.mpr hi
      subst hx'
      have hr : decide (rest = .nil) = (ys.map (Link.queryable lib i idx)).isEmpty := by
        rw [Bool.eq_iff_iff, decide_eq_true_iff, List.isEmpty_iff, List.map_eq_nil_iff, hy.eq_nil_iff]
      rw [hr]
      exact fate_empty hs.kind he.kind hy.passes curOp docs
    · next hi =>
      have hne : xs.map (Link.queryable lib i idx) ≠ [] := by
        rw [Ne, map_eq_nil_iff, hx.eq_nil_iff]
        exact hi
      exact fate_bracketed hs.kind he.kind hx.passes hne (fun o d => ih hx o d) (fun o d => ih' hy o d) curOp docs
  | notGroup inner rest ih ih' =>
    obtain ⟨s, xs, e, ys, rfl, hs, he, ⟨n, xs', rfl, hn, hx⟩, hy⟩ := h
    have hn' : n.Leaf := by simp [Link.Leaf, hn]
    rw [map_cons, map_append, map_cons, map_cons]
    refine fate_bracketed hs.kind he.kind (hx.passes.cons hn'.depth) (by simp) (fun o d => ?_)
      (fun o d => ih' hy o d) curOp docs
    have hl : ∀ x ∈ [n.queryable lib i idx], x.Plain quiet := by simpa using hq n hn'
    exact fate_leaves hl (fun o d => ih hx o d) o d

end

section

variable {lib : Library}

lemma Fate.ne_panic {α : Type} {x : Except Fault α} {f : Option Bool} (h : Fate False x f) (hf : f ≠ some true)
    (p : Panic) : x ≠ .error (.panic p) := by
  rintro rfl
  match f with
  | none => rcases h with ⟨a, ha⟩ | ⟨-, t, ht⟩ <;> simp_all
  | some false =>
    obtain ⟨t, ht⟩ := h
    simp at ht
  | some true => exact hf rfl

def emptyIndex (idx : Text) : FileIndex := ⟨[(idx, ⟨[], nodup_nil⟩)]⟩

/-- The actions of an accepted query never panic, and a plain query panics on some index exactly if the first empty
pair of parentheses that its walk meets has nothing after it in its group. -/
theorem runQuery_no_panic {query : Text} {ts : Tokens} (h : Accepts lib query ts) :
    (∃ chain, buildChain ts = .ok chain) ∧ (∃ p : Phrase, ts = p.tokens) ∧
      ∀ p : Phrase, ts = p.tokens → p.plain = true →
        ((∀ i idx panic, runQuery lib i idx ts ≠ .error (.panic panic)) ↔ p.firstEmpty ≠ some true) := by
  obtain ⟨p, hp⟩ := h.exists_phrase
  refine ⟨by rw [hp]; exact p.buildChain_ok, ⟨p, hp⟩, ?_⟩
  rintro p rfl hpl
  obtain ⟨chain, hc, hs⟩ := Phrase.buildChain_shape hpl
  constructor
  · intro hno hf
    -- without documents no search fails, so the walk gets as far as the empty pair
    have hq : ∀ l : Link, l.Leaf → (l.queryable lib (emptyIndex []) []).Plain True :=
      fun l hl => hl.plain_of_empty (c := ⟨[], nodup_nil⟩) rfl rfl
    have hft := (hs.fate hq .notAnOp ∅).pure (g := Prod.fst)
    rw [hf] at hft
    rcases hft with hft | ⟨hq, -⟩
    · exact hno (emptyIndex []) [] .nilPointer ((runQuery_eq hc).trans hft)
    · exact hq trivial
  · intro hf i idx
    have hft := (hs.fate (fun l hl => (hl.plain : (l.queryable lib i idx).Plain False)) .notAnOp ∅).pure (g := Prod.fst)
    rw [runQuery_eq hc]
    exact hft.ne_panic hf

def sampleGroups : Phrase :=
  .group (.operand none (.basic (letter 'a') (.term (letter '1'))) (some .or)
    (.operand none (.basic (letter 'b') (.term (letter '1'))) none .nil)) (some .and)
    (.group (.operand none (.value (.term (letter 'c'))) none .nil) none .nil)

theorem runQuery_no_panic_groups :
    Accepts asciiLibrary "(a:1 OR b:1) AND (c)" sampleGroups.tokens ∧ sampleGroups.plain = true ∧
      ∀ i idx panic, runQuery asciiLibrary i idx sampleGroups.tokens ≠ .error (.panic panic) :=
  have h : Accepts asciiLibrary "(a:1 OR b:1) AND (c)" sampleGroups.tokens := ⟨100, by decide +kernel⟩
  ⟨h, rfl, ((runQuery_no_panic h).2.2 sampleGroups rfl rfl).mpr (by decide)⟩

theorem runQuery_panics : (∃ ts, Accepts asciiLibrary "()" ts ∧
      runQuery asciiLibrary (emptyIndex "node") "node" ts = .error (.panic .nilPointer)) ∧
    ∃ ts, Accepts asciiLibrary "a:(-b)" ts ∧
      runQuery asciiLibrary (emptyIndex "node") "node" ts = .error (.panic .nilPointer) :=
  ⟨⟨groupTokens [], ⟨100, by decide +kernel⟩, by decide +kernel⟩,
    fieldGroupTokens ⟨['a'], by simp⟩
      (.action (.setNotQuery .unaryPro) :: termTokens ⟨['b'], by simp⟩), ⟨100, by decide +kernel⟩, by decide +kernel⟩

end

end Goiardi.Search
