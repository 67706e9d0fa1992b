import Goiardi.Search.Within

/-! Parenthesised groups inside a query. A group is a single operand with its own documents wherever the walk reaches
it without a pending `AND`; after `AND` it starts from the documents gathered so far. -/

namespace Goiardi.Search

open List Phrase

inductive Place
  | here (join : Option Joiner) (rest : Phrase)
  | after (p : Phrase) (place : Place)
  | inGroup (place : Place) (join : Option Joiner) (rest : Phrase)
  | inNotGroup (place : Place) (rest : Phrase)
deriving DecidableEq

namespace Place

def plug (inner : Phrase) : Place → Phrase
  | here join rest => .group inner join rest
  | after p place => p.append (place.plug inner)
  | inGroup place join rest => .group (place.plug inner) join rest
  | inNotGroup place rest => .notGroup (place.plug inner) rest

def before : Place → Tokens
  | here _ _ => []
  | after p place => p.tokens ++ place.before
  | inGroup place _ _ => .action .startSubQuery :: place.before
  | inNotGroup place _ => .action .startSubQuery :: .action (.setNotQuery .unaryNot) :: place.before

def behind : Place → Tokens
  | here join rest => joinTokens join ++ rest.tokens
  | after _ place => place.behind
  | inGroup place join rest => place.behind ++ .action .endSubQuery :: joinTokens join ++ rest.tokens
  | inNotGroup place rest => place.behind ++ .action .endSubQuery :: rest.tokens

def join : Place → Option Joiner
  | here join _ => join
  | after _ place => place.join
  | inGroup place _ _ => place.join
  | inNotGroup place _ => place.join

def last : Place → Bool
  | here join rest => join = none && rest = .nil
  | after _ place => place.last
  | inGroup place _ _ => place.last
  | inNotGroup place _ => place.last

lemma tokens_plug (inner : Phrase) (place : Place) :
    (place.plug inner).tokens = place.before ++ groupTokens inner.tokens ++ place.behind := by
  induction place with
  | here join rest => simp [plug, before, behind, tokens]
  | after p place ih => simp [plug, before, behind, tokens_append, ih]
  | inGroup place join rest ih => simp [plug, before, behind, tokens, groupTokens, ih]
  | inNotGroup place rest ih => simp [plug, before, behind, tokens, groupTokens, ih]

end Place

lemma Phrase.plain_append (p q : Phrase) : (p.append q).plain = (p.plain && q.plain) := by
  induction p with
  | nil => simp [append, plain]
  | operand | required | weighted => simp_all [append, plain]
  | fieldGroup | group | notGroup => simp_all [append, plain, Bool.and_assoc]

lemma Phrase.firstEmpty_group {inner rest : Phrase} {join : Option Joiner}
    (h : (group inner join rest).firstEmpty = none) : inner.firstEmpty = none ∧ rest.firstEmpty = none := by
  rw [firstEmpty] at h
  split at h
  · cases h
  · cases hf : inner.firstEmpty <;> simp_all

lemma Phrase.firstEmpty_notGroup {inner rest : Phrase} (h : (notGroup inner rest).firstEmpty = none) :
    inner.firstEmpty = none ∧ rest.firstEmpty = none := by
  rw [firstEmpty] at h
  cases hf : inner.firstEmpty <;> simp_all

lemma Phrase.firstEmpty_append {p q : Phrase} (h : (p.append q).firstEmpty = none) :
    p.firstEmpty = none ∧ q.firstEmpty = none := by
  induction p with
  | nil => exact ⟨rfl, h⟩
  | operand _ _ _ _ ih | required _ _ ih | weighted _ _ _ _ ih | fieldGroup _ _ _ _ _ _ ih => exact ih h
  | group inner _ rest _ ih =>
    obtain ⟨hin, hr⟩ := firstEmpty_group h
    have hi : inner ≠ .nil := by
      rintro rfl
      simp [append, firstEmpty] at h
    rw [firstEmpty, if_neg hi, hin, (ih hr).1]
    exact ⟨rfl, (ih hr).2⟩
  | notGroup inner rest _ ih =>
    obtain ⟨hin, hr⟩ := firstEmpty_notGroup h
    rw [firstEmpty, hin, (ih hr).1]
    exact ⟨rfl, (ih hr).2⟩

def Surrounds (pre post : List Queryable) : Prop :=
  ∀ mid, Nested mid → mid ≠ [] → Nested (pre ++ (mid ++ post))

section

variable (lib : Library) (i : FileIndex) (idx : Text)

def Place.BuildsWith (before behind : Tokens) (join : Option Joiner) (last : Bool) : Prop :=
  ∀ z : Token, z.settled = true → ∃ pre : List Link, Leads before z (pre.reverse ++ z) ∧
    Token.settled (pre.reverse ++ z) = true ∧ ∀ (e : Link) (w : Token), e.IsEnd →
      ∃ post : List Link, Leads behind (e :: w) (post.reverse ++ e.join join :: w) ∧
        Token.settled (post.reverse ++ e.join join :: w) = true ∧ (last = true → ∀ l ∈ post.head?, l.IsEnd) ∧
        Surrounds (pre.map (Link.queryable lib i idx)) (post.map (Link.queryable lib i idx))

def Place.Builds (place : Place) : Prop := BuildsWith lib i idx place.before place.behind place.join place.last

lemma Phrase.builds_nested {p : Phrase} (hp : p.plain = true) (hf : p.firstEmpty = none) {z : Token}
    (hz : z.settled = true) :
    ∃ ls : List Link, Leads p.tokens z (ls.reverse ++ z) ∧ Token.settled (ls.reverse ++ z) = true ∧
      Nested (ls.map (Link.queryable lib i idx)) := by
  obtain ⟨ls, hs, hst, hl⟩ := builds hp z hz
  exact ⟨ls, hl, hst, hs.nested hf⟩

variable {lib i idx}

lemma Link.IsEnd.join {e : Link} (h : e.IsEnd) (join : Option Joiner) : (e.join join).IsEnd := by
  cases join <;> exact h

lemma Place.builds_here {join : Option Joiner} {rest : Phrase} (hp : rest.plain = true) (hf : rest.firstEmpty = none) :
    (Place.here join rest).Builds lib i idx := by
  intro z hz
  refine ⟨[], .nil, hz, fun e w he => ?_⟩
  obtain ⟨post, hs, hst, hl⟩ := builds hp _ (Link.settled_marker (he.join join) w)
  refine ⟨post, (leads_join e join w).append hl, hst, ?_, fun mid hm _ => hm.append (hs.nested hf)⟩
  intro hls l hl
  simp only [last, Bool.and_eq_true, decide_eq_true_eq] at hls
  rw [hs.eq_nil_iff.mpr hls.2] at hl
  cases hl

lemma Place.builds_after {p : Phrase} {place : Place} (hp : p.plain = true) (hf : p.firstEmpty = none)
    (h : place.Builds lib i idx) : (Place.after p place).Builds lib i idx := by
  intro z hz
  obtain ⟨ls, hl, hst, hn⟩ := builds_nested lib i idx hp hf hz
  obtain ⟨pre, hpr, hs', hb⟩ := h _ hst
  refine ⟨ls ++ pre, by simpa [before] using hl.append hpr, by simpa using hs', fun e w he => ?_⟩
  obtain ⟨post, hps, hs'', hls, hs⟩ := hb e w he
  refine ⟨post, hps, hs'', hls, fun mid hm hne => ?_⟩
  rw [map_append, append_assoc]
  exact hn.append (hs mid hm hne)

lemma Place.builds_inside {place : Place} {rest : Phrase} (neg : Option Negation) (join : Option Joiner)
    (h : place.Builds lib i idx) (hp : rest.plain = true) (hf : rest.firstEmpty = none) :
    BuildsWith lib i idx (.action .startSubQuery :: (negTokens neg ++ place.before))
      (place.behind ++ .action .endSubQuery :: joinTokens join ++ rest.tokens) place.join place.last := by
  intro z hz
  let s : Link := ⟨.subQuery true, .notAnOp, z.head?.map Link.op⟩
  have hs : s.IsStart := rfl
  obtain ⟨pre, hpr, hse, hb⟩ := h _ (settled_notLinks (Link.settled_marker hs z) neg)
  refine ⟨s :: (notLinks neg (s :: z) ++ pre), ?_, by simpa [notLinks_reverse] using hse, fun e w he => ?_⟩
  · simpa [notLinks_reverse] using ((leads_start hz).append (leads_neg neg (s :: z))).append hpr
  obtain ⟨post, hps, hs', hls, hsr⟩ := hb e w he
  obtain ⟨c, hc, -, hlc⟩ := leads_end hs' join
  obtain ⟨ys, hly, hst, hny⟩ := builds_nested lib i idx hp hf (Link.settled_marker hc _)
  refine ⟨post ++ c :: ys, ?_, by simpa using hst, fun hl l hm => ?_, fun mid hm hne => ?_⟩
  · simpa using (hps.append hlc).append hly
  · cases post with
    | nil =>
      cases hm
      exact hc
    | cons x post => exact hls hl l hm
  · have hin : Nested ((notLinks neg (s :: z)).map (Link.queryable lib i idx) ++ _) :=
      nested_nots notLinks_kind (hsr mid hm hne)
    have ho : (s.queryable lib i idx).kind = .subQuery true := hs.kind
    have hcl : (c.queryable lib i idx).kind = .subQuery false := hc.kind
    have hg := Nested.group ho hcl (by simp [hne]) hin hny
    simpa using hg

theorem Place.builds {place : Place} {inner : Phrase} (hp : (place.plug inner).plain = true)
    (hf : (place.plug inner).firstEmpty = none) : place.Builds lib i idx := by
  induction place with
  | here join rest =>
    simp only [plug, plain, Bool.and_eq_true] at hp
    exact builds_here hp.2 (firstEmpty_group hf).2
  | after p place ih =>
    simp only [plug, plain_append, Bool.and_eq_true] at hp
    obtain ⟨hf₁, hf₂⟩ := firstEmpty_append hf
    exact builds_after hp.1 hf₁ (ih hp.2 hf₂)
  | inGroup place join rest ih =>
    simp only [plug, plain, Bool.and_eq_true] at hp
    obtain ⟨hf₁, hf₂⟩ := firstEmpty_group hf
    exact builds_inside none join (ih hp.1 hf₁) hp.2 hf₂
  | inNotGroup place rest ih =>
    simp only [plug, plain, Bool.and_eq_true] at hp
    obtain ⟨hf₁, hf₂⟩ := firstEmpty_notGroup hf
    have h := builds_inside (some .not) none (ih hp.1 hf₁) hp.2 hf₂
    rwa [joinTokens, append_assoc, cons_append, nil_append] at h

end

section

variable {lib : Library} {i : FileIndex} {idx : Text} {c : IdxCollection} {D S : Finset Text}

variable {notop : Bool} {term : Text} {q : Query}

lemma collect_subset {examine : IdxDoc → Except Fault Bool} {docs : List (Text × IdxDoc)}
    (hd : ∀ kv ∈ docs, kv ∈ c.docs) (h : collect examine notop docs = .ok S) : S ⊆ c.allDocs := by
  intro k hk
  obtain ⟨v, hv, -⟩ := (mem_collect h).mp hk
  exact IdxCollection.mem_allDocs.mpr ⟨v, hd _ hv⟩

lemma within_subset : ∀ kv ∈ c.within D, kv ∈ c.docs := fun _ hkv => (IdxCollection.mem_within.mp hkv).1

lemma search_subset (hc : i.idxmap.lookup idx = some c) (h : i.search lib idx term notop = .ok S) : S ⊆ c.allDocs := by
  by_cases ht : term = everything
  · subst ht
    rw [search_everything hc] at h
    cases h
    exact subset_rfl
  · rw [search_eq hc ht] at h
    exact collect_subset (fun _ => id) h

lemma searchResults_subset (hc : i.idxmap.lookup idx = some c) (hD : D ⊆ c.allDocs)
    (h : i.searchResults lib idx term notop D = .ok S) : S ⊆ c.allDocs := by
  by_cases ht : term = everything
  · subst ht
    rw [searchResults_everything] at h
    cases h
    split
    · exact Finset.empty_subset _
    · exact hD
  · rw [searchResults_eq hc ht] at h
    exact collect_subset within_subset h

lemma grouped_subset {search : Text → Bool → Except Fault (Finset Text)} {field : Text} {terms : List QueryTerm}
    (hs : ∀ term notop T, search term notop = .ok T → T ⊆ c.allDocs) {rs : List (Op × Finset Text)}
    (h : searchTerms search field terms = .ok rs) : mergeResults rs ⊆ c.allDocs := by
  have hvl : ∀ v ∈ terms, search (makeSearchTerm field v.term) v.mod.negates =
      .ok (docsOf (search (makeSearchTerm field v.term) v.mod.negates)) := by
    intro v hv
    obtain ⟨T, hT⟩ := searchTerms_ok h v hv
    simp only [hT, docsOf]
  rw [searchTerms_eq hvl] at h
  cases h
  intro k hk
  obtain ⟨v, hv, hkv⟩ := mem_mergeResults.mp hk
  exact hs _ _ _ (hvl v ((takeWhile_sublist _).subset hv)) hkv

lemma Query.searchIndex_subset (hc : i.idxmap.lookup idx = some c)
    (h : q.searchIndex lib i idx notop = .ok S) : S ⊆ c.allDocs := by
  cases q with
  | basic field term complete =>
    rw [searchIndex] at h
    split at h
    · simp only [FileIndex.searchText, FileIndex.collection, hc, ok_bind] at h
      exact collect_subset (fun _ => id) h
    · exact search_subset hc h
  | grouped field terms complete =>
    obtain ⟨rs, hrs, h⟩ := bind_ok h
    cases h
    exact grouped_subset (fun _ _ _ => search_subset hc) hrs
  | range field start stop inclusive negated =>
    simp only [searchIndex, FileIndex.searchRange, FileIndex.collection, hc, ok_bind] at h
    exact collect_subset (fun _ => id) h

lemma Query.searchResults_subset (hc : i.idxmap.lookup idx = some c) (hD : D ⊆ c.allDocs)
    (h : q.searchResults lib i idx notop D = .ok S) : S ⊆ c.allDocs := by
  cases q with
  | basic field term complete => exact Search.searchResults_subset hc hD h
  | grouped field terms complete =>
    obtain ⟨rs, hrs, h⟩ := bind_ok h
    cases h
    exact grouped_subset (fun _ _ _ => Search.searchResults_subset hc hD) hrs
  | range field start stop inclusive negated =>
    simp only [searchResults, FileIndex.searchResultsRange, FileIndex.documents, hc] at h
    exact collect_subset within_subset h

theorem walk_subset (hc : i.idxmap.lookup idx = some c) {ls : List Link} {f f' : Frame} {fs fs' : List Frame}
    (hf : ∀ g ∈ f :: fs, g.docs ⊆ c.allDocs) (h : walk (ls.map (Link.queryable lib i idx)) f fs = .ok (f', fs')) :
    ∀ g ∈ f' :: fs', g.docs ⊆ c.allDocs := by
  induction ls generalizing f fs with
  | nil =>
    cases h
    exact hf
  | cons l ls ih =>
    rw [map_cons] at h
    obtain ⟨hff, hfs⟩ := forall_mem_cons.mp hf
    cases hb : l.body with
    | query q =>
      have hk : (l.queryable lib i idx).kind = .query (q.searchIndex lib i idx l.notop)
          fun docs => q.searchResults lib i idx l.notop docs := by rw [Link.queryable, hb]
      rw [walk_query hk] at h
      obtain ⟨r, hr, h⟩ := bind_ok h
      have hrs : r ⊆ c.allDocs := by
        rw [searched] at hr
        split at hr
        · exact Query.searchResults_subset hc hff hr
        · exact Query.searchIndex_subset hc hr
      exact ih (forall_mem_cons.mpr ⟨merge_subset hff hrs, hfs⟩) h
    | notQuery =>
      have hk : (l.queryable lib i idx).kind = .notQuery := by rw [Link.queryable, hb]
      rw [walk_notQuery hk] at h
      exact ih hf h
    | subQuery start =>
      cases start with
      | true =>
        rw [walk_start (Link.IsStart.kind hb)] at h
        exact ih (forall_mem_cons.mpr ⟨Frame.enter_subset hff, hf⟩) h
      | false =>
        cases fs with
        | nil =>
          rw [walk, Link.IsEnd.kind hb] at h
          cases h
        | cons p fs =>
          rw [walk_end (Link.IsEnd.kind hb)] at h
          obtain ⟨hp, hf'⟩ := forall_mem_cons.mp hfs
          exact ih (forall_mem_cons.mpr ⟨merge_subset hp hff, hf'⟩) h

end

section

def single (S : Finset Text) (op : Op) : Queryable := ⟨.query (.ok S) fun d => .ok (d ∩ S), op⟩

def runChain (chain : List Queryable) : Except Fault (Finset Text) := do
  let (docs, _) ← execute .notAnOp ∅ chain
  return docs

lemma runChain_of_nested {chain : List Queryable} (h : Nested chain) :
    runChain chain = walk chain ⟨.notAnOp, ∅⟩ [] >>= fun g => pure g.1.docs := by
  have hw := (h.walk_eq ⟨.notAnOp, ∅⟩).2
  simp only [lastFrame, bind_assoc, pure_bind] at hw
  exact hw

lemma Formula.gather_group_eq_take_iff {α : Type} {val : α → Finset Text} {e : Formula α} {op : Op} {D : Finset Text} :
    (group e).gather val op D = take op D (e.alone val) ↔ (op = .binAnd → e.gather val .binAnd ∅ ⊆ D) := by
  by_cases h : op = .binAnd
  · subst h
    rw [gather_group_and, take_and, gather_and_eq_inter_iff]
    simp
  · refine iff_of_true ?_ fun h' => absurd h' h
    rw [gather, take, if_neg h, if_neg h, gather_start h]

lemma walk_docs_of_up {post : List Queryable} (h : ∀ q ∈ post.head?, q.kind = .subQuery false) {f g : Frame}
    (hd : f.docs = g.docs) (fs : List Frame) :
    (walk post f fs >>= fun r => pure r.1.docs) = walk post g fs >>= fun r => pure r.1.docs := by
  cases post with
  | nil => exact congrArg Except.ok hd
  | cons q post =>
    have hk := h q rfl
    cases fs with
    | nil => simp only [walk, hk]
    | cons p fs => rw [walk_end hk, walk_end hk, hd]

variable {lib : Library} {i : FileIndex} {idx : Text} {c : IdxCollection}

lemma Place.chain (hc : i.idxmap.lookup idx = some c) {place : Place} {E : Formula Atomic}
    (hp : (place.plug E.phrase).plain = true) (hf : (place.plug E.phrase).firstEmpty = none) (hr : E.Ready lib c) :
    ∃ (pre : List Link) (s : Link) (inner : List Link) (e : Link) (post : List Link),
      buildChain place.before = .ok pre ∧
      buildChain (place.plug E.phrase).tokens = .ok (pre ++ s :: (inner ++ e :: post)) ∧
      e.op = place.join.elim .notAnOp Joiner.op ∧ (place.last = true → ∀ l ∈ post.head?, l.IsEnd) ∧
      Surrounds (pre.map (Link.queryable lib i idx)) (post.map (Link.queryable lib i idx)) ∧
      Realises c.allDocs (fun a => a.docs lib c) (.group E) e.op
        ((s :: (inner ++ [e])).map (Link.queryable lib i idx)) := by
  have hpl : place.Builds lib i idx := Place.builds hp hf
  obtain ⟨pre, hpr, hst, hb⟩ := hpl [] rfl
  obtain ⟨s, inner, e, op, hs, he, hop, hrl, hl⟩ := forms_inner (c := c) hst none (E.forms hc hr)
  obtain ⟨post, hps, -, hls, hsr⟩ := hb e (inner.reverse ++ s :: (pre.reverse ++ [])) he
  have hej : (e.join place.join).IsEnd := he.join _
  refine ⟨pre, s, inner, e.join place.join, post, ?_, ?_, ?_, hls, hsr, ?_⟩
  · rw [hpr.buildChain]
    simp
  · rw [tokens_plug]
    have ha : Leads (place.before ++ groupTokens E.phrase.tokens ++ place.behind) []
        ((pre ++ s :: (inner ++ e.join place.join :: post)).reverse) := by
      have h := (hpr.append (by simpa [joinTokens] using hl)).append hps
      simpa using h
    rw [ha.buildChain]
    simp
  · cases place.join with
    | none => exact hop
    | some j => rfl
  · rw [map_cons, map_append]
    exact .group hs.kind hej.kind hrl

def afterAnd : Place := .after (.operand none (unitTerm none 'b').ask.operand (some .and) .nil) (.here none .nil)

def bothTerms : Formula Atomic := .ofChain (unitTerm none 'a') [(.and, unitTerm none 'b')]

def eitherTerm : Formula Atomic := .ofChain (unitTerm none 'a') [(.or, unitTerm none 'b')]

end

end Goiardi.Search
