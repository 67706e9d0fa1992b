import Goiardi.Search.Groups

/-! Negated compound operands. A negation is read by the next link only: it flips a term, changes the test of a range,
is lost on a field group and on the term for every document, and before a sub-query it flips the first term alone. -/

namespace Goiardi.Search

open List Except Finset Formula Atomic

namespace Formula

variable {α : Type} {val : α → Finset Text} {f e : Formula α} {j : Joiner} {D D' N A : Finset Text} {k : Text}

def first : Formula α → Option α
  | atom a => some a
  | atomThen a _ _ => some a
  | _ => none

def tail : Formula α → Option (Joiner × Formula α)
  | atomThen _ j rest => some (j, rest)
  | groupThen _ j rest => some (j, rest)
  | _ => none

variable (val)

def gatherTail (t : Option (Joiner × Formula α)) (D : Finset Text) : Finset Text :=
  t.elim D fun jr => jr.2.gather val jr.1.op D

def PassiveAtom (k : Text) (a : α) : Joiner → Prop
  | .and => k ∈ val a
  | .or => k ∉ val a

def PassiveGroup (k : Text) (e : Formula α) : Joiner → Prop
  | .and => k ∈ e.alone val ∧ k ∉ e.gather val .binAnd ∅
  | .or => k ∉ e.alone val

def Passive (k : Text) : Joiner → Formula α → Prop
  | j, atom a => PassiveAtom val k a j
  | j, group e => PassiveGroup val k e j
  | j, atomThen a j' rest => PassiveAtom val k a j ∧ rest.Passive k j'
  | j, groupThen e j' rest => PassiveGroup val k e j ∧ rest.Passive k j'

def PassiveTail (k : Text) (t : Option (Joiner × Formula α)) : Prop := ∀ jr ∈ t, jr.2.Passive val k jr.1

variable {val}

lemma passiveAtom_iff {a : α} :
    PassiveAtom val k a j ↔ k ∉ take j.op ∅ (val a) ∧ k ∈ take j.op {k} (val a) := by
  cases j <;> simp [PassiveAtom, Joiner.op]

lemma passiveGroup_iff :
    PassiveGroup val k e j ↔ k ∉ (group e).gather val j.op ∅ ∧ k ∈ (group e).gather val j.op {k} := by
  cases j with
  | and =>
    rw [Joiner.op, gather_group_and, gather_group_and, mem_gather_and_of_mem (mem_singleton_self k)]
    exact and_comm
  | or => simp [PassiveGroup, Joiner.op, gather_group_or]

lemma passive_then_iff {p : Prop} (hp : p ↔ k ∉ D ∧ k ∈ D') (h : k ∈ D → k ∈ D')
    (hf : f.Passive val k j ↔ k ∉ f.gather val j.op ∅ ∧ k ∈ f.gather val j.op {k}) :
    p ∧ f.Passive val k j ↔ k ∉ f.gather val j.op D ∧ k ∈ f.gather val j.op D' := by
  by_cases hs : k ∈ D ↔ k ∈ D'
  · rw [mem_gather_congr hs, hp, hs]
    simp
  · have hD : k ∉ D := fun hk => hs (iff_of_true hk (h hk))
    have hD' : k ∈ D' := by_contra fun hk => hs (iff_of_false hD hk)
    rw [mem_gather_congr (iff_of_false hD (notMem_empty k)), mem_gather_congr (iff_of_true hD' (mem_singleton_self k)), hf,
      hp]
    exact and_iff_right ⟨hD, hD'⟩

-- membership of one document is a monotone function of its membership before: the identity, or a constant
lemma passive_iff : f.Passive val k j ↔ k ∉ f.gather val j.op ∅ ∧ k ∈ f.gather val j.op {k} := by
  have h : k ∈ (∅ : Finset Text) → k ∈ ({k} : Finset Text) := by simp
  induction f generalizing j with
  | atom a => exact passiveAtom_iff
  | group e => exact passiveGroup_iff
  | atomThen a j' rest ih => exact passive_then_iff passiveAtom_iff (mem_take_mono h) ih
  | groupThen e j' rest _ ih => exact passive_then_iff passiveGroup_iff (mem_gather_mono (f := group e) h) ih

lemma mem_gather_of_passive (h : f.Passive val k j) : k ∈ f.gather val j.op D ↔ k ∈ D := by
  obtain ⟨hn, hs⟩ := passive_iff.mp h
  by_cases hD : k ∈ D
  · rw [mem_gather_congr (iff_of_true hD (mem_singleton_self k))]
    exact iff_of_true hs hD
  · rw [mem_gather_congr (iff_of_false hD (notMem_empty k))]
    exact iff_of_false hn hD

lemma mem_gather_of_not_passive (h : ¬ f.Passive val k j) :
    k ∈ f.gather val j.op D ↔ k ∈ f.gather val j.op ∅ := by
  refine ⟨fun hk => ?_, mem_gather_mono (by simp)⟩
  by_contra hn
  exact h (passive_iff.mpr ⟨hn, mem_gather_mono (by simp) hk⟩)

lemma gatherTail_flips_iff {t : Option (Joiner × Formula α)} :
    (k ∈ gatherTail val t N ↔ k ∉ gatherTail val t A) ↔ PassiveTail val k t ∧ (k ∈ N ↔ k ∉ A) := by
  cases t with
  | none => simp [gatherTail, PassiveTail]
  | some jr =>
    obtain ⟨j, rest⟩ := jr
    have ht : PassiveTail val k (some (j, rest)) ↔ rest.Passive val k j := by simp [PassiveTail]
    rw [ht]
    simp only [gatherTail, Option.elim_some]
    by_cases hp : rest.Passive val k j
    · rw [mem_gather_of_passive hp, mem_gather_of_passive hp]
      simp [hp]
    · rw [mem_gather_of_not_passive hp, mem_gather_of_not_passive (D := A) hp]
      simp [hp]

lemma first_mem_atoms {a : α} (h : f.first = some a) : a ∈ f.atoms := by
  cases f <;> cases h <;> exact .head _

lemma gather_of_first {a : α} {op : Op} (h : f.first = some a) :
    f.gather val op D = gatherTail val f.tail (take op D (val a)) := by
  cases f <;> cases h <;> rfl

end Formula

inductive Compound
  | everything
  | range (inclusive : Bool) (field start stop : Word)
  | fieldGroup (field : Word) (inner : Phrase)
  | subQuery (e : Formula Atomic)
deriving DecidableEq

def Ask.everything : Ask := .term ⟨['*'], by simp⟩ ⟨['*'], by simp⟩

namespace Compound

def phrase : Compound → Phrase
  | everything => .operand none Ask.everything.operand none .nil
  | range inclusive field start stop => .operand none (.range inclusive field start stop) none .nil
  | fieldGroup field inner => .fieldGroup none field inner none .nil
  | subQuery e => .group e.phrase none .nil

/-- The operand after a negation. Only `NOT` stands before a sub-query. -/
def negated (n : Negation) : Compound → Phrase
  | everything => .operand (some n) Ask.everything.operand none .nil
  | range inclusive field start stop => .operand (some n) (.range inclusive field start stop) none .nil
  | fieldGroup field inner => .fieldGroup (some n) field inner none .nil
  | subQuery e => .notGroup e.phrase .nil

end Compound

section

variable {lib : Library} {i : FileIndex} {idx : Text} {c : IdxCollection} {z : Token}

def Frame.Fresh (f : Frame) : Prop := f.curOp = .binAnd ∨ f.curOp = .notAnOp ∧ f.docs = ∅

def Yields (lib : Library) (i : FileIndex) (idx : Text) (c : IdxCollection) (z : Token) (ts : Tokens)
    (g : Op → Finset Text → Finset Text) : Prop :=
  ∃ (ls : List Link) (op : Op), Leads ts z (ls.reverse ++ z) ∧ Token.settled (ls.reverse ++ z) = true ∧
    Nested (ls.map (Link.queryable lib i idx)) ∧ ls ≠ [] ∧
    ∀ f : Frame, f.docs ⊆ c.allDocs → f.Fresh → ∀ fs,
      walk (ls.map (Link.queryable lib i idx)) f fs = .ok (⟨op, g f.curOp f.docs⟩, fs)

variable {ts : Tokens} {g : Op → Finset Text → Finset Text} {f : Frame} {ask : Ask} {field : Word} {inner : Phrase}
  {S : Finset Text} {e : Formula Atomic}

lemma Forms.yields {f : Formula Atomic} (h : Forms lib i idx c f ts z) :
    Yields lib i idx c z ts (f.gather fun a => a.docs lib c) := by
  obtain ⟨ls, op, hl, hs, hr⟩ := h
  exact ⟨ls, op, hl, hs, hr.nested, by simpa using hr.ne_nil, fun f hf _ fs => hr.walk f hf fs⟩

lemma Yields.runQuery (h : Yields lib i idx c [] ts g) : runQuery lib i idx ts = .ok (g .notAnOp ∅) := by
  obtain ⟨ls, op, hl, -, hn, -, hw⟩ := h
  have hb : buildChain ts = .ok ls := by
    rw [hl.buildChain]
    simp
  rw [runQuery_of_nested hb hn, lastFrame, hw ⟨.notAnOp, ∅⟩ (empty_subset _) (.inr ⟨rfl, rfl⟩)]
  rfl

lemma Yields.runQuery_and {x : Atomic}
    (hc : i.idxmap.lookup idx = some c) (hp : x.Proper) (ht : Total (x.examine lib) c.docs)
    (h : ∀ z : Token, z.settled = true → Calm z → Yields lib i idx c z ts g) :
    Search.runQuery lib i idx (x.tokens (some .and) ++ ts) = .ok (g .binAnd (x.docs lib c)) := by
  let l := (x.ask.link (notLinks x.neg [])).join (some .and)
  have hx : Leads (x.tokens (some .and)) [] (l :: notLinks x.neg []) := by
    simpa using leads (z := []) rfl x (some .and)
  have hf : (l.queryable lib i idx).Finds c.allDocs (x.docs lib c) := by
    simpa using finds (z := []) hc hp ht (fun _ => by simp [Calm]) (some .and)
  have hsx : Token.settled (l :: notLinks x.neg []) = true := (Link.join_leaf (x.ask.link_leaf _) _).settled _
  obtain ⟨ls, op, hl, -, hn, -, hw⟩ := h _ hsx (calm_cons rfl _)
  have hb : buildChain (x.tokens (some .and) ++ ts) = .ok (notLinks x.neg [] ++ l :: ls) := by
    rw [(hx.append hl).buildChain]
    simp [notLinks_reverse]
  have hns : Nested ((notLinks x.neg [] ++ l :: ls).map (Link.queryable lib i idx)) := by
    rw [List.map_append, List.map_cons]
    exact nested_nots notLinks_kind (.leaf hf.not_marker hn)
  have htk : take .notAnOp ∅ (x.docs lib c) = x.docs lib c := take_empty (by simp)
  rw [runQuery_of_nested hb hns, lastFrame, List.map_append, List.map_cons, walk_nots notLinks_kind,
    walk_finds hf _ (Finset.empty_subset _), htk]
  have hwl : walk (ls.map (Link.queryable lib i idx)) ⟨(l.queryable lib i idx).op, x.docs lib c⟩ [] =
      .ok (⟨op, g .binAnd (x.docs lib c)⟩, []) := hw ⟨.binAnd, x.docs lib c⟩ hf.1 (.inl rfl) []
  rw [hwl]
  rfl

def lostDocs (c : IdxCollection) (op : Op) : Finset Text := if op = .binAnd then ∅ else c.allDocs

lemma walk_lost (hc : i.idxmap.lookup idx = some c) {l : Link} {field : Text} {term : QueryTerm} {complete : Bool}
    (hb : l.body = .query (.basic field term complete)) (hn : l.notop = true) (hf : field ≠ [])
    (he : makeSearchTerm field term.term = everything) (hfr : f.Fresh) (qs : List Queryable) (fs : List Frame) :
    walk (l.queryable lib i idx :: qs) f fs = walk qs ⟨l.op, lostDocs c f.curOp⟩ fs := by
  have hk : (l.queryable lib i idx).kind = .query (.ok c.allDocs) fun _ => .ok ∅ := by
    rw [Link.queryable, hb]
    simp only [Query.searchIndex, Query.searchResults, if_neg hf, he, search_everything hc, searchResults_everything,
      hn, if_true]
  rw [walk_query hk]
  rcases hfr with h | ⟨h, hd⟩
  · simp only [searched, h, if_true, ok_bind, Frame.absorb, merge_and, lostDocs]
    rfl
  · simp only [searched, h, hd, Frame.absorb, merge_empty, lostDocs, reduceCtorEq, if_false, ok_bind]
    rfl

lemma Yields.of_leaf (neg : Option Negation) {l : Link} (hl : Leads ts z (l :: (notLinks neg z ++ z))) (hlf : l.Leaf)
    (hw : ∀ f : Frame, f.docs ⊆ c.allDocs → f.Fresh → ∀ fs,
      walk [l.queryable lib i idx] f fs = .ok (⟨l.op, g f.curOp f.docs⟩, fs)) : Yields lib i idx c z ts g := by
  refine ⟨notLinks neg z ++ [l], l.op, ?_, ?_, ?_, by simp, ?_⟩
  · simpa [notLinks_reverse] using hl
  · simpa [notLinks_reverse] using hlf.settled (notLinks neg z ++ z)
  · rw [map_append]
    exact nested_nots notLinks_kind (.leaf hlf.not_marker .nil)
  · intro f hd hf fs
    rw [map_append, walk_nots notLinks_kind]
    exact hw f hd hf fs

lemma yields_everything (hc : i.idxmap.lookup idx = some c) (n : Negation) (hz : z.settled = true) :
    Yields lib i idx c z (Compound.everything.negated n).tokens fun op _ => lostDocs c op := by
  refine .of_leaf (some n) (leads hz ⟨some n, Ask.everything⟩ none) (Ask.everything.link_leaf _) fun f _ hf fs => ?_
  rw [walk_lost hc rfl (by cases n <;> rfl) (by simp) rfl hf]
  rfl

lemma total_negated {neg neg' : Option Negation} (h : Total (examine lib ⟨neg, ask⟩) c.docs) :
    Total (examine lib ⟨neg', ask⟩) c.docs := by
  cases ask with
  | term f t => exact h
  | range inclusive f start stop =>
    intro kv hkv
    obtain ⟨m, hm⟩ := h kv hkv
    simp only [examine, IdxDoc.rangeSearch] at hm ⊢
    split at hm
    · cases hm
    · next hw =>
      obtain ⟨trie, ht, -⟩ := bind_ok hm
      rw [if_neg hw, ht, ok_bind]
      split <;> exact ⟨_, rfl⟩

lemma fieldGroup_query (hf : inner.flat = true)
    (hS : runQuery lib i idx (Compound.fieldGroup field inner).phrase.tokens = .ok S) :
    ∃ (g : Text) (terms : List QueryTerm), (∀ t ∈ terms, t.mod.negates = false) ∧
      (∀ z : Token, z.settled = true → ∃ op, Leads (fieldGroupTokens field inner.tokens) z
        (⟨.query (.grouped g terms true), op, z.head?.map Link.op⟩ :: z)) ∧
      ∀ notop, (Query.grouped g terms true).searchIndex lib i idx notop = .ok S := by
  obtain ⟨g, terms, hm, hld⟩ := leads_fieldGroup hf field
  obtain ⟨op, hl⟩ := hld [] rfl
  refine ⟨g, terms, hm, hld, fun notop => ?_⟩
  have hb : buildChain (Compound.fieldGroup field inner).phrase.tokens =
      .ok [⟨.query (.grouped g terms true), op, none⟩] := by
    have hl' : Leads (Compound.fieldGroup field inner).phrase.tokens [] [⟨.query (.grouped g terms true), op, none⟩] := by
      simpa [Compound.phrase, Phrase.tokens, negTokens, joinTokens] using hl
    rw [hl'.buildChain]
    rfl
  rw [runQuery_eq hb, List.map_singleton, execute_query rfl] at hS
  obtain ⟨⟨docs, walked⟩, hS, hd⟩ := bind_ok hS
  obtain ⟨r, hr, hS⟩ := bind_ok hS
  cases hS
  cases hd
  exact hr

lemma yields_fieldGroup (hc : i.idxmap.lookup idx = some c) (hf : inner.flat = true) (hS : runQuery lib i idx (Compound.fieldGroup field inner).phrase.tokens = .ok S)
    (neg : Option Negation) (hz : z.settled = true) :
    Yields lib i idx c z (Phrase.fieldGroup neg field inner none .nil).tokens fun op D => take op D S := by
  obtain ⟨g, terms, hm, hld, hi⟩ := fieldGroup_query hf hS
  let q : Query := .grouped g terms true
  have ha : ∀ notop D, q.Agrees lib i idx c notop D := by
    rintro notop D ⟨v, hv, hls, -⟩
    rw [hm v ((takeWhile_sublist _).subset hv)] at hls
    cases hls
  obtain ⟨op, hl⟩ := hld _ (settled_notLinks hz neg)
  let l : Link := ⟨.query q, op, (notLinks neg z ++ z).head?.map Link.op⟩
  have hfn : (l.queryable lib i idx).Finds c.allDocs S := by
    refine finds_of_query rfl (hi _) (Query.searchIndex_subset hc (hi false)) fun d hd => ?_
    rw [(grouped_agrees_iff hc hd (hi _)).mpr (ha _ d), inter_comm]
  have hlf : l.Leaf := by simp [Link.Leaf, l, q]
  refine .of_leaf neg (l := l) ?_ hlf fun f hd _ fs => ?_
  · simpa [Phrase.tokens, joinTokens, l] using (leads_neg neg z).append hl
  · rw [walk_finds hfn f hd]
    rfl

def Ask.isEverything : Ask → Bool
  | .term field t => makeSearchTerm field t = Search.everything
  | .range .. => false

def flippedDocs (lib : Library) (c : IdxCollection) (ask : Ask) (op : Op) (D : Finset Text) : Finset Text :=
  if ask.isEverything then lostDocs c op else take op D (Atomic.docs lib ⟨some .not, ask⟩ c)

lemma flippedDocs_subset {op : Op} {D : Finset Text} (hD : D ⊆ c.allDocs) : flippedDocs lib c ask op D ⊆ c.allDocs := by
  rw [flippedDocs, lostDocs]
  split
  · split
    · exact empty_subset _
    · exact subset_rfl
  · exact take_subset hD found_subset

lemma walk_flipped (hc : i.idxmap.lookup idx = some c) (ht : Total (examine lib ⟨none, ask⟩) c.docs)
    (z : Token) (join : Option Joiner) (hf : f.docs ⊆ c.allDocs) (hfr : f.Fresh) (qs : List Queryable)
    (fs : List Frame) : walk (((ask.link (notLinks (some .not) z ++ z)).join join).queryable lib i idx :: qs) f fs =
      walk qs ⟨((ask.link (notLinks (some .not) z ++ z)).join join).op, flippedDocs lib c ask f.curOp f.docs⟩ fs := by
  by_cases he : ask.isEverything = true
  · rw [flippedDocs, if_pos he]
    cases ask with
    | term field t =>
      have ht : makeSearchTerm field t = Search.everything := by simpa [Ask.isEverything] using he
      exact walk_lost hc (by cases join <;> rfl) (by cases join <;> rfl) field.2 ht hfr qs fs
    | range => cases he
  · rw [flippedDocs, if_neg he]
    have hp : Atomic.Proper ⟨some .not, ask⟩ := by
      cases ask with
      | term field t => exact fun h => absurd (by simpa [Ask.isEverything] using h) he
      | range => trivial
    exact walk_finds (finds hc hp (total_negated ht) (by simp) join) f hf fs

lemma yields_flipped (hc : i.idxmap.lookup idx = some c) (hr : e.Ready lib c)
    (he : e.first = some ⟨none, ask⟩) (z : Token) : Yields lib i idx c (notLinks (some .not) z ++ z) e.phrase.tokens
      fun op D => gatherTail (fun a => a.docs lib c) e.tail (flippedDocs lib c ask op D) := by
  let z' : Token := notLinks (some .not) z ++ z
  have hz' : z'.settled = true := rfl
  have hld : ∀ join, Leads (Atomic.tokens ⟨none, ask⟩ join) z' ((ask.link z').join join :: z') := fun join =>
    leads hz' ⟨none, ask⟩ join
  have hlf : ∀ join, ((ask.link z').join join).Leaf := fun join => Link.join_leaf (ask.link_leaf z') join
  cases e with
  | group | groupThen => cases he
  | atom a =>
    cases he
    have ht := (hr _ (.head _)).2
    refine .of_leaf (z := z') none ?_ (hlf none) fun f hd hf fs => walk_flipped hc ht z none hd hf [] fs
    simpa [phrase, Phrase.tokens, Atomic.tokens, notLinks] using hld none
  | atomThen a j rest =>
    cases he
    have ht := (hr _ (.head _)).2
    let l := (ask.link z').join (some j)
    obtain ⟨ls, op, hl, hs, hrl⟩ := forms hc (fun b hb => hr b (.tail _ hb)) (l :: z')
      ((hlf _).settled z') (calm_cons j.op_negates z')
    refine ⟨l :: ls, op, ?_, by simpa using hs, .leaf (hlf _).not_marker hrl.nested, by simp, ?_⟩
    · simpa [phrase, Phrase.tokens, Atomic.tokens] using (hld (some j)).append hl
    · intro f hd hf fs
      rw [List.map_cons, walk_flipped hc ht z (some j) hd hf]
      have hsb : flippedDocs lib c ask f.curOp f.docs ⊆ c.allDocs := flippedDocs_subset hd
      exact hrl.walk ⟨j.op, _⟩ hsb fs

lemma yields_unflipped (hc : i.idxmap.lookup idx = some c) (hr : e.Ready lib c)
    (he : ∀ a, e.first = some a → a.neg ≠ none) (hz : z.settled = true) :
    Yields lib i idx c z e.phrase.tokens (e.gather fun a => a.docs lib c) := by
  refine Forms.yields ?_
  cases e with
  | atom a =>
    obtain ⟨hp, ht⟩ := hr a (.head _)
    simpa [phrase, Phrase.tokens, Atomic.tokens] using forms_atom hc hp ht hz fun h => absurd h (he a rfl)
  | group e =>
    simpa [phrase, Phrase.tokens, joinTokens] using
      forms_group hz fun z hz hcl => forms hc (f := e) hr z hz hcl
  | atomThen a j rest =>
    obtain ⟨hp, ht⟩ := hr a (.head _)
    exact forms_atomThen hc hp ht hz (fun h => absurd h (he a rfl))
      fun z hz hcl => forms hc (fun b hb => hr b (.tail _ hb)) z hz hcl
  | groupThen e j rest =>
    exact forms_groupThen hz
      (fun z hz hcl => forms hc (fun b hb => hr b (mem_append_left _ hb)) z hz hcl)
      (fun z hz hcl => forms hc (fun b hb => hr b (mem_append_right _ hb)) z hz hcl)

lemma Frame.Fresh.enter_eq (h : f.Fresh) : f.enter = f := by
  obtain ⟨op, D⟩ := f
  rcases h with h | ⟨h, hd⟩
  · have hop : op = .binAnd := h
    simp [Frame.enter, hop]
  · have hD : D = ∅ := hd
    simp [Frame.enter, hD]

lemma Frame.Fresh.merge_eq (h : f.Fresh) (r : Finset Text) : merge f.curOp f.docs r = r := by
  rcases h with h | ⟨-, hd⟩
  · rw [h, merge_and]
  · rw [hd, merge_empty]

lemma yields_notGroup (hz : z.settled = true) (h : ∀ z : Token, Yields lib i idx c (notLinks (some .not) z ++ z) ts g) :
    Yields lib i idx c z (groupTokens (.action (.setNotQuery .unaryNot) :: ts)) g := by
  let s : Link := ⟨.subQuery true, .notAnOp, z.head?.map Link.op⟩
  have hs : s.IsStart := rfl
  obtain ⟨xs, op, hl, hst, hn, hne, hw⟩ := h (s :: z)
  obtain ⟨e, he, -, hle⟩ := leads_end hst none
  have hnt : Nested ((notLinks (some .not) (s :: z) ++ xs).map (Link.queryable lib i idx)) := by
    rw [map_append]
    exact nested_nots notLinks_kind hn
  have ho : (s.queryable lib i idx).kind = .subQuery true := hs.kind
  have hcl : (e.queryable lib i idx).kind = .subQuery false := he.kind
  refine ⟨s :: (notLinks (some .not) (s :: z) ++ xs ++ [e]), e.op, ?_, ?_, ?_, by simp, ?_⟩
  · have ha := (((leads_start hz).append (leads_neg (some .not) (s :: z))).append hl).append hle
    simpa [groupTokens, negTokens, joinTokens, notLinks_reverse, Negation.op] using ha
  · simpa using Link.settled_marker he _
  · have hg := Nested.group ho hcl (by simp [hne]) hnt .nil
    simpa using hg
  · intro f hd hf fs
    rw [List.map_cons, List.map_append, List.map_append, List.append_assoc, walk_start ho, hf.enter_eq,
      walk_nots notLinks_kind, walk_append, hw f hd hf, ok_bind, List.map_singleton, walk_end hcl,
      Frame.absorb, hf.merge_eq]
    rfl

end

section

variable {lib : Library} {i : FileIndex} {idx : Text} {c : IdxCollection} {N S X : Finset Text} {n : Negation}

def Ask.Flips (n : Negation) (doc : IdxDoc) : Ask → Prop
  | .term .. => True
  | .range inclusive field start stop => n = .not ∧
    (doc.rangeSearch field start stop inclusive true = .ok true ↔
      doc.rangeSearch field start stop inclusive false = .ok false)

def Compound.Complements (lib : Library) (c : IdxCollection) (n : Negation) : Compound → Prop
  | everything => c.docs = []
  | range inclusive field start stop => ∀ kv ∈ c.docs, (Ask.range inclusive field start stop).Flips n kv.2
  | fieldGroup _ _ => c.docs = []
  | subQuery e =>
    match e.first with
    | some ⟨none, ask⟩ => (ask.isEverything = true → c.docs = []) ∧ ∀ kv ∈ c.docs,
        ask.Flips .not kv.2 ∧ Formula.PassiveTail (fun a => a.docs lib c) kv.1 e.tail
    | _ => c.docs = []

/-- When a negated operand after `AND` takes the operand's documents away from those gathered before it. -/
def Compound.ComplementsIn (lib : Library) (c : IdxCollection) (n : Negation) (X : Finset Text) : Compound → Prop
  | everything => True
  | range inclusive field start stop => ∀ kv ∈ c.within X, (Ask.range inclusive field start stop).Flips n kv.2
  | fieldGroup _ _ => X = ∅
  | subQuery e =>
    match e.first with
    | some ⟨none, ask⟩ => (∀ kv ∈ c.within X,
        ask.Flips .not kv.2 ∧ Formula.PassiveTail (fun a => a.docs lib c) kv.1 e.tail) ∧
        ∀ k ∈ c.allDocs \ X, k ∉ Formula.gatherTail (fun a => a.docs lib c) e.tail ∅
    | _ => X = ∅ ∧ e.gather (fun a => a.docs lib c) .binAnd ∅ = ∅

variable {kv : Text × IdxDoc} {ask : Ask} {α : Type} {val : α → Finset Text} {f : Formula α} {k : Text}
  {e : Formula Atomic}

lemma mem_found_of_mem {examine : IdxDoc → Except Fault Bool} {notop : Bool} (h : kv ∈ c.docs) :
    kv.1 ∈ found examine notop c.docs ↔ examine kv.2 = .ok (!notop) := by
  rw [mem_found]
  constructor
  · rintro ⟨v, hv, hx⟩
    have he : v = kv.2 := congrArg Prod.snd (inj_on_of_nodup_map c.nodup hv h rfl)
    rwa [he] at hx
  · exact fun hx => ⟨kv.2, h, hx⟩

lemma ok_false_iff {x : Except Fault Bool} (h : ∃ m, x = .ok m) : x = .ok false ↔ ¬ x = .ok true := by
  obtain ⟨m, rfl⟩ := h
  cases m <;> simp

lemma flips_iff (ht : Total (examine lib ⟨none, ask⟩) c.docs) (hkv : kv ∈ c.docs) :
    (kv.1 ∈ docs lib ⟨some n, ask⟩ c ↔ kv.1 ∉ docs lib ⟨none, ask⟩ c) ↔ ask.Flips n kv.2 := by
  have hok := ok_false_iff (ht kv hkv)
  rw [docs, docs, mem_found_of_mem hkv, mem_found_of_mem hkv]
  cases ask with
  | term field t => exact iff_of_true hok trivial
  | range inclusive field start stop =>
    cases n with
    | not =>
      have hn := hok
      simp only [examine, reduceCtorEq, decide_false] at hn
      simp [examine, notop, Ask.Flips, hn]
    | prohibited => simp [examine, notop, Ask.Flips]

lemma eq_sdiff_iff (hX : X ⊆ c.allDocs) (hN : N ⊆ c.allDocs) :
    N = X \ S ↔ (∀ kv ∈ c.within X, (kv.1 ∈ N ↔ kv.1 ∉ S)) ∧ ∀ k ∈ c.allDocs \ X, k ∉ N := by
  constructor
  · rintro rfl
    refine ⟨fun kv hkv => ?_, fun k hk hN => ?_⟩
    · simp [(IdxCollection.mem_within.mp hkv).2]
    · exact (mem_sdiff.mp hk).2 (mem_sdiff.mp hN).1
  · rintro ⟨hin, ho⟩
    ext k
    rw [mem_sdiff]
    by_cases hk : k ∈ X
    · obtain ⟨v, hv⟩ := IdxCollection.mem_allDocs.mp (hX hk)
      simpa [hk] using hin (k, v) (IdxCollection.mem_within.mpr ⟨hv, hk⟩)
    · refine iff_of_false (fun hkN => ?_) fun h => hk h.1
      exact ho k (mem_sdiff.mpr ⟨hN hkN, hk⟩) hkN

lemma eq_allDocs_sdiff_iff (hN : N ⊆ c.allDocs) : N = c.allDocs \ S ↔ ∀ kv ∈ c.docs, (kv.1 ∈ N ↔ kv.1 ∉ S) := by
  have hw : ∀ kv, kv ∈ c.within c.allDocs ↔ kv ∈ c.docs := fun kv => by
    rw [IdxCollection.mem_within, and_iff_left_of_imp]
    exact fun hkv => IdxCollection.mem_allDocs.mpr ⟨kv.2, hkv⟩
  simp only [eq_sdiff_iff subset_rfl hN, hw, Finset.sdiff_self, notMem_empty, false_imp_iff, implies_true, and_true]

lemma eq_allDocs_sdiff_self_iff (hS : S ⊆ c.allDocs) : S = c.allDocs \ S ↔ c.docs = [] := by
  rw [eq_allDocs_sdiff_iff hS, eq_nil_iff_forall_not_mem]
  exact ⟨fun h kv hkv => iff_not_self (h kv hkv), fun h kv hkv => absurd hkv (h kv)⟩

lemma inter_eq_sdiff_iff : X ∩ S = X \ S ↔ X = ∅ := by
  constructor
  · intro h
    rw [eq_empty_iff_forall_notMem]
    intro k hk
    have hi := Finset.ext_iff.mp h k
    simp only [Finset.mem_inter, Finset.mem_sdiff, hk, true_and] at hi
    exact iff_not_self hi
  · rintro rfl
    simp

lemma Formula.gather_subset {U : Finset Text} (hv : ∀ a, val a ⊆ U)
    {op : Op} {D : Finset Text} (hD : D ⊆ U) : f.gather val op D ⊆ U := by
  have hs : ∀ {op : Op} {D : Finset Text}, D ⊆ U → (if op = .binAnd then D else ∅) ⊆ U := by
    intro op D hD
    split
    · exact hD
    · exact empty_subset U
  induction f generalizing op D with
  | atom a => exact take_subset hD (hv a)
  | group e ih => exact merge_subset hD (ih (hs hD))
  | atomThen a j rest ih => exact ih (take_subset hD (hv a))
  | groupThen e j rest ih ih' => exact ih' (merge_subset hD (ih (hs hD)))

lemma gatherTail_subset (hD : S ⊆ c.allDocs) (t : Option (Joiner × Formula Atomic)) :
    gatherTail (fun a => a.docs lib c) t S ⊆ c.allDocs := by
  cases t with
  | none => exact hD
  | some jr => exact gather_subset (fun _ => found_subset) hD

lemma mem_gatherTail_congr {t : Option (Joiner × Formula α)} {D D' : Finset Text} (h : k ∈ D ↔ k ∈ D') : k ∈ gatherTail val t D ↔ k ∈ gatherTail val t D' := by
  cases t with
  | none => exact h
  | some jr => exact mem_gather_congr h

lemma docs_of_isEverything (h : ask.isEverything = true) : docs lib ⟨none, ask⟩ c = c.allDocs := by
  cases ask with
  | term field t =>
    have ht : makeSearchTerm field t = Search.everything := by simpa [Ask.isEverything] using h
    have he : examine lib ⟨none, .term field t⟩ = fun _ => .ok true := by
      funext doc
      exact if_pos ht
    rw [docs, he]
    exact found_everything
  | range => cases h

lemma flips_of_isEverything (h : ask.isEverything = true) (doc : IdxDoc) : ask.Flips n doc := by
  cases ask with
  | term => trivial
  | range => cases h

lemma flipped_start_iff (ht : Total (examine lib ⟨none, ask⟩) c.docs) :
    (∀ kv ∈ c.docs, (kv.1 ∈ flippedDocs lib c ask .notAnOp ∅ ↔ kv.1 ∉ docs lib ⟨none, ask⟩ c)) ↔
      (ask.isEverything = true → c.docs = []) ∧ ∀ kv ∈ c.docs, ask.Flips .not kv.2 := by
  by_cases he : ask.isEverything = true
  · have ha : flippedDocs lib c ask .notAnOp ∅ = c.allDocs := by simp [flippedDocs, he, lostDocs]
    rw [ha, docs_of_isEverything he, eq_nil_iff_forall_not_mem]
    exact ⟨fun h => ⟨fun _ kv hkv => iff_not_self (h kv hkv), fun kv _ => flips_of_isEverything he kv.2⟩,
      fun h kv hkv => absurd hkv (h.1 he kv)⟩
  · have hd : flippedDocs lib c ask .notAnOp ∅ = docs lib ⟨some .not, ask⟩ c := by
      rw [flippedDocs, if_neg he, take_empty (by simp)]
    rw [hd]
    exact ⟨fun h => ⟨fun h' => absurd h' he, fun kv hkv => (flips_iff ht hkv).mp (h kv hkv)⟩,
      fun h kv hkv => (flips_iff ht hkv).mpr (h.2 kv hkv)⟩

lemma flipped_and_iff (ht : Total (examine lib ⟨none, ask⟩) c.docs) (hkv : kv ∈ c.within X) :
    (kv.1 ∈ flippedDocs lib c ask .binAnd X ↔ kv.1 ∉ docs lib ⟨none, ask⟩ c) ↔ ask.Flips .not kv.2 := by
  obtain ⟨hm, hX⟩ := IdxCollection.mem_within.mp hkv
  rw [← flips_iff ht hm]
  by_cases he : ask.isEverything = true
  · have hU : kv.1 ∈ c.allDocs := IdxCollection.mem_allDocs.mpr ⟨kv.2, hm⟩
    refine iff_of_true ?_ ((flips_iff ht hm).mpr (flips_of_isEverything he kv.2))
    simp [flippedDocs, he, lostDocs, docs_of_isEverything he, hU]
  · rw [flippedDocs, if_neg he, take_and, mem_inter]
    simp [hX]

lemma not_mem_flipped (hk : k ∉ X) : k ∉ flippedDocs lib c ask .binAnd X := by
  rw [flippedDocs, lostDocs]
  split
  · simp
  · simp [hk]

/-- When a compound operand can be searched: a field group holds terms only, and no test of a document fails. -/
def Compound.Ready (lib : Library) (c : IdxCollection) : Compound → Prop
  | everything => True
  | range inclusive field start stop => Total (Atomic.examine lib ⟨none, .range inclusive field start stop⟩) c.docs
  | fieldGroup _ inner => inner.flat = true
  | subQuery e => e.Ready lib c

def Compound.gatherNegated (lib : Library) (c : IdxCollection) (n : Negation) (S : Finset Text) :
    Compound → Op → Finset Text → Finset Text
  | everything => fun op _ => lostDocs c op
  | range inclusive field start stop => fun op D =>
    take op D (Atomic.docs lib ⟨some n, .range inclusive field start stop⟩ c)
  | fieldGroup _ _ => fun op D => take op D S
  | subQuery e =>
    match e.first with
    | some ⟨none, ask⟩ => fun op D =>
      Formula.gatherTail (fun a => a.docs lib c) e.tail (flippedDocs lib c ask op D)
    | _ => e.gather fun a => a.docs lib c

lemma Compound.yields (hc : i.idxmap.lookup idx = some c) {Q : Compound} (hr : Q.Ready lib c)
    (hQ : runQuery lib i idx Q.phrase.tokens = .ok S) (n : Negation) (z : Token) (hz : z.settled = true)
    (hcl : Calm z) : Yields lib i idx c z (Q.negated n).tokens (Q.gatherNegated lib c n S) := by
  cases Q with
  | everything => exact yields_everything hc n hz
  | range inclusive field start stop =>
    have h := forms_atom (a := ⟨some n, .range inclusive field start stop⟩) hc trivial (total_negated hr) hz fun _ => hcl
    simpa [negated, gatherNegated, gather, Phrase.tokens, Atomic.tokens, Ask.operand] using h.yields
  | fieldGroup field inner => exact yields_fieldGroup hc hr hQ (some n) hz
  | subQuery e =>
    have h : Yields lib i idx c z (groupTokens (.action (.setNotQuery .unaryNot) :: e.phrase.tokens))
        ((subQuery e).gatherNegated lib c n S) := by
      refine yields_notGroup hz fun z => ?_
      rw [gatherNegated]
      split
      · next ask he => exact yields_flipped hc hr he z
      · next he =>
        refine yields_unflipped hc hr ?_ rfl
        rintro ⟨_, ask⟩ ha rfl
        exact he ask ha
    simpa [negated, Phrase.tokens] using h

lemma Formula.alone_of_first {a : α} (h : f.first = some a) : f.alone val = gatherTail val f.tail (val a) := by
  rw [alone, gather_of_first h, take_empty (by simp)]

lemma subQuery_complements_iff (hr : e.Ready lib c) (hS : S = e.alone fun a => a.docs lib c) :
    (Compound.subQuery e).gatherNegated lib c n S .notAnOp ∅ = c.allDocs \ S ↔
      (Compound.subQuery e).Complements lib c n := by
  subst hS
  have hs : e.alone (fun a => a.docs lib c) ⊆ c.allDocs :=
    gather_subset (fun _ => found_subset) (empty_subset _)
  have hl : e.gather (fun a => a.docs lib c) .notAnOp ∅ = c.allDocs \ e.alone (fun a => a.docs lib c) ↔
      c.docs = [] := eq_allDocs_sdiff_self_iff hs
  match he : e.first with
  | none => simpa [Compound.gatherNegated, Compound.Complements, he] using hl
  | some ⟨some m, ask⟩ => simpa [Compound.gatherNegated, Compound.Complements, he] using hl
  | some ⟨none, ask⟩ =>
    have ht : Total (examine lib ⟨none, ask⟩) c.docs := (hr _ (first_mem_atoms he)).2
    have hN : gatherTail (fun a => a.docs lib c) e.tail (flippedDocs lib c ask .notAnOp ∅) ⊆ c.allDocs :=
      gatherTail_subset (flippedDocs_subset (empty_subset _)) _
    simp only [Compound.gatherNegated, Compound.Complements, he]
    rw [eq_allDocs_sdiff_iff hN, alone_of_first he]
    simp only [gatherTail_flips_iff, forall_and, flipped_start_iff ht]
    tauto

lemma subQuery_complementsIn_iff (hr : e.Ready lib c) (hX : X ⊆ c.allDocs) (hS : S = e.alone fun a => a.docs lib c) :
    (Compound.subQuery e).gatherNegated lib c n S .binAnd X = X \ S ↔
      (Compound.subQuery e).ComplementsIn lib c n X := by
  subst hS
  have hl : e.gather (fun a => a.docs lib c) .binAnd X = X \ e.alone (fun a => a.docs lib c) ↔
      X = ∅ ∧ e.gather (fun a => a.docs lib c) .binAnd ∅ = ∅ := by
    constructor
    · intro h
      have hem : X = ∅ := by
        rw [eq_empty_iff_forall_notMem]
        intro k hk
        have hi : k ∈ e.gather (fun a => a.docs lib c) .binAnd X ↔ k ∈ e.alone fun a => a.docs lib c :=
          mem_gather_and_of_mem hk
        rw [h, mem_sdiff] at hi
        simp [hk] at hi
      subst hem
      simpa using h
    · rintro ⟨rfl, h⟩
      rw [h, empty_sdiff]
  match he : e.first with
  | none => simpa [Compound.gatherNegated, Compound.ComplementsIn, he] using hl
  | some ⟨some m, ask⟩ => simpa [Compound.gatherNegated, Compound.ComplementsIn, he] using hl
  | some ⟨none, ask⟩ =>
    have ht : Total (examine lib ⟨none, ask⟩) c.docs := (hr _ (first_mem_atoms he)).2
    have hN : gatherTail (fun a => a.docs lib c) e.tail (flippedDocs lib c ask .binAnd X) ⊆ c.allDocs :=
      gatherTail_subset (flippedDocs_subset hX) _
    simp only [Compound.gatherNegated, Compound.ComplementsIn, he]
    rw [eq_sdiff_iff hX hN, alone_of_first he]
    refine and_congr ?_ ?_
    · refine forall₂_congr fun kv hkv => ?_
      rw [gatherTail_flips_iff, flipped_and_iff ht hkv, and_comm]
    · refine forall₂_congr fun k hk => not_congr ?_
      have hkX := (mem_sdiff.mp hk).2
      exact mem_gatherTail_congr (iff_of_false (not_mem_flipped hkX) (by simp))

lemma range_complements_iff {inclusive : Bool} {field start stop : Word}
    (ht : Total (examine lib ⟨none, .range inclusive field start stop⟩) c.docs) (hX : X ⊆ c.allDocs) :
    (docs lib ⟨some n, .range inclusive field start stop⟩ c =
        c.allDocs \ docs lib ⟨none, .range inclusive field start stop⟩ c ↔
      (Compound.range inclusive field start stop).Complements lib c n) ∧
    (X ∩ docs lib ⟨some n, .range inclusive field start stop⟩ c =
        X \ docs lib ⟨none, .range inclusive field start stop⟩ c ↔
      (Compound.range inclusive field start stop).ComplementsIn lib c n X) := by
  constructor
  · have hN : docs lib ⟨some n, .range inclusive field start stop⟩ c ⊆ c.allDocs := found_subset
    rw [eq_allDocs_sdiff_iff hN]
    exact forall₂_congr fun kv hkv => flips_iff ht hkv
  · rw [eq_sdiff_iff hX (inter_subset_left.trans hX)]
    constructor
    · intro h kv hkv
      obtain ⟨hm, hkX⟩ := IdxCollection.mem_within.mp hkv
      rw [← flips_iff ht hm]
      simpa [hkX] using h.1 kv hkv
    · intro h
      refine ⟨fun kv hkv => ?_, fun k hk hkN => (mem_sdiff.mp hk).2 (mem_inter.mp hkN).1⟩
      obtain ⟨hm, hkX⟩ := IdxCollection.mem_within.mp hkv
      simpa [hkX] using (flips_iff ht hm).mpr (h kv hkv)

lemma docs_of_runQuery {x : Atomic} (hc : i.idxmap.lookup idx = some c) (hp : x.Proper)
    (ht : Total (x.examine lib) c.docs) (h : runQuery lib i idx (atom x).phrase.tokens = .ok S) : S = x.docs lib c := by
  have hr : (atom x).Ready lib c := fun a ha => List.mem_singleton.mp ha ▸ ⟨hp, ht⟩
  rw [Formula.runQuery_eq hc hr, Formula.alone_atom] at h
  exact (ok.inj h).symm

def aOrC : Compound := .subQuery (.ofChain (unitTerm none 'a') [(.or, unitTerm none 'c')])

end

end Goiardi.Search
