import Goiardi.Search.Formula

/-! Terms and ranges as operands of formulas, and the chains that formulas of them build. -/

namespace Goiardi.Search

open List Formula Link

section

variable {examine : IdxDoc → Except Fault Bool} {notop : Bool} {docs : List (Text × IdxDoc)}

lemma total_of_isOk (h : ∀ kv ∈ docs, (examine kv.2).isOk = true) : Total examine docs := by
  intro kv hkv
  have hok := h kv hkv
  cases hx : examine kv.2 with
  | error f => simp [hx, Except.isOk, Except.toBool] at hok
  | ok m => exact ⟨m, rfl⟩

def keeps (notop : Bool) : Except Fault Bool → Bool
  | .ok m => m != notop
  | .error _ => false

def found (examine : IdxDoc → Except Fault Bool) (notop : Bool) (docs : List (Text × IdxDoc)) : Finset Text :=
  ((docs.filter fun kv => keeps notop (examine kv.2)).map Prod.fst).toFinset

lemma keeps_iff {x : Except Fault Bool} : keeps notop x = true ↔ x = .ok (!notop) := by
  cases x with
  | error f => simp [keeps]
  | ok m => cases m <;> cases notop <;> simp [keeps]

lemma mem_found {k : Text} : k ∈ found examine notop docs ↔ ∃ v, (k, v) ∈ docs ∧ examine v = .ok (!notop) := by
  simp [found, keeps_iff]

lemma collect_eq_found (h : Total examine docs) : collect examine notop docs = .ok (found examine notop docs) := by
  obtain ⟨S, hS⟩ : ∃ S, collect examine notop docs = .ok S := collect_of_total h
  have he : S = found examine notop docs := by
    ext k
    rw [mem_collect hS, mem_found]
  rw [hS, he]

lemma found_subset {c : IdxCollection} : found examine notop c.docs ⊆ c.allDocs := by
  intro k hk
  obtain ⟨v, hv, -⟩ := mem_found.mp hk
  exact IdxCollection.mem_allDocs.mpr ⟨v, hv⟩

end

inductive Ask
  | term (field t : Word)
  | range (inclusive : Bool) (field start stop : Word)
deriving DecidableEq

structure Atomic where
  neg : Option Negation
  ask : Ask
deriving DecidableEq

def Ask.operand : Ask → Operand
  | term field t => .basic field (.term t)
  | range inclusive field start stop => .range inclusive field start stop

namespace Atomic

variable (lib : Library) (a : Atomic)

/-- The test that the code makes of a document: none for the term that stands for every document, and one of its own
for a range after `NOT` or `!`. -/
def examine (doc : IdxDoc) : Except Fault Bool :=
  match a.ask with
  | .term field t =>
    if makeSearchTerm field t = everything then .ok true
    else doc.examine lib (unescape (makeSearchTerm field t))
  | .range inclusive field start stop => doc.rangeSearch field start stop inclusive (a.neg = some .not)

def notop : Bool :=
  match a.ask with
  | .term _ _ => a.neg.isSome
  | .range .. => false

def docs (c : IdxCollection) : Finset Text := found (a.examine lib) a.notop c.docs

def Proper : Prop :=
  match a.ask with
  | .term field t => makeSearchTerm field t = everything → a.neg = none
  | .range .. => True

def tokens (join : Option Joiner) : Tokens := negTokens a.neg ++ a.ask.operand.tokens ++ joinTokens join

end Atomic

section

def Calm (z : Token) : Prop := ∀ l ∈ z.head?, l.op.negates = false

def notLinks (neg : Option Negation) (z : Token) : List Link :=
  neg.toList.map fun n => ⟨.notQuery, n.op, z.head?.map Link.op⟩

def Ask.link (ask : Ask) (z : Token) : Link :=
  match ask with
  | .term field t => basicLink field t z
  | .range inclusive field start stop => rangeLink inclusive field start stop z

def Link.join (join : Option Joiner) (l : Link) : Link := join.elim l fun j => l.addOp j.op

variable {lib : Library} {i : FileIndex} {idx : Text} {c : IdxCollection} {a : Atomic} {z : Token}

lemma Ask.link_leaf (ask : Ask) (z : Token) : (ask.link z).Leaf := by
  cases ask with
  | term f t => exact basicLink_leaf f t z
  | range inclusive f start stop => exact ⟨start.2, stop.2⟩

lemma leads_join (l : Link) (join : Option Joiner) (z : Token) :
    Leads (joinTokens join) (l :: z) (l.join join :: z) := by
  cases join with
  | none => exact .nil
  | some j => exact leads_action fun _ => rfl

lemma leads_neg (neg : Option Negation) (z : Token) : Leads (negTokens neg) z (notLinks neg z ++ z) := by
  cases neg with
  | none => exact .nil
  | some n => exact leads_action fun _ => rfl

lemma settled_notLinks (hz : z.settled = true) (neg : Option Negation) :
    Token.settled (notLinks neg z ++ z) = true := by
  cases neg with
  | none => exact hz
  | some n => rfl

lemma Atomic.leads (hz : z.settled = true) (a : Atomic) (join : Option Joiner) :
    Leads (a.tokens join) z ((a.ask.link (notLinks a.neg z ++ z)).join join :: (notLinks a.neg z ++ z)) := by
  have hn := leads_neg a.neg z
  have ha : Leads a.ask.operand.tokens (notLinks a.neg z ++ z)
      (a.ask.link (notLinks a.neg z ++ z) :: (notLinks a.neg z ++ z)) := by
    have hs := settled_notLinks hz a.neg
    cases a.ask with
    | term f t => simpa [Ask.operand, Ask.link, Operand.tokens, Value.tokens, Value.words] using leads_basic hs f t
    | range inclusive f start stop => exact leads_range _ inclusive f start stop
  exact (hn.append ha).append (leads_join _ _ _)

variable {term : Text} {q : Queryable} {searchIndex : Except Fault (Finset Text)}
  {searchResults : Finset Text → Except Fault (Finset Text)}

lemma search_eq (hc : i.idxmap.lookup idx = some c) (ht : term ≠ everything) (notop : Bool) :
    i.search lib idx term notop = collect (fun doc => doc.examine lib (unescape term)) notop c.docs := by
  simp only [FileIndex.search, FileIndex.collection, hc, ok_bind, if_neg ht]
  rfl

lemma searchResults_eq (hc : i.idxmap.lookup idx = some c) (ht : term ≠ everything) (notop : Bool) (d : Finset Text) :
    i.searchResults lib idx term notop d = collect (fun doc => doc.examine lib (unescape term)) notop (c.within d) := by
  simp only [FileIndex.searchResults, if_neg ht, FileIndex.documents, hc]
  rfl

lemma finds_of_query {U S : Finset Text} (hk : q.kind = .query searchIndex searchResults)
    (hi : searchIndex = .ok S) (hs : S ⊆ U) (hr : ∀ d ⊆ U, searchResults d = .ok (d ∩ S)) : q.Finds U S :=
  ⟨hs, searchResults, by rw [hk, hi], hr⟩

lemma finds_of_collect {examine : IdxDoc → Except Fault Bool} {notop : Bool}
    (hk : q.kind = .query searchIndex searchResults) (hi : searchIndex = collect examine notop c.docs)
    (hr : ∀ d, searchResults d = collect examine notop (c.within d)) (ht : Total examine c.docs) :
    q.Finds c.allDocs (found examine notop c.docs) := by
  have hf : collect examine notop c.docs = .ok (found examine notop c.docs) := collect_eq_found ht
  refine finds_of_query hk (hi.trans hf) found_subset fun d _ => ?_
  rw [hr, IdxCollection.collect_within hf, Finset.inter_comm]

lemma found_everything : found (fun _ => .ok true) false c.docs = c.allDocs := by
  ext k
  simp [mem_found, IdxCollection.mem_allDocs]

lemma notop_notLinks (hz : a.neg = none → Calm z) : ((notLinks a.neg z ++ z).head?.map op).any Op.negates = a.neg.isSome := by
  cases hn : a.neg with
  | none =>
    have hc := hz hn
    cases z with
    | nil => rfl
    | cons l z => exact hc l rfl
  | some n => cases n <;> rfl

lemma negated_notLinks (hz : a.neg = none → Calm z) :
    (notLinks a.neg z ++ z).head?.any (·.op = .unaryNot) = decide (a.neg = some .not) := by
  cases hn : a.neg with
  | none =>
    have hc := hz hn
    cases z with
    | nil => rfl
    | cons l z =>
      have hl := hc l rfl
      have hne : l.op ≠ .unaryNot := by
        intro h
        rw [h] at hl
        cases hl
      simpa [notLinks] using hne
  | some n => cases n <;> rfl

lemma Atomic.finds (hc : i.idxmap.lookup idx = some c) (hp : a.Proper) (ht : Total (a.examine lib) c.docs)
    (hz : a.neg = none → Calm z) (join : Option Joiner) :
    (((a.ask.link (notLinks a.neg z ++ z)).join join).queryable lib i idx).Finds c.allDocs (a.docs lib c) := by
  have hb : ((a.ask.link (notLinks a.neg z ++ z)).join join).body = (a.ask.link (notLinks a.neg z ++ z)).body := by
    cases join <;> rfl
  have hpr : ((a.ask.link (notLinks a.neg z ++ z)).join join).prevOp =
      (a.ask.link (notLinks a.neg z ++ z)).prevOp := by
    cases join <;> rfl
  have hn := notop_notLinks hz
  have hng := negated_notLinks hz
  obtain ⟨neg, ask⟩ := a
  cases ask with
  | term f t =>
    by_cases he : makeSearchTerm (f : Text) t = everything
    · have hne : neg = none := hp he
      subst hne
      have hex : Atomic.examine lib ⟨none, .term f t⟩ = fun _ => .ok true := by
        funext doc
        exact if_pos he
      have hdc : Atomic.docs lib ⟨none, .term f t⟩ c = c.allDocs := by
        rw [Atomic.docs, hex]
        exact found_everything
      rw [hdc]
      refine finds_of_query (by rw [queryable, hb]; rfl) ?_ subset_rfl fun d hd => ?_
      · rw [Query.searchIndex, if_neg f.2]
        simp only [FileIndex.search, FileIndex.collection, hc, ok_bind, if_pos he]
        rfl
      · rw [Query.searchResults, FileIndex.searchResults, if_pos he, Link.notop, hpr, Finset.inter_eq_left.mpr hd]
        exact congrArg (fun b => Except.ok (if b = true then ∅ else d)) hn
    · have hex : Atomic.examine lib ⟨neg, .term f t⟩ = fun doc => doc.examine lib (unescape (makeSearchTerm f t)) := by
        funext doc
        exact if_neg he
      rw [Atomic.docs, hex]
      rw [hex] at ht
      refine finds_of_collect (by rw [Link.queryable, hb]; rfl) ?_ (fun d => ?_) ht
      · rw [Query.searchIndex, if_neg f.2, search_eq hc he, Link.notop, hpr]
        exact congrArg (collect _ · c.docs) hn
      · rw [Query.searchResults, searchResults_eq hc he, Link.notop, hpr]
        exact congrArg (collect _ · (c.within d)) hn
  | range inclusive f start stop =>
    refine finds_of_collect (by rw [queryable, hb]; rfl) ?_ (fun d => ?_) ht
    · simp only [Query.searchIndex, FileIndex.searchRange, FileIndex.collection, hc, ok_bind, searchRangeCollection,
        hng]
      rfl
    · simp only [Query.searchResults, FileIndex.searchResultsRange, FileIndex.documents, hc, searchRangeCollection,
        hng]
      rfl

end

section

def Formula.phrase : Formula Atomic → Phrase
  | atom a => .operand a.neg a.ask.operand none .nil
  | group e => .group e.phrase none .nil
  | atomThen a j rest => .operand a.neg a.ask.operand (some j) rest.phrase
  | groupThen e j rest => .group e.phrase (some j) rest.phrase

def Formula.atoms {α : Type} : Formula α → List α
  | atom a => [a]
  | group e => e.atoms
  | atomThen a _ rest => a :: rest.atoms
  | groupThen e _ rest => e.atoms ++ rest.atoms

def Formula.Ready (lib : Library) (c : IdxCollection) (f : Formula Atomic) : Prop :=
  ∀ a ∈ f.atoms, a.Proper ∧ Total (a.examine lib) c.docs

variable {lib : Library} {i : FileIndex} {idx : Text} {c : IdxCollection} {f : Formula Atomic} {z : Token}

def Forms (lib : Library) (i : FileIndex) (idx : Text) (c : IdxCollection) (f : Formula Atomic) (ts : Tokens)
    (z : Token) : Prop :=
  ∃ (ls : List Link) (op : Op), Leads ts z (ls.reverse ++ z) ∧ Token.settled (ls.reverse ++ z) = true ∧
    Realises c.allDocs (fun a => a.docs lib c) f op (ls.map (Link.queryable lib i idx))

variable {l : Link} {a : Atomic} {j : Joiner} {ts : Tokens} {e : Formula Atomic}

lemma calm_cons (h : l.op.negates = false) (z : Token) : Calm (l :: z) := by
  intro l' hl'
  cases hl'
  exact h

lemma Joiner.op_negates (j : Joiner) : j.op.negates = false := by cases j <;> rfl

lemma Link.join_leaf (h : l.Leaf) (join : Option Joiner) : (l.join join).Leaf := by
  cases join <;> exact h

lemma notLinks_kind {neg : Option Negation} : ∀ q ∈ (notLinks neg z).map (queryable lib i idx), q.kind = .notQuery := by
  cases neg <;> simp [notLinks, queryable]

lemma notLinks_reverse (neg : Option Negation) (z : Token) : (notLinks neg z).reverse = notLinks neg z := by
  cases neg <;> rfl

lemma forms_atom (hc : i.idxmap.lookup idx = some c) (hp : a.Proper) (ht : Total (a.examine lib) c.docs)
    (hz : z.settled = true) (hcl : a.neg = none → Calm z) : Forms lib i idx c (.atom a) (a.tokens none) z := by
  let l := (a.ask.link (notLinks a.neg z ++ z)).join none
  have hf : (l.queryable lib i idx).Finds c.allDocs (a.docs lib c) := Atomic.finds hc hp ht hcl none
  refine ⟨notLinks a.neg z ++ [l], (l.queryable lib i idx).op, ?_, ?_, ?_⟩
  · simpa [notLinks_reverse] using a.leads hz none
  · simpa [notLinks_reverse] using (join_leaf (a.ask.link_leaf _) none).settled (notLinks a.neg z ++ z)
  · rw [map_append]
    exact .atom notLinks_kind hf

lemma forms_atomThen {rest : Formula Atomic}
    (hc : i.idxmap.lookup idx = some c) (hp : a.Proper) (ht : Total (a.examine lib) c.docs)
    (hz : z.settled = true) (hcl : a.neg = none → Calm z)
    (hr : ∀ z : Token, z.settled = true → Calm z → Forms lib i idx c rest ts z) :
    Forms lib i idx c (.atomThen a j rest) (a.tokens (some j) ++ ts) z := by
  let l := (a.ask.link (notLinks a.neg z ++ z)).join (some j)
  have hf : (l.queryable lib i idx).Finds c.allDocs (a.docs lib c) := Atomic.finds hc hp ht hcl (some j)
  have hs : Token.settled (l :: (notLinks a.neg z ++ z)) = true :=
    (join_leaf (a.ask.link_leaf _) (some j)).settled _
  obtain ⟨ls, op, hl, hst, hrl⟩ := hr _ hs (calm_cons j.op_negates _)
  refine ⟨notLinks a.neg z ++ l :: ls, op, ?_, ?_, ?_⟩
  · simpa [notLinks_reverse] using (a.leads hz (some j)).append hl
  · simpa [notLinks_reverse] using hst
  · rw [map_append, map_cons]
    exact .atomThen notLinks_kind hf rfl hrl

lemma forms_inner (hz : z.settled = true) (join : Option Joiner)
    (he : ∀ z : Token, z.settled = true → Calm z → Forms lib i idx c e ts z) :
    ∃ (s : Link) (xs : List Link) (c' : Link) (op : Op), s.IsStart ∧ c'.IsEnd ∧ c'.op = join.elim .notAnOp Joiner.op ∧
      Realises c.allDocs (fun a => a.docs lib c) e op (xs.map (queryable lib i idx)) ∧
      Leads (groupTokens ts ++ joinTokens join) z ((s :: (xs ++ [c'])).reverse ++ z) := by
  let s : Link := ⟨.subQuery true, .notAnOp, z.head?.map op⟩
  have hs : s.IsStart := rfl
  obtain ⟨xs, op, hl, hst, hr⟩ := he (s :: z) (settled_marker hs z) (calm_cons rfl z)
  obtain ⟨e', he', hop, hle⟩ := leads_end hst join
  refine ⟨s, xs, e', op, hs, he', hop, hr, ?_⟩
  have ha := ((leads_start hz).append hl).append hle
  simpa [groupTokens] using ha

lemma forms_group (hz : z.settled = true) (he : ∀ z : Token, z.settled = true → Calm z → Forms lib i idx c e ts z) :
    Forms lib i idx c (.group e) (groupTokens ts) z := by
  obtain ⟨s, xs, c', op, hs, hen, -, hr, hl⟩ := forms_inner hz none he
  refine ⟨s :: (xs ++ [c']), (c'.queryable lib i idx).op, ?_, ?_, ?_⟩
  · simpa [joinTokens] using hl
  · simpa using settled_marker hen (xs.reverse ++ s :: z)
  · rw [map_cons, map_append]
    exact .group hs.kind hen.kind hr

lemma forms_groupThen {e rest : Formula Atomic} {ts us : Tokens} (hz : z.settled = true)
    (he : ∀ z : Token, z.settled = true → Calm z → Forms lib i idx c e ts z)
    (hr : ∀ z : Token, z.settled = true → Calm z → Forms lib i idx c rest us z) :
    Forms lib i idx c (.groupThen e j rest) (groupTokens ts ++ joinTokens (some j) ++ us) z := by
  obtain ⟨s, xs, c', op, hs, hen, hop, hrl, hl⟩ := forms_inner hz (some j) he
  have hst : Token.settled ((s :: (xs ++ [c'])).reverse ++ z) = true := by
    simpa using settled_marker hen (xs.reverse ++ s :: z)
  have hc : Calm ((s :: (xs ++ [c'])).reverse ++ z) := by
    have hc' : c'.op.negates = false := by
      rw [hop]
      exact j.op_negates
    simpa using calm_cons hc' (xs.reverse ++ s :: z)
  obtain ⟨ys, op', hl', hs', hr'⟩ := hr _ hst hc
  refine ⟨s :: (xs ++ c' :: ys), op', ?_, ?_, ?_⟩
  · simpa using hl.append hl'
  · simpa using hs'
  · rw [map_cons, map_append, map_cons]
    exact .groupThen hs.kind hen.kind hop hrl hr'

theorem Formula.forms (hc : i.idxmap.lookup idx = some c) (hr : f.Ready lib c) (z : Token) (hz : z.settled = true)
    (hcl : Calm z) : Forms lib i idx c f f.phrase.tokens z := by
  induction f generalizing z with
  | atom a =>
    obtain ⟨hp, ht⟩ := hr a (.head _)
    simpa [phrase, Phrase.tokens, Atomic.tokens] using forms_atom hc hp ht hz fun _ => hcl
  | group e ih => simpa [phrase, Phrase.tokens, joinTokens] using forms_group hz (ih hr)
  | atomThen a j rest ih =>
    obtain ⟨hp, ht⟩ := hr a (.head _)
    exact forms_atomThen hc hp ht hz (fun _ => hcl) (ih fun b hb => hr b (.tail _ hb))
  | groupThen e j rest ih ih' =>
    exact forms_groupThen hz (ih fun b hb => hr b (mem_append_left _ hb))
      (ih' fun b hb => hr b (mem_append_right _ hb))

theorem Formula.runQuery_eq (hc : i.idxmap.lookup idx = some c) (hr : f.Ready lib c) :
    runQuery lib i idx f.phrase.tokens = .ok (f.alone fun a => a.docs lib c) := by
  obtain ⟨ls, op, hl, -, hrl⟩ := forms hc hr [] rfl (by simp [Calm])
  have hb : buildChain f.phrase.tokens = .ok ls := by
    rw [hl.buildChain]
    simp
  rw [runQuery_of_nested hb hrl.nested, hrl.lastFrame _ (Finset.empty_subset _)]
  rfl

end

section

def Joiner.combine : Joiner → Finset Text → Finset Text → Finset Text
  | and, S, T => S ∩ T
  | or, S, T => S ∪ T

variable {α : Type} {val : α → Finset Text}

def Formula.ofChain (a : α) : List (Joiner × α) → Formula α
  | [] => .atom a
  | (j, b) :: rest => .atomThen a j (ofChain b rest)

def leftFold (val : α → Finset Text) (S : Finset Text) (rest : List (Joiner × α)) : Finset Text :=
  rest.foldl (fun S jb => jb.1.combine S (val jb.2)) S

lemma gather_ofChain (j : Joiner) (D : Finset Text) (a : α) (rest : List (Joiner × α)) :
    (ofChain a rest).gather val j.op D = leftFold val (j.combine D (val a)) rest := by
  induction rest generalizing a j D with
  | nil => cases j <;> simp [ofChain, gather, leftFold, Joiner.op, Joiner.combine]
  | cons jb rest ih =>
    have ha : take j.op D (val a) = j.combine D (val a) := by cases j <;> simp [Joiner.op, Joiner.combine]
    rw [ofChain, gather, ha, ih]
    rfl

lemma alone_ofChain (a : α) (rest : List (Joiner × α)) : (ofChain a rest).alone val = leftFold val (val a) rest := by
  cases rest with
  | nil => exact alone_atom
  | cons jb rest => exact alone_atomThen.trans (gather_ofChain jb.1 (val a) jb.2 rest)

lemma atoms_ofChain (a : α) (rest : List (Joiner × α)) : (ofChain a rest).atoms = a :: rest.map Prod.snd := by
  induction rest generalizing a with
  | nil => rfl
  | cons jb rest ih => rw [ofChain, atoms, ih, map_cons]

variable {lib : Library} {i : FileIndex} {idx : Text} {c : IdxCollection}

def Node.ofLine : Text → Node
  | [] => .mk true []
  | c :: t => .mk false [(c, ofLine t)]

def oneLine (t : Text) : IdxDoc := ⟨.ok (Node.ofLine t), .ok t⟩

def twoNodes : IdxCollection := ⟨[(['m'], oneLine "a:1"), (['n'], oneLine "b:1")], by decide⟩

def twoNodeIndex : FileIndex := ⟨[("node", twoNodes)]⟩

def unitTerm (neg : Option Negation) (f : Char) : Atomic := ⟨neg, .term ⟨[f], by simp⟩ ⟨['1'], by simp⟩⟩

end

end Goiardi.Search
