import Goiardi.Base.Conditions
import Goiardi.Search.Operands
import Goiardi.Search.Shapes

/-! `AND` and `OR` in both back ends: from left to right along the chain, and by the precedence of SQL in the
condition that the Postgres search makes of it. -/

namespace Goiardi.Search

open List Option Formula Link

namespace Formula

section

variable {α β : Type}

def map (g : α → β) : Formula α → Formula β
  | atom a => .atom (g a)
  | group e => .group (e.map g)
  | atomThen a j rest => .atomThen (g a) j (rest.map g)
  | groupThen e j rest => .groupThen (e.map g) j (rest.map g)

structure Before where
  disj : Bool
  conj : Bool

def Before.none : Before := ⟨false, true⟩

def Before.value (s : Before) (x : Bool) : Bool := s.disj || (s.conj && x)

def Before.next (tight : Bool) (s : Before) (x : Bool) : Joiner → Before
  | .and => if tight then ⟨s.disj, s.conj && x⟩ else ⟨false, s.value x⟩
  | .or => ⟨s.value x, true⟩

def read (tight : Bool) : Formula Bool → Before → Bool
  | atom x, s => s.value x
  | group e, s => s.value (e.read tight .none)
  | atomThen x j rest, s => rest.read tight (s.next tight x j)
  | groupThen e j rest, s => rest.read tight (s.next tight (e.read tight .none) j)

/-- No `AND` comes after an `OR` of the same level. The first argument says whether there was one already. -/
def ordered : Bool → Formula α → Bool
  | _, atom _ => true
  | _, group e => e.ordered false
  | seen, atomThen _ .and rest => !seen && rest.ordered false
  | _, atomThen _ .or rest => rest.ordered true
  | seen, groupThen e .and rest => e.ordered false && (!seen && rest.ordered false)
  | _, groupThen e .or rest => e.ordered false && rest.ordered true

lemma next_and (s : Before) (x : Bool) (h : s.disj = false) : s.next true x .and = s.next false x .and := by
  simp [Before.next, Before.value, h]

variable {f : Formula Bool} {seen : Bool} {s : Before}

lemma read_eq_of_ordered (h : f.ordered seen = true) (hs : seen = false → s.disj = false) :
    f.read true s = f.read false s := by
  induction f generalizing seen s with
  | atom x => rfl
  | group e ih => rw [read, read, ih h fun _ => rfl]
  | atomThen x j rest ih =>
    cases j with
    | and =>
      simp only [ordered, Bool.and_eq_true, Bool.not_eq_true'] at h
      rw [read, read, next_and s x (hs h.1)]
      exact ih h.2 fun _ => rfl
    | or => exact ih h (by simp)
  | groupThen e j rest ih ih' =>
    cases j with
    | and =>
      simp only [ordered, Bool.and_eq_true, Bool.not_eq_true'] at h
      rw [read, read, ih h.1 fun _ => rfl, next_and s _ (hs h.2.1)]
      exact ih' h.2.2 fun _ => rfl
    | or =>
      simp only [ordered, Bool.and_eq_true] at h
      rw [read, read, ih h.1 fun _ => rfl]
      exact ih' h.2 (by simp)

lemma read_tight_of_disj (h : s.disj = true) : f.read true s = true := by
  induction f generalizing s with
  | atom x => simp [read, Before.value, h]
  | group e _ => simp [read, Before.value, h]
  | atomThen x j rest ih =>
    refine ih ?_
    cases j <;> simp [Before.next, Before.value, h]
  | groupThen e j rest _ ih =>
    refine ih ?_
    cases j <;> simp [Before.next, Before.value, h]

def const (b : Bool) (f : Formula α) : Formula Bool := f.map fun _ => b

lemma Before.value_next {b : Bool} (h : s.value b = b) (tight : Bool) (j : Joiner) :
    (s.next tight b j).value b = b := by
  cases j <;> cases tight <;> cases b <;> simp_all [Before.next, Before.value]

lemma read_const (tight : Bool) {b : Bool} (f : Formula α) (h : s.value b = b) : (f.const b).read tight s = b := by
  have hn : Before.none.value b = b := by cases b <;> rfl
  induction f generalizing s with
  | atom a => exact h
  | group e ih =>
    have he : (e.map fun _ => b).read tight .none = b := ih hn
    rw [const, map, read, he, h]
  | atomThen a j rest ih => exact ih (Before.value_next h tight j)
  | groupThen e j rest ih ih' =>
    have he : (e.map fun _ => b).read tight .none = b := ih hn
    refine ih' ?_
    rw [he]
    exact Before.value_next h tight j

def skeleton (f : Formula α) : Formula Unit := f.map fun _ => ()

lemma skeleton_const (b : Bool) (f : Formula α) : (f.const b).skeleton = f.skeleton := by
  rw [skeleton, const, skeleton]
  induction f with
  | atom a => rfl
  | group e ih => rw [map, map, map, ih]
  | atomThen a j rest ih => rw [map, map, map, ih]
  | groupThen e j rest ih ih' => rw [map, map, map, ih, ih']

def Splits (f : Formula α) (s s' : Before) : Prop :=
  ∃ g : Formula Bool, g.skeleton = f.skeleton ∧ g.read true s = true ∧ g.read false s' = false

variable {f e rest : Formula α} {s' : Before} {j : Joiner} {x : Bool} {a : α}

lemma Splits.atomThen (h : rest.Splits (s.next true x j) (s'.next false x j)) :
    (Formula.atomThen a j rest).Splits s s' := by
  obtain ⟨g, hg, hr, hr'⟩ := h
  exact ⟨.atomThen x j g, congrArg (Formula.atomThen () j) hg, hr, hr'⟩

lemma Splits.groupThen {k : Formula Bool} (hk : k.skeleton = e.skeleton)
    (h : rest.Splits (s.next true (k.read true .none) j) (s'.next false (k.read false .none) j)) :
    (Formula.groupThen e j rest).Splits s s' := by
  obtain ⟨g, hg, hr, hr'⟩ := h
  exact ⟨.groupThen k j g, congrArg₂ (Formula.groupThen · j ·) hk hg, hr, hr'⟩

lemma Splits.groupThen_const (h : rest.Splits (s.next true x j) (s'.next false x j)) :
    (Formula.groupThen e j rest).Splits s s' := by
  have hn : Before.none.value x = x := by cases x <;> rfl
  refine Splits.groupThen (skeleton_const x e) ?_
  rwa [read_const true e hn, read_const false e hn]

lemma splits_of_disj (h : s.disj = true) (h' : s'.disj = false) : f.Splits s s' :=
  ⟨f.const false, skeleton_const false f, read_tight_of_disj h, read_const false f (by simp [Before.value, h'])⟩

lemma splits_of_conj : f.Splits ⟨false, true⟩ ⟨false, false⟩ := by
  induction f with
  | atom a => exact ⟨.atom true, rfl, rfl, rfl⟩
  | group e _ =>
    refine ⟨.group (e.const true), congrArg group (skeleton_const true e), ?_, rfl⟩
    rw [read, read_const true e rfl]
    rfl
  | atomThen a j rest ih =>
    refine Splits.atomThen (x := true) ?_
    cases j with
    | and => exact ih
    | or => exact splits_of_disj rfl rfl
  | groupThen e j rest _ ih =>
    refine Splits.groupThen_const (x := true) ?_
    cases j with
    | and => exact ih
    | or => exact splits_of_disj rfl rfl

lemma splits_or_unordered (h : f.ordered true = false) : f.Splits ⟨true, true⟩ ⟨true, true⟩ ∨ f.ordered false = false := by
  induction f with
  | atom a => cases h
  | group e _ => exact .inr h
  | atomThen a j rest _ =>
    cases j with
    | and => exact .inl (Splits.atomThen (x := true) (splits_of_disj rfl rfl))
    | or => exact .inr h
  | groupThen e j rest _ _ =>
    cases j with
    | and => exact .inl (Splits.groupThen_const (x := true) (splits_of_disj rfl rfl))
    | or => exact .inr h

lemma splits_of_unordered (h : f.ordered false = false) : f.Splits .none .none := by
  induction f with
  | atom a => cases h
  | group e ih =>
    obtain ⟨g, hg, hr, hr'⟩ := ih h
    refine ⟨.group g, congrArg group hg, ?_, ?_⟩
    · rw [read, hr]
      rfl
    · rw [read, hr']
      rfl
  | atomThen a j rest ih =>
    cases j with
    | and => exact Splits.atomThen (x := true) (ih (by simpa [ordered] using h))
    | or =>
      rcases splits_or_unordered h with hs | hs
      · exact Splits.atomThen (x := true) hs
      · exact Splits.atomThen (x := false) (ih hs)
  | groupThen e j rest ih ih' =>
    by_cases he : e.ordered false = false
    · obtain ⟨g, hg, hr, hr'⟩ := ih he
      refine Splits.groupThen hg ?_
      rw [hr, hr']
      cases j with
      | and => exact splits_of_conj
      | or => exact splits_of_disj rfl rfl
    · cases j with
      | and => exact Splits.groupThen_const (x := true) (ih' (by simpa [ordered, he] using h))
      | or =>
        rcases splits_or_unordered (by simpa [ordered, he] using h) with hs | hs
        · exact Splits.groupThen_const (x := true) hs
        · exact Splits.groupThen_const (x := false) (ih' hs)

end

end Formula

inductive Spells : Formula Query → List Link → Prop
  | atom {q : Query} {l : Link} (h : l.body = .query q) : Spells (.atom q) [l]
  | group {e : Formula Query} {s c : Link} {ls : List Link} (hs : s.body = .subQuery true)
      (hc : c.body = .subQuery false) (h : Spells e ls) : Spells (.group e) (s :: (ls ++ [c]))
  | atomThen {q : Query} {j : Joiner} {rest : Formula Query} {l : Link} {ls : List Link} (h : l.body = .query q)
      (hj : l.op = j.op) (hr : Spells rest ls) : Spells (.atomThen q j rest) (l :: ls)
  | groupThen {e rest : Formula Query} {j : Joiner} {s c : Link} {ls ms : List Link} (hs : s.body = .subQuery true)
      (hc : c.body = .subQuery false) (hj : c.op = j.op) (h : Spells e ls) (hr : Spells rest ms) :
      Spells (.groupThen e j rest) (s :: (ls ++ c :: ms))

def Ask.query : Ask → Query
  | term field t => .basic field ⟨t, .notAnOp⟩ true
  | range inclusive field start stop => .range field start stop inclusive false

def Formula.tokens (f : Formula Ask) : Tokens := (f.map fun a => ⟨none, a⟩).phrase.tokens

lemma Ask.link_body {z : Token} (a : Ask) (hz : Calm z) (join : Option Joiner) :
    ((a.link z).join join).body = .query a.query := by
  have hj : ((a.link z).join join).body = (a.link z).body := by cases join <;> rfl
  have hn : (z.head?.map op).any Op.negates = false := by
    simpa [notLinks] using notop_notLinks (a := ⟨none, a⟩) fun _ => hz
  have hr : z.head?.any (·.op = .unaryNot) = false := by
    simpa [notLinks] using negated_notLinks (a := ⟨none, a⟩) fun _ => hz
  rw [hj]
  cases a with
  | term f t => simp [Ask.link, basicLink, Ask.query, hn]
  | range inclusive f start stop => simp only [Ask.link, rangeLink, Ask.query, hr]

def Writes (f : Formula Query) (ts : Tokens) (z : Token) : Prop :=
  ∃ ls, Leads ts z (ls.reverse ++ z) ∧ Token.settled (ls.reverse ++ z) = true ∧ Spells f ls

lemma leads_ask {z : Token} (hz : z.settled = true) (a : Ask) (join : Option Joiner) :
    Leads (a.operand.tokens ++ joinTokens join) z ((a.link z).join join :: z) := by
  simpa [Atomic.tokens, notLinks, negTokens] using Atomic.leads hz ⟨none, a⟩ join

lemma writes_inner {e : Formula Query} {ts : Tokens} {z : Token} (hz : z.settled = true) (join : Option Joiner)
    (he : ∀ z : Token, z.settled = true → Calm z → Writes e ts z) :
    ∃ (s : Link) (ls : List Link) (c : Link), s.body = .subQuery true ∧ c.body = .subQuery false ∧
      c.op = join.elim .notAnOp Joiner.op ∧ Spells e ls ∧
      Leads (groupTokens ts ++ joinTokens join) z (c :: (ls.reverse ++ s :: z)) := by
  let s : Link := ⟨.subQuery true, .notAnOp, z.head?.map op⟩
  obtain ⟨ls, hl, hs, hsp⟩ := he (s :: z) (settled_marker (rfl : s.IsStart) z) (calm_cons rfl z)
  obtain ⟨c, hc, hop, hle⟩ := leads_end hs join
  refine ⟨s, ls, c, rfl, hc, hop, hsp, ?_⟩
  simpa [groupTokens] using ((leads_start hz).append hl).append hle

theorem Formula.writes (f : Formula Ask) {z : Token} (hz : z.settled = true) (hcl : Calm z) :
    Writes (f.map Ask.query) f.tokens z := by
  induction f generalizing z with
  | atom a =>
    refine ⟨[(a.link z).join none], ?_, (join_leaf (a.link_leaf z) none).settled z, .atom (a.link_body hcl none)⟩
    simpa [tokens, map, phrase, Phrase.tokens, negTokens] using leads_ask hz a none
  | group e ih =>
    obtain ⟨s, ls, c, hs, hc, -, hsp, hl⟩ := writes_inner hz none fun z => ih (z := z)
    refine ⟨s :: (ls ++ [c]), ?_, ?_, .group hs hc hsp⟩
    · simpa [tokens, map, phrase, Phrase.tokens] using hl
    · simpa using settled_marker hc (ls.reverse ++ s :: z)
  | atomThen a j rest ih =>
    have hst := (join_leaf (a.link_leaf z) (some j)).settled z
    obtain ⟨ls, hl, hs, hsp⟩ := ih hst (calm_cons j.op_negates z)
    refine ⟨(a.link z).join (some j) :: ls, ?_, by simpa using hs, .atomThen (a.link_body hcl (some j)) rfl hsp⟩
    simpa [tokens, map, phrase, Phrase.tokens, negTokens] using (leads_ask hz a (some j)).append hl
  | groupThen e j rest ih ih' =>
    obtain ⟨s, ls, c, hs, hc, hop, hsp, hl⟩ := writes_inner hz (some j) fun z => ih (z := z)
    have hst : Token.settled (c :: (ls.reverse ++ s :: z)) = true := settled_marker hc _
    obtain ⟨ms, hl', hs', hsp'⟩ := ih' hst (calm_cons (hop ▸ j.op_negates) _)
    refine ⟨s :: (ls ++ c :: ms), ?_, by simpa using hs', .groupThen hs hc hop hsp hsp'⟩
    simpa [tokens, map, phrase, Phrase.tokens] using hl.append hl'

namespace Postgres

open Conditions

section

structure Reading where
  op : Op
  value : Bool

def Reading.take (g : Reading) (op : Op) (x : Bool) : Reading where
  op := op
  value := match g.op with
    | .binAnd => g.value && x
    | .binOr => g.value || x
    | _ => x

def leftToRight (val : ℕ → Query → Bool) : ℕ → List Link → Reading → List Reading → Bool
  | _, [], g, _ => g.value
  | k, l :: chain, g, gs =>
    match l.body, gs with
    | .query q, gs => leftToRight val (k + 1) chain (g.take l.op (val k q)) gs
    | .subQuery true, gs => leftToRight val k chain ⟨.notAnOp, false⟩ (g :: gs)
    | .subQuery false, outer :: gs => leftToRight val k chain (outer.take l.op g.value) gs
    | .subQuery false, [] => leftToRight val k chain g []
    | .notQuery, gs => leftToRight val k chain g gs

def numberedFrom (val : ℕ → Query → Bool) : ℕ → Formula Query → Formula Bool
  | k, .atom q => .atom (val k q)
  | k, .group e => .group (numberedFrom val k e)
  | k, .atomThen q j rest => .atomThen (val k q) j (numberedFrom val (k + 1) rest)
  | k, .groupThen e j rest => .groupThen (numberedFrom val k e) j (numberedFrom val (k + e.atoms.length) rest)

def Reading.before (g : Reading) : Formula.Before :=
  match g.op with
  | .binAnd => ⟨false, g.value⟩
  | .binOr => ⟨g.value, true⟩
  | _ => .none

variable {val : ℕ → Query → Bool} {f : Formula Query} {ls rest : List Link} {k : ℕ} {g : Reading} {gs : List Reading}

lemma Reading.take_eq (g : Reading) (op : Op) (x : Bool) : g.take op x = ⟨op, g.before.value x⟩ := by
  cases h : g.op <;> simp [take, before, Formula.Before.value, Formula.Before.none, h]

lemma Reading.before_take (g : Reading) (j : Joiner) (x : Bool) : (g.take j.op x).before = g.before.next false x j := by
  rw [take_eq]
  cases j <;> rfl

lemma leftToRight_query {l : Link} {q : Query} (h : l.body = .query q) :
    leftToRight val k (l :: rest) g gs = leftToRight val (k + 1) rest (g.take l.op (val k q)) gs := by
  simp only [leftToRight, h]

lemma leftToRight_start {l : Link} (h : l.body = .subQuery true) :
    leftToRight val k (l :: rest) g gs = leftToRight val k rest ⟨.notAnOp, false⟩ (g :: gs) := by
  simp only [leftToRight, h]

lemma leftToRight_end {l : Link} {outer : Reading} (h : l.body = .subQuery false) :
    leftToRight val k (l :: rest) g (outer :: gs) = leftToRight val k rest (outer.take l.op g.value) gs := by
  simp only [leftToRight, h]

lemma leftToRight_spells (h : Spells f ls) (k : ℕ) (rest : List Link) (g : Reading) (gs : List Reading) :
    ∃ op, leftToRight val k (ls ++ rest) g gs =
      leftToRight val (k + f.atoms.length) rest ⟨op, (numberedFrom val k f).read false g.before⟩ gs := by
  induction h generalizing k g gs rest with
  | @atom q l hl =>
    refine ⟨l.op, ?_⟩
    rw [singleton_append, leftToRight_query hl, Reading.take_eq]
    rfl
  | @group e s c ls hs hc _ ih =>
    obtain ⟨op, hi⟩ := ih k (c :: rest) ⟨.notAnOp, false⟩ (g :: gs)
    refine ⟨c.op, ?_⟩
    rw [cons_append, leftToRight_start hs, append_assoc, singleton_append, hi, leftToRight_end hc,
      Reading.take_eq]
    rfl
  | @atomThen q j tail l ls hl hj _ ih =>
    obtain ⟨op, hi⟩ := ih (k + 1) rest (g.take j.op (val k q)) gs
    refine ⟨op, ?_⟩
    rw [cons_append, leftToRight_query hl, hj, hi, Reading.before_take, atoms, length_cons,
      Nat.add_right_comm]
    rfl
  | @groupThen e tail j s c ls ms hs hc hj _ _ ih ih' =>
    obtain ⟨op, hi⟩ := ih k (c :: (ms ++ rest)) ⟨.notAnOp, false⟩ (g :: gs)
    obtain ⟨op', hi'⟩ := ih' (k + e.atoms.length) rest
      (g.take j.op ((numberedFrom val k e).read false .none)) gs
    refine ⟨op', ?_⟩
    rw [cons_append, leftToRight_start hs, append_assoc, cons_append, hi, leftToRight_end hc, hj]
    refine hi'.trans ?_
    rw [Reading.before_take, atoms, length_append, Nat.add_assoc]
    rfl

def leftValue (val : ℕ → Query → Bool) (chain : List Link) : Bool := leftToRight val 0 chain ⟨.notAnOp, false⟩ []

lemma leftValue_spells (h : Spells f ls) : leftValue val ls = (numberedFrom val 0 f).read false .none := by
  obtain ⟨op, ho⟩ := @leftToRight_spells val _ _ h 0 [] ⟨.notAnOp, false⟩ []
  rw [append_nil] at ho
  rw [leftValue, ho]
  rfl

end

section

def Piece.token : Piece → Option (Tok Piece)
  | .space => none
  | .lpar => some .lpar
  | .rpar => some .rpar
  | .and => some .and
  | .or => some .or
  | .not => some .not
  | .test table column c => some (.var (.test table column c))
  | .absent => some (.var .absent)

def tokensOf (w : Clause) : List (Tok Piece) := w.filterMap Piece.token

@[simp] lemma tokensOf_append (w w' : Clause) : tokensOf (w ++ w') = tokensOf w ++ tokensOf w' := filterMap_append

lemma tokensOf_intercalate (cs : List Clause) : tokensOf ([Piece.space].intercalate cs) = cs.flatMap tokensOf := by
  induction cs with
  | nil => rfl
  | cons c cs ih =>
    cases cs with
    | nil => simp
    | cons c' cs =>
      have hs : tokensOf [Piece.space] = [] := rfl
      rw [intercalate_cons_cons, tokensOf_append, tokensOf_append, ih, hs, append_nil, ← flatMap_cons]

def Positive : Query → Prop
  | .basic _ term _ => term.mod.negates = false
  | .grouped .. => False
  | .range _ _ _ _ negated => negated = false

variable {lib : Library} {cvt : Bool} {v : Piece → Bool} {t : ℕ}

def ReadsOperand (v : Piece → Bool) (t : ℕ) (w : Clause) : Prop :=
  ∃ b, Reads v .primary (tokensOf w) b ∧ ∀ y, (∀ column c, v (.test t column c) = y) → b = y

lemma reads_basic {field : Text} {term : QueryTerm} (h : term.mod.negates = false) :
    ReadsOperand v t (buildBasicQuery lib cvt field term t .notAnOp).clause := by
  unfold buildBasicQuery
  simp only [h]
  split
  · exact ⟨_, .paren (Reads.var _).disjunction, fun y hy => hy _ _⟩
  · split
    · exact ⟨_, .paren (Reads.var _).disjunction, fun y hy => hy _ _⟩
    · refine ⟨_, .paren (Reads.or (Reads.disjunction (.paren (Reads.and (Reads.var _).primary (.var _)).conjunction))
        (Reads.paren (Reads.var _).disjunction).primary), fun y hy => ?_⟩
      simp [hy]

lemma reads_rangeClause (start stop : Text) (inclusive : Bool) :
    ReadsOperand v t (rangeClause (rangeBounds start stop inclusive) t .notAnOp false) := by
  unfold rangeBounds
  split <;> split
  · refine ⟨_, .paren (Reads.or (Reads.and (Reads.var _).primary
      (.paren (Reads.and (Reads.var _).primary (.var _)).conjunction)).conjunction
      (Reads.paren (Reads.and (Reads.and (Reads.var _).primary (.var _)) (.var _)).conjunction).primary), fun y hy => ?_⟩
    simp [hy]
  · refine ⟨_, .paren (Reads.or (Reads.and (Reads.var _).primary (.paren (Reads.var _).disjunction)).conjunction
      (Reads.paren (Reads.and (Reads.var _).primary (.var _)).conjunction).primary), fun y hy => ?_⟩
    simp [hy]
  · refine ⟨_, .paren (Reads.or (Reads.and (Reads.var _).primary (.paren (Reads.var _).disjunction)).conjunction
      (Reads.paren (Reads.and (Reads.var _).primary (.var _)).conjunction).primary), fun y hy => ?_⟩
    simp [hy]
  · exact ⟨_, .paren (Reads.var _).disjunction, fun y hy => hy _ _⟩

lemma reads_build (lib : Library) (cvt : Bool) (v : Piece → Bool) {q : Query} (h : Positive q) (t : ℕ) :
    ReadsOperand v t (build lib cvt q t .notAnOp).clause := by
  cases q with
  | basic field term complete => exact reads_basic h
  | grouped field terms complete => exact h.elim
  | range field start stop inclusive negated =>
    obtain rfl : negated = false := h
    unfold build buildRangeQuery
    dsimp only
    split
    · exact reads_rangeClause stop start inclusive
    · exact reads_rangeClause start stop inclusive

lemma build_clause (q : Query) (t : ℕ) (op : Op) :
    (build lib cvt q t op).clause = binOp op ++ (build lib cvt q t .notAnOp).clause := by
  cases q with
  | basic field term complete =>
    unfold build buildBasicQuery
    dsimp only
    split
    · rfl
    · split <;> rfl
  | grouped field terms complete => simp [build, buildGroupedQuery, binOp]
  | range field start stop inclusive negated => simp [build, buildRangeQuery, rangeClause, binOp]

lemma build_tNum {q : Query} (h : Positive q) (t : ℕ) (op : Op) : (build lib cvt q t op).tNum = t := by
  cases q with
  | basic field term complete =>
    unfold build buildBasicQuery
    dsimp only
    split
    · rfl
    · split <;> rfl
  | grouped field terms complete => exact h.elim
  | range field start stop inclusive negated => rfl

end

section

variable (lib : Library) (cvt : Bool)

def operandClause (q : Query) (t : ℕ) : Clause := (build lib cvt q t .notAnOp).clause

def clausesOf : Formula Query → Op → ℕ → List Clause
  | .atom q, op, t => [binOp op ++ operandClause lib cvt q t]
  | .group e, op, t => [binOp op ++ [.lpar] ++ [Piece.space].intercalate (clausesOf e .notAnOp t) ++ [.rpar]]
  | .atomThen q j rest, op, t => (binOp op ++ operandClause lib cvt q t) :: clausesOf rest j.op (t + 1)
  | .groupThen e j rest, op, t =>
    (binOp op ++ [.lpar] ++ [Piece.space].intercalate (clausesOf e .notAnOp t) ++ [.rpar]) ::
      clausesOf rest j.op (t + e.atoms.length)

def operandValue (v : Piece → Bool) (t : ℕ) (q : Query) : Bool := eval v (tokensOf (operandClause lib cvt q t))

variable {lib cvt} {v : Piece → Bool} {t : ℕ} {f : Formula Query} {q : Query} {op : Op}

def joinToken : Joiner → Tok Piece
  | .and => .and
  | .or => .or

lemma tokensOf_binOp (j : Joiner) : tokensOf (binOp j.op) = [joinToken j] := by cases j <;> rfl

lemma reads_operand (lib : Library) (cvt : Bool) (v : Piece → Bool) (h : Positive q) (t : ℕ) :
    Reads v .primary (tokensOf (operandClause lib cvt q t)) (operandValue lib cvt v t q) := by
  obtain ⟨b, hb, -⟩ := reads_build lib cvt v h t
  rw [operandValue, operandClause, hb.disjunction.eval_eq]
  exact hb

lemma begins_next {pre us : List (Tok Piece)} {s : Formula.Before} {x : Bool} (h : Begins v pre s.disj s.conj)
    (hx : Reads v .primary us x) (j : Joiner) :
    Begins v (pre ++ us ++ [joinToken j]) (s.next true x j).disj (s.next true x j).conj := by
  cases j with
  | and => exact h.andThen hx
  | or => exact .or (h.reads hx)

def formulaTokens (lib : Library) (cvt : Bool) (f : Formula Query) (t : ℕ) : List (Tok Piece) :=
  (clausesOf lib cvt f .notAnOp t).flatMap tokensOf

lemma flatMap_clausesOf (f : Formula Query) (j : Joiner) (t : ℕ) :
    (clausesOf lib cvt f j.op t).flatMap tokensOf = joinToken j :: formulaTokens lib cvt f t := by
  have hn : tokensOf (binOp .notAnOp) = [] := rfl
  cases f <;> simp [clausesOf, formulaTokens, tokensOf_binOp, hn]

lemma tokensOf_paren (cs : List Clause) :
    tokensOf (binOp .notAnOp ++ [.lpar] ++ [Piece.space].intercalate cs ++ [.rpar]) =
      .lpar :: (cs.flatMap tokensOf ++ [.rpar]) := by
  simp only [tokensOf_append, tokensOf_intercalate]
  rfl

lemma reads_formula (hf : ∀ q ∈ f.atoms, Positive q) (t : ℕ) {pre : List (Tok Piece)} {s : Formula.Before}
    (h : Begins v pre s.disj s.conj) : Reads v .disjunction (pre ++ formulaTokens lib cvt f t)
      ((numberedFrom (operandValue lib cvt v) t f).read true s) := by
  induction f generalizing t pre s with
  | atom q =>
    have hq := reads_operand lib cvt v (hf q (.head _)) t
    simpa [formulaTokens, clausesOf, binOp, numberedFrom, Formula.read, Formula.Before.value] using h.reads hq
  | group e ih =>
    have he := Reads.paren (ih hf t (s := .none) .nil)
    simp only [formulaTokens, clausesOf, flatMap_cons, flatMap_nil, append_nil, tokensOf_paren]
    exact h.reads he
  | atomThen q j rest ih =>
    have hq := reads_operand lib cvt v (hf q (.head _)) t
    have hr := ih (fun q hq => hf q (.tail _ hq)) (t + 1) (begins_next h hq j)
    have ht : formulaTokens lib cvt (.atomThen q j rest) t =
        tokensOf (operandClause lib cvt q t) ++ [joinToken j] ++ formulaTokens lib cvt rest (t + 1) := by
      simp [formulaTokens, clausesOf, binOp, flatMap_clausesOf]
    rw [ht]
    simpa [numberedFrom, Formula.read] using hr
  | groupThen e j rest ih ih' =>
    have he := Reads.paren (ih (fun q hq => hf q (mem_append_left _ hq)) t (s := .none) .nil)
    have hr := ih' (fun q hq => hf q (mem_append_right _ hq)) (t + e.atoms.length) (begins_next h he j)
    have ht : formulaTokens lib cvt (.groupThen e j rest) t =
        (.lpar :: ([] ++ formulaTokens lib cvt e t ++ [.rpar])) ++ [joinToken j] ++
          formulaTokens lib cvt rest (t + e.atoms.length) := by
      simp only [formulaTokens, clausesOf, flatMap_cons, tokensOf_paren, flatMap_clausesOf]
      simp
    rw [ht]
    simpa [numberedFrom, Formula.read] using hr

end

section

variable {lib : Library} {cvt : Bool} {f : Formula Query} {ls rest : List Link}

lemma spells_ne_nil (h : Spells f ls) : ls ≠ [] := by cases h <;> simp

lemma closing_spells (h : Spells f ls) {m : ℕ} (hm : 0 < m) : Brackets.closing Link.depth m (ls ++ rest) =
      (Brackets.closing Link.depth m rest).map fun (inner, last, after) => (ls ++ inner, last, after) := by
  induction h generalizing m rest with
  | @atom q l hl =>
    have hd : Link.depth l m = m := by simp only [Link.depth, hl]
    rw [singleton_append, Brackets.closing, hd, if_neg hm.ne']
    rfl
  | @group e s c ls hs hc _ ih =>
    have hd : Link.depth s m = m + 1 := by simp only [Link.depth, hs]
    have hd' : Link.depth c (m + 1) = m := by simp only [Link.depth, hc, Nat.add_sub_cancel]
    rw [List.cons_append, Brackets.closing, hd, if_neg (Nat.succ_ne_zero m), List.append_assoc, ih (Nat.succ_pos m),
      List.singleton_append, Brackets.closing, hd', if_neg hm.ne', Option.map_map, Option.map_map]
    congr 1
    funext parts
    simp
  | @atomThen q j tail l ls hl hj _ ih =>
    have hd : Link.depth l m = m := by simp only [Link.depth, hl]
    rw [List.cons_append, Brackets.closing, hd, if_neg hm.ne', ih hm, Option.map_map]
    rfl
  | @groupThen e tail j s c ls ms hs hc hj _ _ ih ih' =>
    have hd : Link.depth s m = m + 1 := by simp only [Link.depth, hs]
    have hd' : Link.depth c (m + 1) = m := by simp only [Link.depth, hc, Nat.add_sub_cancel]
    rw [List.cons_append, Brackets.closing, hd, if_neg (Nat.succ_ne_zero m), List.append_assoc, ih (Nat.succ_pos m),
      List.cons_append, Brackets.closing, hd', if_neg hm.ne', ih' hm, Option.map_map, Option.map_map, Option.map_map]
    congr 1
    funext parts
    simp

lemma extractSubQuery_spells (h : Spells f ls) {c : Link} (hc : c.body = .subQuery false) :
    extractSubQuery (ls ++ c :: rest) = .ok (ls, c, rest) := by
  have hd : Link.depth c 1 = 0 := by simp only [Link.depth, hc]
  have hx : Brackets.closing Link.depth 1 (ls ++ c :: rest) = some (ls, c, rest) := by
    rw [closing_spells h Nat.one_pos, Brackets.closing, if_pos hd]
    simp
  cases ls with
  | nil => exact absurd rfl (spells_ne_nil h)
  | cons l ls =>
    rw [cons_append] at hx ⊢
    rw [extractSubQuery, hx]

lemma clausesOf_ne_nil (f : Formula Query) (op : Op) (t : ℕ) : clausesOf lib cvt f op t ≠ [] := by
  cases f <;> simp [clausesOf]

section

variable {n t u u' : ℕ} {op : Op} {pq np pq' : PgQuery} {walked walked' : List Link}

lemma executeFrom_query {l : Link} {q : Query} (hl : l.body = .query q) (hq : Positive q)
    (h : executeFrom lib cvt n l.op (t + 1) (pq.add lib cvt ⟨q, t, op⟩) rest = .ok (pq', u, walked)) :
    executeFrom lib cvt (n + 1) op t pq (l :: rest) = .ok (pq', u, l :: walked) := by
  have ht : (Call.built lib cvt ⟨q, t, op⟩).tNum = t := build_tNum hq t op
  rw [executeFrom]
  simp only [hl, ht, h]
  rfl

lemma executeFrom_group {s c : Link} (hs : s.body = .subQuery true) (hc : c.body = .subQuery false) (hls : Spells f ls)
    (hi : executeFrom lib cvt n .notAnOp t .empty ls = .ok (np, u, walked)) (hne : np.queryStrs ≠ [])
    (ha : executeFrom lib cvt n c.op u (pq.addGroup op np) rest = .ok (pq', u', walked')) :
    executeFrom lib cvt (n + 1) op t pq (s :: (ls ++ c :: rest)) = .ok (pq', u', s :: walked) := by
  obtain ⟨r, hr⟩ : ∃ r, craftFullQuery [] np u = .ok r := craftFullQuery_isOk.mpr fun _ => hne
  rw [executeFrom]
  simp only [hs, extractSubQuery_spells hls hc, ok_bind, if_neg (spells_ne_nil hls), hi, hr, ha]
  rfl

end

lemma executeFrom_spells (lib : Library) (cvt : Bool) (h : Spells f ls) (hf : ∀ q ∈ f.atoms, Positive q) {n : ℕ} (hn : ls.length ≤ n) (op : Op)
    (t : ℕ) (pq : PgQuery) : ∃ pq' walked, executeFrom lib cvt n op t pq ls = .ok (pq', t + f.atoms.length, walked) ∧
      pq'.queryStrs = pq.queryStrs ++ clausesOf lib cvt f op t := by
  have hd (n : ℕ) (op : Op) (t : ℕ) (pq : PgQuery) :
      executeFrom lib cvt n op t pq [] = .ok (pq, t, []) := by cases n <;> rfl
  have ha (q : Query) (op : Op) (t : ℕ) (pq : PgQuery) : (pq.add lib cvt ⟨q, t, op⟩).queryStrs =
      pq.queryStrs ++ [binOp op ++ operandClause lib cvt q t] := by
    rw [PgQuery.add, Call.built, build_clause]
    rfl
  induction h generalizing n op t pq with
  | @atom q l hl =>
    obtain ⟨n, rfl⟩ := Nat.exists_eq_add_of_le' hn
    exact ⟨_, _, executeFrom_query hl (hf q (.head _)) (hd ..), ha q op t pq⟩
  | @group e s c ls hs hc hls ih =>
    rw [length_cons, length_append] at hn
    obtain ⟨n, rfl⟩ := Nat.exists_eq_add_of_le' (Nat.le_of_add_left_le hn)
    obtain ⟨np, w, hi, hnp⟩ := ih hf (by omega : ls.length ≤ n) .notAnOp t .empty
    have hne : np.queryStrs ≠ [] := hnp ▸ clausesOf_ne_nil e .notAnOp t
    refine ⟨_, _, executeFrom_group hs hc hls hi hne (hd ..), ?_⟩
    rw [PgQuery.addGroup, hnp]
    rfl
  | @atomThen q j tail l ls hl hj _ ih =>
    rw [length_cons] at hn
    obtain ⟨n, rfl⟩ := Nat.exists_eq_add_of_le' (Nat.le_of_add_left_le hn)
    obtain ⟨pq', w, hr, hp⟩ := ih (fun q hq => hf q (.tail _ hq)) (by omega : ls.length ≤ n) j.op (t + 1)
      (pq.add lib cvt ⟨q, t, op⟩)
    rw [← hj] at hr
    refine ⟨pq', l :: w, ?_, ?_⟩
    · rw [executeFrom_query hl (hf q (.head _)) hr, atoms, length_cons, Nat.add_right_comm, Nat.add_assoc]
    · rw [hp, ha, append_assoc]
      rfl
  | @groupThen e tail j s c ls ms hs hc hj hls _ ih ih' =>
    rw [length_cons, length_append, length_cons] at hn
    obtain ⟨n, rfl⟩ := Nat.exists_eq_add_of_le' (Nat.le_of_add_left_le hn)
    obtain ⟨np, w, hi, hnp⟩ := ih (fun q hq => hf q (mem_append_left _ hq)) (by omega : ls.length ≤ n) .notAnOp t
      .empty
    obtain ⟨pq', w', hr, hp⟩ := ih' (fun q hq => hf q (mem_append_right _ hq)) (by omega : ms.length ≤ n) j.op
      (t + e.atoms.length) (pq.addGroup op np)
    have hne : np.queryStrs ≠ [] := hnp ▸ clausesOf_ne_nil e .notAnOp t
    rw [← hj] at hr
    refine ⟨pq', s :: w, ?_, ?_⟩
    · rw [executeFrom_group hs hc hls hi hne hr, atoms, length_append, Nat.add_assoc]
    · rw [hp, PgQuery.addGroup, hnp, append_assoc]
      rfl

lemma atoms_pos {α : Type} (f : Formula α) : 0 < f.atoms.length := by
  induction f with
  | atom a => exact Nat.one_pos
  | group e ih => exact ih
  | atomThen a j rest _ => exact Nat.succ_pos _
  | groupThen e j rest ih _ =>
    rw [atoms, length_append]
    omega

lemma condition_clausesOf (f : Formula Query) (op : Op) (t : ℕ) : condition f.atoms.length (clausesOf lib cvt f op t) =
      .ok ([Piece.space].intercalate (clausesOf lib cvt f op t)) := by
  unfold condition
  split
  · next h =>
    cases f with
    | atom q => simp [clausesOf]
    | group e => simp [clausesOf]
    | atomThen q j rest =>
      have hp := atoms_pos rest
      rw [atoms, length_cons] at h
      omega
    | groupThen e j rest =>
      have hp := atoms_pos e
      have hp' := atoms_pos rest
      rw [atoms, length_append] at h
      omega
  · rfl

lemma execute_spells (lib : Library) (cvt : Bool) (h : Spells f ls) (hf : ∀ q ∈ f.atoms, Positive q) (idx : Text) :
    ∃ e, execute lib cvt idx ls = .ok e ∧
      condition e.tNum e.query.queryStrs = .ok ([Piece.space].intercalate (clausesOf lib cvt f .notAnOp 0)) := by
  obtain ⟨pq, walked, hw, hq⟩ := executeFrom_spells lib cvt h hf le_rfl .notAnOp 0 .empty
  have hc : condition (0 + f.atoms.length) pq.queryStrs =
      .ok ([Piece.space].intercalate (clausesOf lib cvt f .notAnOp 0)) := by
    rw [hq, Nat.zero_add]
    exact condition_clausesOf f .notAnOp 0
  exact ⟨_, execute_of_walk hw hc, hc⟩

end

section

variable {lib : Library} {cvt : Bool} {v : Piece → Bool}

lemma map_map {α β γ : Type} (g : α → β) (h : β → γ) (f : Formula α) : (f.map g).map h = f.map fun a => h (g a) := by
  induction f with
  | atom a => rfl
  | group e ih => rw [Formula.map, Formula.map, Formula.map, ih]
  | atomThen a j rest ih => rw [Formula.map, Formula.map, Formula.map, ih]
  | groupThen e j rest ih ih' => rw [Formula.map, Formula.map, Formula.map, ih, ih']

lemma atoms_map {α β : Type} (g : α → β) (f : Formula α) : (f.map g).atoms = f.atoms.map g := by
  induction f with
  | atom a => rfl
  | group e ih => exact ih
  | atomThen a j rest ih => rw [Formula.map, Formula.atoms, ih, Formula.atoms, map_cons]
  | groupThen e j rest ih ih' => rw [Formula.map, Formula.atoms, ih, ih', Formula.atoms, map_append]

lemma ordered_map {α β : Type} (g : α → β) (f : Formula α) (seen : Bool) : (f.map g).ordered seen = f.ordered seen := by
  induction f generalizing seen with
  | atom a => rfl
  | group e ih => exact ih false
  | atomThen a j rest ih => cases j <;> simp only [Formula.map, Formula.ordered, ih]
  | groupThen e j rest ih ih' => cases j <;> simp only [Formula.map, Formula.ordered, ih, ih']

lemma skeleton_numberedFrom (val : ℕ → Query → Bool) (k : ℕ) (f : Formula Query) :
    (numberedFrom val k f).skeleton = f.skeleton := by
  unfold skeleton
  induction f generalizing k with
  | atom q => rfl
  | group e ih => simp only [numberedFrom, Formula.map, ih]
  | atomThen q j rest ih => simp only [numberedFrom, Formula.map, ih]
  | groupThen e j rest ih ih' => simp only [numberedFrom, Formula.map, ih, ih']

lemma ordered_numberedFrom (val : ℕ → Query → Bool) (k : ℕ) (f : Formula Query) (seen : Bool) :
    (numberedFrom val k f).ordered seen = f.ordered seen := by
  rw [← ordered_map (fun _ => ()), ← ordered_map (fun _ => ()) f]
  exact congrArg (ordered seen) (skeleton_numberedFrom val k f)

lemma operandValue_eq {q : Query} {t : ℕ} {y : Bool} (h : Positive q) (hv : ∀ column c, v (.test t column c) = y) :
    operandValue lib cvt v t q = y := by
  obtain ⟨b, hb, hy⟩ := reads_build lib cvt v h t
  rw [operandValue, operandClause, hb.disjunction.eval_eq]
  exact hy y hv

lemma numberedFrom_eq {f : Formula Query} {g : Formula Bool} {k : ℕ} (hf : ∀ q ∈ f.atoms, Positive q)
    (hg : g.skeleton = f.skeleton) (hv : ∀ i x, g.atoms[i]? = some x → ∀ column c, v (.test (k + i) column c) = x) :
    numberedFrom (operandValue lib cvt v) k f = g := by
  induction f generalizing g k with
  | atom q =>
    cases g <;> cases hg
    case atom x => exact congrArg Formula.atom (operandValue_eq (hf q (.head _)) (hv 0 x rfl))
  | group e ih =>
    cases g <;> simp only [Formula.skeleton, Formula.map, Formula.group.injEq, reduceCtorEq] at hg
    case group d =>
      rw [numberedFrom, ih hf hg hv]
  | atomThen q j rest ih =>
    cases g <;> simp only [Formula.skeleton, Formula.map, Formula.atomThen.injEq, true_and, reduceCtorEq] at hg
    case atomThen x j' tail =>
      obtain ⟨rfl, hg⟩ := hg
      have hq : operandValue lib cvt v k q = x := operandValue_eq (hf q (.head _)) (hv 0 x rfl)
      have hr := ih (k := k + 1) (fun q hq => hf q (.tail _ hq)) hg fun i x hi column c => by
        rw [Nat.add_assoc, Nat.add_comm 1]
        exact hv (i + 1) x hi column c
      rw [numberedFrom, hq, hr]
  | groupThen e j rest ih ih' =>
    cases g <;> simp only [Formula.skeleton, Formula.map, Formula.groupThen.injEq, reduceCtorEq] at hg
    case groupThen d j' tail =>
      obtain ⟨hd, rfl, ht⟩ := hg
      have hl : d.atoms.length = e.atoms.length := by
        simpa [atoms_map] using congrArg (fun f => f.atoms.length) hd
      have he := ih (k := k) (fun q hq => hf q (mem_append_left _ hq)) hd fun i x hi =>
        hv i x (by rw [Formula.atoms, List.getElem?_append_left (List.getElem?_eq_some_iff.mp hi).1, hi])
      have hr := ih' (k := k + e.atoms.length) (fun q hq => hf q (mem_append_right _ hq)) ht fun i x hi column c => by
        rw [Nat.add_assoc]
        refine hv (e.atoms.length + i) x ?_ column c
        rw [Formula.atoms, ← hl, List.getElem?_append_right (Nat.le_add_right _ _), Nat.add_sub_cancel_left, hi]
      rw [numberedFrom, he, hr]

lemma spells_convert (lib : Library) (cvt : Bool) {f : Formula Query} {ls : List Link} (h : Spells f ls) :
    Spells (f.map (convertQuery lib cvt)) (ls.map (convertLink lib cvt)) := by
  have hq {l : Link} {q : Query} (hl : l.body = .query q) :
      (convertLink lib cvt l).body = .query (convertQuery lib cvt q) := by
    simp only [convertLink, hl]
  have hm {l : Link} {b : Bool} (hl : l.body = .subQuery b) : convertLink lib cvt l = l := by
    simp only [convertLink, hl]
  have ho (l : Link) : (convertLink lib cvt l).op = l.op := by
    unfold convertLink
    split <;> rfl
  induction h with
  | atom hl => exact .atom (hq hl)
  | group hs hc _ ih =>
    rw [map_cons, map_append, map_singleton, hm hs, hm hc]
    exact .group hs hc ih
  | atomThen hl hj _ ih => exact .atomThen (hq hl) ((ho _).trans hj) ih
  | groupThen hs hc hj _ _ ih ih' =>
    rw [map_cons, map_append, map_cons, hm hs, hm hc]
    exact .groupThen hs hc hj ih ih'

def queries (lib : Library) (cvt : Bool) (f : Formula Ask) : Formula Query := f.map fun a => convertQuery lib cvt a.query

lemma queries_positive (f : Formula Ask) : ∀ q ∈ (queries lib cvt f).atoms, Positive q := by
  intro q hq
  rw [queries, atoms_map] at hq
  obtain ⟨a, -, rfl⟩ := mem_map.mp hq
  cases a <;> rfl

lemma buildConverted_spells (lib : Library) (cvt : Bool) (f : Formula Ask) :
    ∃ chain, buildConverted lib cvt f.tokens = .ok chain ∧ Spells (queries lib cvt f) chain := by
  obtain ⟨ls, hl, -, hs⟩ := f.writes (z := []) rfl (by simp [Calm])
  have hb : buildChain f.tokens = .ok ls := by
    rw [hl.buildChain]
    simp
  refine ⟨ls.map (convertLink lib cvt), by rw [buildConverted, hb]; rfl, ?_⟩
  have hc := spells_convert lib cvt hs
  rwa [map_map] at hc

/-- Whatever the tests come to, the condition has the value that the chain has from left to right, with the truth
values of the operands' own conditions. -/
def SameReading (lib : Library) (cvt : Bool) (idx : Text) (f : Formula Ask) : Prop :=
  ∃ chain e w, buildConverted lib cvt f.tokens = .ok chain ∧
    execute lib cvt idx chain = .ok e ∧ condition e.tNum e.query.queryStrs = .ok w ∧
    ∀ v, Reads v .disjunction (tokensOf w) (leftValue (operandValue lib cvt v) chain)

lemma exists_readings (lib : Library) (cvt : Bool) (idx : Text) (f : Formula Ask) :
    ∃ chain e w, buildConverted lib cvt f.tokens = .ok chain ∧
      execute lib cvt idx chain = .ok e ∧ condition e.tNum e.query.queryStrs = .ok w ∧
      ∀ v, Reads v .disjunction (tokensOf w)
          ((numberedFrom (operandValue lib cvt v) 0 (queries lib cvt f)).read true .none) ∧
        leftValue (operandValue lib cvt v) chain =
          (numberedFrom (operandValue lib cvt v) 0 (queries lib cvt f)).read false .none := by
  obtain ⟨chain, hc, hs⟩ := buildConverted_spells lib cvt f
  obtain ⟨e, he, hw⟩ := execute_spells lib cvt hs (queries_positive f) idx
  refine ⟨chain, e, _, hc, he, hw, fun v => ⟨?_, leftValue_spells hs⟩⟩
  rw [tokensOf_intercalate]
  exact reads_formula (queries_positive f) 0 (s := .none) .nil

def testsOf (g : Formula Bool) : Piece → Bool
  | .test k _ _ => g.atoms[k]?.getD false
  | _ => false

lemma exists_split (lib : Library) (cvt : Bool) {f : Formula Ask} (h : f.ordered false = false) :
    ∃ v, (numberedFrom (operandValue lib cvt v) 0 (queries lib cvt f)).read true .none = true ∧
      (numberedFrom (operandValue lib cvt v) 0 (queries lib cvt f)).read false .none = false := by
  rw [← ordered_map (fun a => convertQuery lib cvt a.query)] at h
  obtain ⟨g, hg, hr, hr'⟩ := splits_of_unordered h
  have hn : numberedFrom (operandValue lib cvt (testsOf g)) 0 (queries lib cvt f) = g := by
    refine numberedFrom_eq (queries_positive f) hg fun i x hi column c => ?_
    simp only [testsOf, Nat.zero_add, hi, getD_some]
  exact ⟨testsOf g, by rw [hn, hr], by rw [hn, hr']⟩

/-- The two back ends read a query alike exactly if no level of it has an `AND` after an `OR`. -/
theorem sameReading_iff (lib : Library) (cvt : Bool) (idx : Text) (f : Formula Ask) :
    SameReading lib cvt idx f ↔ f.ordered false = true := by
  obtain ⟨chain, e, w, hc, he, hw, hv⟩ := exists_readings lib cvt idx f
  constructor
  · rintro ⟨chain', e', w', hc', he', hw', h⟩
    obtain rfl := Except.ok.inj (hc.symm.trans hc')
    obtain rfl := Except.ok.inj (he.symm.trans he')
    obtain rfl := Except.ok.inj (hw.symm.trans hw')
    by_contra hf
    obtain ⟨v, hr, hr'⟩ := exists_split lib cvt (Bool.not_eq_true _ ▸ hf)
    have hs := (h v).eval_eq.symm.trans (hv v).1.eval_eq
    rw [(hv v).2, hr, hr'] at hs
    cases hs
  · intro hf
    refine ⟨chain, e, w, hc, he, hw, fun v => ?_⟩
    have ho : (numberedFrom (operandValue lib cvt v) 0 (queries lib cvt f)).ordered false = true := by
      rw [ordered_numberedFrom, queries, ordered_map, hf]
    rw [(hv v).2, ← read_eq_of_ordered ho fun _ => rfl]
    exact (hv v).1

def oneTerm (f : Char) : Ask := .term (letter f) (letter '1')

theorem or_and_readings_differ : ∃ chain e w, Accepts asciiLibrary "a:1 OR b:1 AND c:1"
        (Formula.atomThen (oneTerm 'a') .or (.atomThen (oneTerm 'b') .and (.atom (oneTerm 'c')))).tokens ∧
      buildConverted asciiLibrary false
        (Formula.atomThen (oneTerm 'a') .or (.atomThen (oneTerm 'b') .and (.atom (oneTerm 'c')))).tokens = .ok chain ∧
      execute asciiLibrary false "node" chain = .ok e ∧ condition e.tNum e.query.queryStrs = .ok w ∧
      ∃ v, Reads v .disjunction (tokensOf w) true ∧ leftValue (operandValue asciiLibrary false v) chain = false := by
  obtain ⟨chain, e, w, hc, he, hw, hv⟩ := exists_readings asciiLibrary false "node"
    (.atomThen (oneTerm 'a') .or (.atomThen (oneTerm 'b') .and (.atom (oneTerm 'c'))))
  obtain ⟨v, hr, hr'⟩ := exists_split asciiLibrary false
    (f := .atomThen (oneTerm 'a') .or (.atomThen (oneTerm 'b') .and (.atom (oneTerm 'c')))) rfl
  refine ⟨chain, e, w, ⟨100, by decide +kernel⟩, hc, he, hw, v, ?_, (hv v).2.trans hr'⟩
  rw [← hr]
  exact (hv v).1

end

end Postgres

end Goiardi.Search
