import Goiardi.Search.Build
import Goiardi.Search.Prepared

/-! The shape of a query chain: all that the text of its SQL statement depends on. -/

namespace Goiardi.Search

open List Link

section

def Takes (P : Token → Prop) (ts : Tokens) (Q : Token → Prop) : Prop :=
  ∀ x x', ts.foldlM Execution.step x = .ok x' → P x.token → Q x'.token

variable {P Q R : Token → Prop} {a b : Tokens}

lemma Takes.append (h : Takes P a Q) (h' : Takes Q b R) : Takes P (a ++ b) R := by
  intro x x' hx hP
  rw [foldlM_append] at hx
  obtain ⟨y, hy, hx⟩ := bind_ok hx
  exact h' y x' hx (h x y hy hP)

lemma takes_nil : Takes P [] P := by
  intro x x' hx hP
  cases hx
  exact hP

variable {c : Action} {z z' : Token} {f : Link → Link}

lemma takes_action (h : ∀ text z z', c.run text z = .ok z' → P z → Q z') : Takes P [.action c] Q := by
  intro x x' hx hP
  simp only [foldlM_cons, foldlM_nil, Execution.step] at hx
  obtain ⟨y, hy, hx⟩ := bind_ok hx
  obtain ⟨z, hz, hy⟩ := bind_ok hy
  cases hy
  cases hx
  exact h _ _ _ hz hP

lemma takes_text {w : Text} (h : ∀ z z', c.run w z = .ok z' → P z → Q z') : Takes P [.text w, .action c] Q := by
  intro x x' hx hP
  simp only [foldlM_cons, foldlM_nil, Execution.step, ok_bind] at hx
  obtain ⟨y, hy, hx⟩ := bind_ok hx
  obtain ⟨z, hz, hy⟩ := bind_ok hy
  cases hy
  cases hx
  exact h _ _ hz hP

def Link.Filled (l : Link) : Prop :=
  match l.body with
  | .query (.basic _ term _) => term.term ≠ []
  | _ => True

def Sound (z : Token) : Prop := ∀ l ∈ z, l.Filled

def Open (z : Token) : Prop := ∃ l w, z = l :: w ∧ l.isIncomplete = true ∧ Sound w

lemma Sound.cons {z : Token} {l : Link} (hz : Sound z) (hl : l.Filled) : Sound (l :: z) :=
  forall_mem_cons.mpr ⟨hl, hz⟩

lemma Sound.onLatest (hz : Sound z) (hf : ∀ l, l.Filled → (f l).Filled) (h : z.onLatest f = .ok z') : Sound z' := by
  cases z with
  | nil => cases h
  | cons l z =>
    cases h
    obtain ⟨hl, hz⟩ := forall_mem_cons.mp hz
    exact Sound.cons hz (hf l hl)

lemma Open.onLatest (hz : Open z) (hf : ∀ l, (f l).isIncomplete = l.isIncomplete)
    (h : z.onLatest f = .ok z') : Open z' := by
  obtain ⟨l, w, rfl, hl, hw⟩ := hz
  cases h
  exact ⟨f l, w, rfl, (hf l).trans hl, hw⟩

lemma Sound.startBasic {z : Token} (hz : Sound z) : Open z.startBasic := by
  rw [Token.startBasic]
  split
  · exact ⟨_, z, rfl, rfl, hz⟩
  · next h =>
    cases z with
    | nil => exact absurd rfl h
    | cons l z => exact ⟨l, z, rfl, by simpa [Token.settled] using h, (forall_mem_cons.mp hz).2⟩

lemma Open.startBasic {z : Token} (hz : Open z) : z.startBasic = z := by
  obtain ⟨l, w, rfl, hl, -⟩ := hz
  simp [Token.startBasic, Token.settled, hl]

lemma Link.addTerm_filled (w : Word) (l : Link) : (l.addTerm w).Filled := by
  unfold addTerm
  split
  · exact w.2
  · trivial
  · dsimp only [Link.Filled]
    split_ifs <;> trivial
  · next h => simp only [Link.Filled, h]
  · next h => simp only [Link.Filled, h]

lemma Link.addField_filled (s : Text) (l : Link) (hl : l.Filled) : (l.addField s).Filled := by
  unfold addField
  split
  · next h => simpa only [Link.Filled, h] using hl
  · trivial
  · trivial
  · exact hl
  · exact hl

lemma Link.setCompleted_filled (l : Link) (hl : l.Filled) : l.setCompleted.Filled := by
  unfold setCompleted
  split
  · next h => simpa only [Link.Filled, h] using hl
  · trivial
  · exact hl
  · exact hl
  · exact hl

lemma Link.isIncomplete_addField (s : Text) (l : Link) : (l.addField s).isIncomplete = l.isIncomplete := by
  unfold addField
  split
  · next h => simp only [isIncomplete, h]
  · next h => simp only [isIncomplete, h]
  · next h => simp only [isIncomplete, h]
  · rfl
  · rfl

lemma Link.isIncomplete_addTermOp (o : Op) (l : Link) : (l.addTermOp o).isIncomplete = l.isIncomplete := by
  unfold addTermOp
  split
  · next h => simp only [isIncomplete, h]
  · next h => simp only [isIncomplete, h]
  · rfl
  · rfl
  · rfl

lemma Open.addTerm {w : Word} (hz : Open z.startBasic) (h : z.addTerm w = .ok z') : Sound z' := by
  rw [Token.addTerm] at h
  obtain ⟨l, v, hl, -, hv⟩ := hz
  rw [hl] at h
  cases h
  exact hv.cons (l.addTerm_filled w)

lemma takes_term (w : Word) : Takes Sound (termTokens w) Sound :=
  takes_text fun _ _ h hz => Open.addTerm hz.startBasic h

lemma takes_term_open (w : Word) : Takes Open (termTokens w) Sound := by
  refine takes_text fun z z' h hz => Open.addTerm ?_ h
  rwa [hz.startBasic]

lemma takes_words (ws : List Word) : Takes Sound (ws.flatMap termTokens) Sound := by
  induction ws with
  | nil => exact takes_nil
  | cons w ws ih => exact (takes_term w).append ih

lemma Value.takes (v : Value) : Takes Sound v.tokens Sound := takes_words v.words

lemma Value.takes_open (v : Value) : Takes Open v.tokens Sound := by
  cases hw : v.words with
  | nil => exact absurd hw v.words_ne_nil
  | cons w ws =>
    rw [Value.tokens, hw]
    exact (takes_term_open w).append (takes_words ws)

lemma takes_field (f : Word) : Takes Sound (fieldTokens f) Sound :=
  takes_text fun _ _ h hz => hz.onLatest (addField_filled f) h

lemma takes_range (w : Word) : Takes Sound [.text w, .action .addRange] Sound :=
  takes_text fun _ _ h hz => hz.onLatest (fun l _ => l.addTerm_filled w) h

lemma takes_addOp (o : Op) : Takes Sound [.action (.addOp o)] Sound :=
  takes_action fun _ _ _ h hz => hz.onLatest (f := addOp o) (fun _ hl => hl) h

lemma takes_setNotQuery (o : Op) : Takes Sound [.action (.setNotQuery o)] Sound := by
  refine takes_action fun _ z z' h hz => ?_
  cases h
  exact hz.cons trivial

lemma takes_field_open (f : Word) : Takes Open (fieldTokens f) Open :=
  takes_text fun _ _ h hz => hz.onLatest (isIncomplete_addField f) h

lemma takes_startBasic : Takes Sound [.action .startBasic] Open := by
  refine takes_action fun _ z z' h hz => ?_
  cases h
  exact hz.startBasic

lemma takes_startRange (inclusive : Bool) : Takes Sound [.action (.startRange inclusive)] Sound := by
  refine takes_action fun _ z z' h hz => ?_
  cases h
  cases z <;> exact hz.cons trivial

lemma takes_start (body : Body) {op : Op} (hb : Link.Filled ⟨body, op, none⟩)
    (h : ∀ text z, c.run text z = .ok (if z.settled then z.append body op else z)) : Takes Sound [.action c] Sound := by
  refine takes_action fun text z z' hz hs => ?_
  rw [h] at hz
  cases hz
  split
  · exact hs.cons hb
  · exact hs

lemma takes_neg (neg : Option Negation) : Takes Sound (negTokens neg) Sound := by
  cases neg with
  | none => exact takes_nil
  | some n => exact takes_setNotQuery n.op

lemma takes_join (join : Option Joiner) : Takes Sound (joinTokens join) Sound := by
  cases join with
  | none => exact takes_nil
  | some j => exact takes_addOp j.op

lemma takes_group (h : Takes Sound a Sound) : Takes Sound (groupTokens a) Sound :=
  ((takes_start (.subQuery true) trivial fun _ _ => rfl).append h).append
    (takes_start (.subQuery false) trivial fun _ _ => rfl)

lemma takes_fieldGroup (f : Word) (h : Takes Sound a Sound) : Takes Sound (fieldGroupTokens f a) Sound :=
  (((takes_start (.query (.grouped [] [] false)) trivial fun _ _ => rfl).append (takes_field f)).append
    (takes_group h)).append (takes_action fun _ _ _ h hz => hz.onLatest setCompleted_filled h)

lemma Operand.takes (o : Operand) : Takes Sound o.tokens Sound := by
  cases o with
  | value v => exact v.takes
  | basic f v => exact (takes_startBasic.append (takes_field_open f)).append v.takes_open
  | range inclusive f start stop =>
    exact ((takes_startRange inclusive).append (takes_field f)).append ((takes_range start).append (takes_range stop))

lemma Phrase.takes (p : Phrase) : Takes Sound p.tokens Sound := by
  induction p with
  | nil => exact takes_nil
  | operand neg o join rest ih => exact (((takes_neg neg).append o.takes).append (takes_join join)).append ih
  | required v rest ih =>
    have ho : Takes Sound [.action (.addTermOp .unaryReq)] Open :=
      takes_action fun _ _ _ h hz => hz.startBasic.onLatest (isIncomplete_addTermOp .unaryReq) h
    exact (ho.append v.takes_open).append ih
  | weighted w v param rest ih => exact (v.takes.append ((takes_addOp w.op).append (by cases param; exacts [takes_nil, takes_term _]))).append ih
  | fieldGroup neg f inner join rest ih ih' =>
    exact (((takes_neg neg).append (takes_fieldGroup f ih)).append (takes_join join)).append ih'
  | group inner join rest ih ih' => exact ((takes_group ih).append (takes_join join)).append ih'
  | notGroup inner rest ih ih' => exact (takes_group ((takes_setNotQuery .unaryNot).append ih)).append ih'

theorem Accepts.filled {lib : Library} {query : Text} {ts : Tokens} {chain : List Link} (h : Accepts lib query ts)
    (hc : buildChain ts = .ok chain) : ∀ l ∈ chain, l.Filled := by
  obtain ⟨p, rfl⟩ := h.exists_phrase
  obtain ⟨x, hx, hc⟩ := bind_ok hc
  cases hc
  intro l hl
  refine p.takes _ _ hx ?_ l (mem_reverse.mp hl)
  exact forall_mem_nil _

end

namespace Postgres

section

variable (lib : Library) (cvt : Bool)

def convertField (field : Text) : Text := if cvt then pgSearchQueryKey lib cvt field else field

def convertQuery : Query → Query
  | .basic field term complete => .basic (convertField lib cvt field) term complete
  | .grouped field terms complete => .grouped (convertField lib cvt field) terms complete
  | .range field start stop inclusive negated =>
    .range (convertField lib cvt field) start stop inclusive negated

def convertLink (l : Link) : Link :=
  match l.body with
  | .query q => { l with body := .query (convertQuery lib cvt q) }
  | .subQuery _ | .notQuery => l

/-- The chain with `AddField` converting each field as it comes. No action of the parser looks at a field. -/
def buildConverted (tokens : Tokens) : Except Panic (List Link) := do
  let chain ← buildChain tokens
  return chain.map (convertLink lib cvt)

variable {lib cvt}

lemma convertLink_filled {l : Link} (h : l.Filled) : (convertLink lib cvt l).Filled := by
  unfold convertLink
  cases hl : l.body with
  | query q =>
    cases q with
    | basic field term complete => simpa only [Link.Filled, convertQuery, hl] using h
    | grouped => trivial
    | range => trivial
  | subQuery => exact h
  | notQuery => exact h

lemma buildConverted_filled {query : Text} {ts : Tokens} {chain : List Link} (h : Accepts lib query ts)
    (hc : buildConverted lib cvt ts = .ok chain) : ∀ l ∈ chain, l.Filled := by
  obtain ⟨built, hb, hc⟩ := bind_ok hc
  cases hc
  intro l hl
  obtain ⟨m, hm, rfl⟩ := mem_map.mp hl
  exact convertLink_filled (h.filled hb m hm)

end

section

inductive QueryShape
  | basic (fieldless lone wildcard negated noAltPath : Bool)
  | grouped (terms : List (Bool × Op))
  | range (startWild stopWild reversed inclusive negated : Bool)
deriving DecidableEq

inductive BodyShape
  | query (q : QueryShape)
  | subQuery (start : Bool)
  | notQuery
deriving DecidableEq

structure LinkShape where
  body : BodyShape
  op : Op
deriving DecidableEq

variable (lib : Library) (cvt : Bool) (lone : Text → Bool)

/-- `lone` says which terms stand for every value. -/
def queryShape : Query → QueryShape
  | .basic field term _ =>
    .basic (field = []) (lone term.term) (hasWildcard term.term) term.mod.negates
      (craftAltQueryPath lib cvt field term.term = [])
  | .grouped _ terms _ => .grouped (terms.map fun v => (hasWildcard v.term, v.mod))
  | .range _ start stop inclusive negated => .range (start = ['*']) (stop = ['*']) (stop < start) inclusive negated

def bodyShape : Body → BodyShape
  | .query q => .query (queryShape lib cvt lone q)
  | .subQuery start => .subQuery start
  | .notQuery => .notQuery

def linkShape (l : Link) : LinkShape := ⟨bodyShape lib cvt lone l.body, l.op⟩

/-- The shape of a chain: its links and operators, with nothing of the texts but which fields and alternative paths are
empty, which terms and bounds are a lone `*`, which terms have wildcards, and how the bounds of a range are ordered. -/
def shape (chain : List Link) : List LinkShape := chain.map (linkShape lib cvt fun t => t = ['*'])

end

section

variable {lib : Library} {cvt : Bool}

/-- The test of `buildBasicQuery`. -/
def isBare (t : Text) : Bool := t = ['*'] ∨ t = []

lemma linkShape_bare {l : Link} (h : l.Filled) :
    linkShape lib cvt isBare l = linkShape lib cvt (fun t => t = ['*']) l := by
  unfold linkShape
  congr 1
  unfold Link.Filled at h
  split at h
  · next field term complete hl =>
    rw [hl]
    simp [bodyShape, queryShape, isBare, h]
  · next hb =>
    cases hl : l.body with
    | query q =>
      cases q with
      | basic field term complete => exact absurd hl (hb field term complete)
      | grouped => rfl
      | range => rfl
    | subQuery => rfl
    | notQuery => rfl

def shapeOp (wildcard negated : Bool) : Comparison :=
  if wildcard then (if negated then .notLike else .like) else (if negated then .unequal else .equal)

lemma matchOp_fst (v : QueryTerm) : (matchOp v).1 = shapeOp (hasWildcard v.term) v.mod.negates := by
  unfold matchOp shapeOp
  split <;> rfl

def callView (lib : Library) (cvt : Bool) (c : Call) : Clause × ℕ × ℕ :=
  ((c.built lib cvt).clause, (c.built lib cvt).tNum, (c.paths lib cvt).length)

variable {t : ℕ} {op : Op}

lemma callView_basic {field field' : Text} {term term' : QueryTerm} {complete complete' : Bool}
    (h : queryShape lib cvt isBare (.basic field term complete) =
      queryShape lib cvt isBare (.basic field' term' complete')) :
    callView lib cvt ⟨.basic field term complete, t, op⟩ = callView lib cvt ⟨.basic field' term' complete', t, op⟩ := by
  simp only [queryShape, QueryShape.basic.injEq, decide_eq_decide] at h
  obtain ⟨hf, hl, hw, hn, ha⟩ := h
  have hop : (matchOp term).1 = (matchOp term').1 := by rw [matchOp_fst, matchOp_fst, hw, hn]
  simp only [isBare, decide_eq_decide] at hl
  simp only [callView, Call.paths, Call.built, build, buildBasicQuery, ownPath, hop, hn, hl, hf]
  by_cases hb : term'.term = ['*'] ∨ term'.term = []
  · simp only [hb, if_true]
    split <;> rfl
  · by_cases he : field' = []
    · simp only [hb, he, if_true, if_false]
    · simp only [hb, he, if_false, ha]
      split <;> split <;> rfl

lemma callView_grouped {field field' : Text} {terms terms' : List QueryTerm} {complete complete' : Bool}
    (h : queryShape lib cvt isBare (.grouped field terms complete) =
      queryShape lib cvt isBare (.grouped field' terms' complete')) :
    callView lib cvt ⟨.grouped field terms complete, t, op⟩ =
      callView lib cvt ⟨.grouped field' terms' complete', t, op⟩ := by
  have hs : terms.map (fun v => (hasWildcard v.term, v.mod)) = terms'.map fun v => (hasWildcard v.term, v.mod) :=
    QueryShape.grouped.inj h
  have hg (ts : List QueryTerm) : ts.map (fun v => (Piece.test t .value (matchOp v).1, v.mod)) =
      (ts.map fun v => (hasWildcard v.term, v.mod)).map fun s => (Piece.test t .value (shapeOp s.1 s.2.negates), s.2) := by
    rw [map_map]
    exact map_congr_left fun v _ => by rw [matchOp_fst]; rfl
  have hp (ts : List QueryTerm) : ts.mapIdx (fun i v => (Piece.test (t + (i + 1)) .path .pathMatch, v.mod)) =
      (ts.map fun v => (hasWildcard v.term, v.mod)).mapIdx fun i s => (Piece.test (t + (i + 1)) .path .pathMatch, s.2) := by
    exact ext_getElem? fun i => by simp [Function.comp_def]
  have hl : terms.length = terms'.length := by simpa using congrArg List.length hs
  simp only [callView, Call.paths, Call.built, build, buildGroupedQuery, ownPath, hg, hp, hs, hl]
  simp [dotStar]

lemma rangeBounds_snd {start stop start' stop' : Text} (inclusive : Bool) (h : start = ['*'] ↔ start' = ['*'])
    (h' : stop = ['*'] ↔ stop' = ['*']) :
    (rangeBounds start stop inclusive).map Prod.snd = (rangeBounds start' stop' inclusive).map Prod.snd := by
  unfold rangeBounds
  simp only [ne_eq, h, h']
  split <;> split <;> rfl

lemma rangeClause_congr {bounds bounds' : List (Text × Comparison × Comparison)} {negated : Bool}
    (h : bounds.map Prod.snd = bounds'.map Prod.snd) :
    rangeClause bounds t op negated = rangeClause bounds' t op negated := by
  have hr (bs : List (Text × Comparison × Comparison)) : bs.map (fun b => [Piece.test t .value b.2.1]) =
      (bs.map Prod.snd).map fun c => [Piece.test t .value c.1] := by
    rw [map_map]
    rfl
  have hp (bs : List (Text × Comparison × Comparison)) : bs.map (fun b => [Piece.test t .path b.2.2]) =
      (bs.map Prod.snd).map fun c => [Piece.test t .path c.2] := by
    rw [map_map]
    rfl
  have he : bounds = [] ↔ bounds' = [] := by
    rw [← map_eq_nil_iff (f := Prod.snd), h, map_eq_nil_iff]
  simp only [rangeClause, hr, hp, h, he]

lemma callView_range {field field' start start' stop stop' : Text} {inclusive inclusive' negated negated' : Bool}
    (h : queryShape lib cvt isBare (.range field start stop inclusive negated) =
      queryShape lib cvt isBare (.range field' start' stop' inclusive' negated')) :
    callView lib cvt ⟨.range field start stop inclusive negated, t, op⟩ =
      callView lib cvt ⟨.range field' start' stop' inclusive' negated', t, op⟩ := by
  simp only [queryShape, QueryShape.range.injEq, decide_eq_decide] at h
  obtain ⟨hs, hp, ho, rfl, rfl⟩ := h
  have hb : (if stop < start then rangeBounds stop start inclusive else rangeBounds start stop inclusive).map Prod.snd =
      (if stop' < start' then rangeBounds stop' start' inclusive else rangeBounds start' stop' inclusive).map
        Prod.snd := by
    simp only [ho]
    split
    · exact rangeBounds_snd inclusive hp hs
    · exact rangeBounds_snd inclusive hs hp
  simp only [callView, Call.paths, Call.built, build, buildRangeQuery, ownPath, rangeClause_congr hb]
  simp [dotStar]

lemma callView_congr {q q' : Query} (h : queryShape lib cvt isBare q = queryShape lib cvt isBare q') :
    callView lib cvt ⟨q, t, op⟩ = callView lib cvt ⟨q', t, op⟩ := by
  cases q <;> cases q'
  case basic.basic => exact callView_basic h
  case grouped.grouped => exact callView_grouped h
  case range.range => exact callView_range h
  all_goals cases h

end

section

variable {lib : Library} {cvt : Bool}

lemma map_bind_congr {ε α β γ δ : Type} {x x' : Except ε α} {v : α → γ} {g g' : α → Except ε β} {w : β → δ}
    (h : x.map v = x'.map v) (hg : ∀ a a', v a = v a' → (g a).map w = (g' a').map w) :
    (x >>= g).map w = (x' >>= g').map w := by
  cases x <;> cases x'
  case error.error => exact congrArg Except.error (Except.error.inj h)
  case ok.ok => exact hg _ _ (Except.ok.inj h)
  all_goals cases h

def PgQuery.view (pq : PgQuery) : List Clause × ℕ := (pq.queryStrs, pq.paths.length)

variable (lib cvt) in
def bareShape (chain : List Link) : List LinkShape := chain.map (linkShape lib cvt isBare)

variable (lib cvt) in
def walkView (w : PgQuery × ℕ × List Link) : (List Clause × ℕ) × ℕ × List LinkShape :=
  (w.1.view, w.2.1, bareShape lib cvt w.2.2)

variable {pq pq' np np' : PgQuery} {t : ℕ} {op : Op} {chain chain' : List Link}

lemma view_add {q q' : Query} (h : pq.view = pq'.view)
    (hq : queryShape lib cvt isBare q = queryShape lib cvt isBare q') :
    (pq.add lib cvt ⟨q, t, op⟩).view = (pq'.add lib cvt ⟨q', t, op⟩).view := by
  obtain ⟨hs, hp⟩ := Prod.ext_iff.mp h
  have hc : callView lib cvt ⟨q, t, op⟩ = callView lib cvt ⟨q', t, op⟩ := callView_congr hq
  simp only [PgQuery.view, callView, Prod.mk.injEq] at hs hp hc ⊢
  simp only [PgQuery.add, length_append, hs, hp, hc, and_self]

lemma view_addGroup (h : pq.view = pq'.view) (hn : np.view = np'.view) :
    (pq.addGroup op np).view = (pq'.addGroup op np').view := by
  obtain ⟨hs, hp⟩ := Prod.ext_iff.mp h
  obtain ⟨hs', hp'⟩ := Prod.ext_iff.mp hn
  simp only [PgQuery.view] at hs hp hs' hp' ⊢
  simp only [PgQuery.addGroup, length_append, hs, hp, hs', hp']

def LinkShape.depth (s : LinkShape) (n : ℕ) : ℕ :=
  match s.body with
  | .subQuery true => n + 1
  | .subQuery false => n - 1
  | _ => n

lemma LinkShape.depth_eq (lib : Library) (cvt : Bool) (l : Link) (n : ℕ) :
    (linkShape lib cvt isBare l).depth n = Link.depth l n := by
  unfold LinkShape.depth Link.depth linkShape
  cases hl : l.body with
  | query q => rfl
  | subQuery start => cases start <;> rfl
  | notQuery => rfl

variable (lib cvt) in
def partsView (parts : List Link × Link × List Link) : List LinkShape × LinkShape × List LinkShape :=
  (bareShape lib cvt parts.1, linkShape lib cvt isBare parts.2.1,
    bareShape lib cvt parts.2.2)

lemma extractSubQuery_congr (h : bareShape lib cvt chain = bareShape lib cvt chain') :
    (extractSubQuery chain).map (partsView lib cvt) = (extractSubQuery chain').map (partsView lib cvt) := by
  have hc := (Brackets.closing_map (LinkShape.depth_eq lib cvt) 1 chain).symm.trans
    ((congrArg _ h).trans (Brackets.closing_map (LinkShape.depth_eq lib cvt) 1 chain'))
  cases chain with
  | nil =>
    cases chain' with
    | nil => rfl
    | cons l' chain' => cases h
  | cons l chain =>
    cases chain' with
    | nil => cases h
    | cons l' chain' =>
      rw [extractSubQuery, extractSubQuery]
      cases hx : Brackets.closing Link.depth 1 (l :: chain) <;>
        cases hx' : Brackets.closing Link.depth 1 (l' :: chain') <;> simp only [hx, hx'] at hc
      case none.none => rfl
      case some.some => exact congrArg Except.ok (Option.some.inj hc)
      all_goals cases hc

lemma craftFullQuery_congr {idx idx' : Text} (hi : itemsStatement idx = itemsStatement idx') (h : pq.view = pq'.view) :
    (craftFullQuery idx pq t).map Prod.fst = (craftFullQuery idx' pq' t).map Prod.fst := by
  obtain ⟨hs, hp⟩ := Prod.ext_iff.mp h
  simp only [PgQuery.view] at hs hp
  unfold craftFullQuery
  rw [hs, hp]
  refine map_bind_congr (v := id) rfl ?_
  rintro w - rfl
  simp only [withStatement, hi]
  rfl

lemma walkView_cons {a a' : PgQuery} {u u' : ℕ} {w w' : List Link} {l l' : Link}
    (h : walkView lib cvt (a, u, w) = walkView lib cvt (a', u', w'))
    (hl : linkShape lib cvt isBare l = linkShape lib cvt isBare l') :
    walkView lib cvt (a, u, l :: w) = walkView lib cvt (a', u', l' :: w') := by
  simp only [walkView, bareShape, Prod.mk.injEq] at h
  simp only [walkView, bareShape, map_cons, h, hl]

lemma executeFrom_congr (n : ℕ) (op : Op) (t : ℕ) (h : pq.view = pq'.view)
    (hc : bareShape lib cvt chain = bareShape lib cvt chain') :
    (executeFrom lib cvt n op t pq chain).map (walkView lib cvt) =
      (executeFrom lib cvt n op t pq' chain').map (walkView lib cvt) := by
  induction n generalizing op t pq pq' chain chain' with
  | zero =>
    cases chain <;> cases chain'
    case nil.nil => exact congrArg Except.ok (by simp [walkView, h])
    case cons.cons => exact congrArg Except.ok (by simp [walkView, h, hc])
    all_goals cases hc
  | succ n ih =>
    cases chain <;> cases chain'
    case nil.nil => exact congrArg Except.ok (by simp [walkView, h])
    case cons.cons l chain l' chain' =>
      obtain ⟨hl, hc⟩ := cons_eq_cons.mp hc
      have hb : bodyShape lib cvt isBare l.body = bodyShape lib cvt isBare l'.body :=
        congrArg LinkShape.body hl
      have ho : l.op = l'.op := congrArg LinkShape.op hl
      rw [executeFrom, executeFrom]
      cases hlb : l.body <;> cases hl' : l'.body <;> simp only [hlb, hl'] at hb ⊢
      case query.query q q' =>
        have hq := BodyShape.query.inj hb
        have ht : (Call.built lib cvt ⟨q, t, op⟩).tNum = (Call.built lib cvt ⟨q', t, op⟩).tNum :=
          congrArg (fun v => v.2.1) (callView_congr hq)
        rw [ho, ht]
        refine map_bind_congr (ih _ _ (view_add h hq) hc) ?_
        rintro ⟨a, u, w⟩ ⟨a', u', w'⟩ hv
        exact congrArg Except.ok (walkView_cons hv hl)
      case subQuery.subQuery start start' =>
        refine map_bind_congr (extractSubQuery_congr hc) ?_
        rintro ⟨inner, nend, after⟩ ⟨inner', nend', after'⟩ hv
        simp only [partsView, Prod.mk.injEq] at hv
        obtain ⟨hi, he, ha⟩ := hv
        have hn : inner = [] ↔ inner' = [] := by
          rw [← map_eq_nil_iff (f := linkShape lib cvt isBare), ← bareShape, hi, bareShape,
            map_eq_nil_iff]
        have heo : nend.op = nend'.op := congrArg LinkShape.op he
        simp only [hn, heo]
        split
        · have hcn : bareShape lib cvt (nend :: after) = bareShape lib cvt (nend' :: after') :=
            congrArg₂ List.cons he ha
          refine map_bind_congr (ih _ _ rfl hcn) ?_
          rintro ⟨np, u, w⟩ ⟨np', u', w'⟩ hv
          simp only [walkView, Prod.mk.injEq] at hv
          obtain ⟨hnp, rfl, hw⟩ := hv
          refine map_bind_congr (craftFullQuery_congr rfl hnp) ?_
          intro _ _ _
          have htl : bareShape lib cvt w.tail = bareShape lib cvt w'.tail := by
            simp only [bareShape, map_tail] at hw ⊢
            rw [hw]
          refine map_bind_congr (ih _ _ (view_addGroup h hnp) htl) ?_
          rintro ⟨a, v, x⟩ ⟨a', v', x'⟩ hv
          simp only [walkView, Prod.mk.injEq] at hv
          exact congrArg Except.ok (by simp only [walkView, bareShape, map_cons, map_nil, hv, hl])
        · refine map_bind_congr (ih _ _ rfl hi) ?_
          rintro ⟨np, u, w⟩ ⟨np', u', w'⟩ hv
          simp only [walkView, Prod.mk.injEq] at hv
          obtain ⟨hnp, rfl, hw⟩ := hv
          refine map_bind_congr (craftFullQuery_congr rfl hnp) ?_
          intro _ _ _
          refine map_bind_congr (ih _ _ (view_addGroup h hnp) ha) ?_
          rintro ⟨a, v, x⟩ ⟨a', v', x'⟩ hv
          simp only [walkView, Prod.mk.injEq] at hv
          exact congrArg Except.ok (walkView_cons (by simp only [walkView, hv, hw]) hl)
      case notQuery.notQuery =>
        refine map_bind_congr (ih _ _ h hc) ?_
        rintro ⟨a, u, w⟩ ⟨a', u', w'⟩ hv
        refine congrArg Except.ok (walkView_cons hv ?_)
        simp only [linkShape, addOp, hlb, hl']
      all_goals cases hb
    all_goals cases hc

def SameIndex (idx idx' : Text) : Prop := idx = idx' ∨ builtinIndex idx = false ∧ builtinIndex idx' = false

lemma SameIndex.itemsStatement_eq {idx idx' : Text} (h : SameIndex idx idx') :
    itemsStatement idx = itemsStatement idx' := by
  rcases h with rfl | ⟨h, h'⟩
  · rfl
  · simp only [itemsStatement, h, h', Bool.false_eq_true, if_false]

lemma bareShape_eq {chain : List Link} (h : ∀ l ∈ chain, l.Filled) : bareShape lib cvt chain = shape lib cvt chain :=
  map_congr_left fun l hl => linkShape_bare (h l hl)

/-- The statement of an accepted query depends on the shape of its chain only. -/
theorem fullQuery_shape (lib : Library) (cvt : Bool) {query query' idx idx' : Text} {ts ts' : Tokens}
    {chain chain' : List Link} (h : Accepts lib query ts) (hc : buildConverted lib cvt ts = .ok chain)
    (h' : Accepts lib query' ts') (hc' : buildConverted lib cvt ts' = .ok chain')
    (hs : shape lib cvt chain = shape lib cvt chain') (hi : SameIndex idx idx') :
    (execute lib cvt idx chain).map Executed.fullQuery = (execute lib cvt idx' chain').map Executed.fullQuery := by
  rw [← bareShape_eq (buildConverted_filled h hc), ← bareShape_eq (buildConverted_filled h' hc')] at hs
  have hn : chain.length = chain'.length := by simpa [bareShape] using congrArg List.length hs
  unfold execute
  rw [hn]
  refine map_bind_congr (executeFrom_congr _ _ _ rfl hs) ?_
  rintro ⟨pq, t, w⟩ ⟨pq', t', w'⟩ hv
  simp only [walkView, Prod.mk.injEq] at hv
  obtain ⟨hpq, rfl, -⟩ := hv
  refine map_bind_congr (craftFullQuery_congr hi.itemsStatement_eq hpq) ?_
  rintro ⟨q, args⟩ ⟨q', args'⟩ hq
  exact congrArg Except.ok hq

def fieldTerm (field term : Text) : Tokens :=
  [.action .startBasic, .text field, .action .addField, .text term, .action .addTerm]

theorem fullQuery_shape_arg : ∃ chain chain', Accepts asciiLibrary "a:_ARG_" (fieldTerm ['a'] argText) ∧
      buildConverted asciiLibrary false (fieldTerm ['a'] argText) = .ok chain ∧
      Accepts asciiLibrary "b:x" (fieldTerm ['b'] ['x']) ∧
      buildConverted asciiLibrary false (fieldTerm ['b'] ['x']) = .ok chain' ∧
      (execute asciiLibrary false "bag" chain).map Executed.fullQuery =
        (execute asciiLibrary false "users" chain').map Executed.fullQuery := by
  have h : Accepts asciiLibrary "a:_ARG_" (fieldTerm ['a'] argText) := ⟨100, by decide +kernel⟩
  have h' : Accepts asciiLibrary "b:x" (fieldTerm ['b'] ['x']) := ⟨100, by decide +kernel⟩
  exact ⟨_, _, h, rfl, h', rfl,
    fullQuery_shape asciiLibrary false h rfl h' rfl (by decide +kernel) (.inr ⟨by decide +kernel, by decide +kernel⟩)⟩

end

end Postgres

end Goiardi.Search
