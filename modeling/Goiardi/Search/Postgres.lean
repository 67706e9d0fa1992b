import Goiardi.Base.Brackets
import Goiardi.Base.Sql
import Goiardi.Search.Grammar

/-! `PgQuery.execute`: the SQL statement that the Postgres search makes of a query chain, and its arguments. -/

namespace Goiardi.Search.Postgres

open Sql (placeholder)

inductive Column
  | path
  | value
deriving DecidableEq, Repr

inductive Comparison
  | tilde
  | pathMatch
  | equal
  | unequal
  | like
  | notLike
  | above (equals : Bool)
  | below (equals : Bool)
  | pathAbove (equals : Bool)
  | pathBelow (equals : Bool)
deriving DecidableEq, Repr

inductive Piece
  | space
  | lpar
  | rpar
  | and
  | or
  | not
  | test (table : ℕ) (column : Column) (c : Comparison)
  /-- The test for items that do not have the path at all. -/
  | absent
deriving DecidableEq, Repr

abbrev Clause := List Piece

def argText : Text := "_ARG_"

def Column.text : Column → Text
  | path => "path"
  | value => "value"

def equalsText (equals : Bool) : Text := if equals then ['='] else []

def Comparison.text : Comparison → Text
  | tilde => "~"
  | pathMatch => "OPERATOR(goiardi.~)"
  | equal => "="
  | unequal => "<>"
  | like => "LIKE"
  | notLike => "NOT LIKE"
  | above equals => '>' :: equalsText equals
  | below equals => '<' :: equalsText equals
  | pathAbove equals => "OPERATOR(goiardi.>" ++ equalsText equals ++ [')']
  | pathBelow equals => "OPERATOR(goiardi.<" ++ equalsText equals ++ [')']

def absentText : Text :=
  "NOT EXISTS (SELECT 1 FROM found_items WHERE i.item_name = " ++
    "found_items.item_name AND found_items.path OPERATOR(goiardi.~) "

def tableText (table : ℕ) : Text := 'f' :: Text.formatNat table

def Piece.text : Piece → Text
  | space => [' ']
  | lpar => ['(']
  | rpar => [')']
  | and => " AND "
  | or => " OR "
  | not => "NOT "
  | test table column c => tableText table ++ '.' :: column.text ++ ' ' :: c.text ++ ' ' :: argText
  | absent => absentText ++ argText ++ [')']

def clauseText (c : Clause) : Text := c.flatMap Piece.text

section

variable (lib : Library)

def squeeze (c : Char) : Text → Text
  | [] => []
  | d :: t => if d = c ∧ t.head? = some c then squeeze c t else d :: squeeze c t

def trim (c : Char) (t : Text) : Text := ((t.dropWhile (· = c)).reverse.dropWhile (· = c)).reverse

def isKeyChar (c : Char) : Bool := lib.letter c || c ∈ "_.*?".toList

def pgSearchQueryKey (cvt : Bool) (key : Text) : Text :=
  let k := trim '.' (trim '_' (squeeze '.' (squeeze '_' (key.map fun c => if isKeyChar lib c then c else '_'))))
  if cvt then squeeze '.' (k.map fun c => if c = '_' then '.' else c) else k

end

section

def escapeArg (arg : Text) : Text :=
  replaceAll '?' ['_'] (replaceAll '*' ['%'] (replaceAll '_' "\\_" (replaceAll '%' "\\%" arg)))

def hasWildcard (t : Text) : Bool := t.any fun c => c = '*' || c = '?'

def matchOp (term : QueryTerm) : Comparison × Text :=
  if hasWildcard term.term then (if term.mod.negates then .notLike else .like, escapeArg term.term)
  else (if term.mod.negates then .unequal else .equal, term.term)

def binOp : Op → Clause
  | .notAnOp => []
  | .binAnd => [.and]
  | _ => [.or]

structure Built where
  args : List Text
  xtraPath : Text
  clause : Clause
  tNum : ℕ
deriving DecidableEq

variable (lib : Library) (cvt : Bool)

def craftAltQueryPath (a b : Text) : Text := pgSearchQueryKey lib cvt (a ++ '.' :: b)

def buildBasicQuery (field : Text) (term : QueryTerm) (tNum : ℕ) (op : Op) : Built :=
  let (cop, escaped) := matchOp term
  if term.term = ['*'] ∨ term.term = [] then
    ⟨[field], [], binOp op ++ [.lpar, .test tNum .path .tilde, .rpar], tNum⟩
  else if field = [] then ⟨[escaped], [], binOp op ++ [.lpar, .test tNum .value cop, .rpar], tNum⟩
  else
    let altQueryPath := craftAltQueryPath lib cvt field term.term
    let notPath := term.mod.negates
    let q : Clause := [.lpar, .lpar, .test tNum .path .pathMatch, .and, .test tNum .value cop, .rpar] ++
      (if notPath then [.and, .not] else [.or]) ++ [.lpar, .test tNum .path .pathMatch, .rpar, .rpar]
    let q := if notPath then [.lpar] ++ q ++ [.or, .absent, .rpar] else q
    ⟨[field, escaped, altQueryPath] ++ (if notPath then [field] else []), altQueryPath, binOp op ++ q, tNum⟩

def groupJoin (mod : Op) : Clause :=
  if mod = .unaryPro ∨ mod = .unaryReq ∨ mod = .unaryNot then [.and] else [.or]

def joinClauses : List (Piece × Op) → Clause
  | [] => []
  | (p, _) :: rest => p :: rest.flatMap fun (p, mod) => .space :: groupJoin mod ++ [p]

def dotStar : Text := ".*"

def buildGroupedQuery (field : Text) (terms : List QueryTerm) (tNum : ℕ) (op : Op) : Built :=
  let grouped := terms.map fun v => (Piece.test tNum .value (matchOp v).1, v.mod)
  let groupedPaths := terms.mapIdx fun i v => (Piece.test (tNum + (i + 1)) .path .pathMatch, v.mod)
  let groupedArgs := terms.map fun v =>
    field ++ '.' :: (if v.mod = .unaryNot then ['!'] else []) ++ pgSearchQueryKey lib cvt v.term
  ⟨[field] ++ terms.map (fun v => (matchOp v).2) ++ groupedArgs, field ++ dotStar,
    binOp op ++ [.lpar, .lpar, .test tNum .path .pathMatch, .and, .lpar] ++ joinClauses grouped ++
      [.rpar, .rpar, .or, .lpar] ++ joinClauses groupedPaths ++ [.rpar, .rpar],
    tNum + terms.length⟩

def rangeBounds (start stop : Text) (inclusive : Bool) : List (Text × Comparison × Comparison) :=
  (if start ≠ ['*'] then [(start, .above inclusive, .pathAbove inclusive)] else []) ++
    if stop ≠ ['*'] then [(stop, .below inclusive, .pathBelow inclusive)] else []

def rangeClause (bounds : List (Text × Comparison × Comparison)) (tNum : ℕ) (op : Op) (negated : Bool) : Clause :=
  let ranges := bounds.map fun b => [Piece.test tNum .value b.2.1]
  let rangePaths := bounds.map fun b => [Piece.test tNum .path b.2.2]
  let rangeStr : Clause := if bounds = [] then [] else [.and, .lpar] ++ [Piece.and].intercalate ranges ++ [.rpar]
  let rangePathStr : Clause := if bounds = [] then [] else
    [.or, .lpar, .test tNum .path .pathMatch, .and] ++ [Piece.and].intercalate rangePaths ++ [.rpar]
  binOp op ++ (if negated then [.space, .not] else []) ++ [.lpar, .test tNum .path .pathMatch] ++ rangeStr ++
    rangePathStr ++ [.rpar]

def buildRangeQuery (field start stop : Text) (inclusive : Bool) (tNum : ℕ) (op : Op) (negated : Bool) : Built :=
  let bounds := if stop < start then rangeBounds stop start inclusive else rangeBounds start stop inclusive
  let rangeArgs := bounds.map fun b => field ++ '.' :: pgSearchQueryKey lib cvt b.1
  ⟨[field] ++ bounds.map Prod.fst ++ [field ++ dotStar] ++ rangeArgs, field ++ dotStar,
    rangeClause bounds tNum op negated, tNum⟩

def build (q : Query) (tNum : ℕ) (op : Op) : Built :=
  match q with
  | .basic field term _ => buildBasicQuery lib cvt field term tNum op
  | .grouped field terms _ => buildGroupedQuery lib cvt field terms tNum op
  | .range field start stop inclusive negated =>
    buildRangeQuery lib cvt field start stop inclusive tNum op negated

end

inductive Argument
  | num (n : ℕ)
  | text (t : Text)
deriving DecidableEq

structure Call where
  query : Query
  tNum : ℕ
  op : Op
deriving DecidableEq

/-- What a walk has gathered. `calls` is not in the source: it records the calls of the builders. -/
structure PgQuery where
  paths : List Text
  queryStrs : List Clause
  arguments : List Text
  calls : List Call
deriving DecidableEq

def PgQuery.empty : PgQuery := ⟨[], [], [], []⟩

def builtinIndex (idx : Text) : Bool := idx ∈ ["node", "client", "environment", "role"].map String.toList

def itemsStatement (idx : Text) : Text :=
  if builtinIndex idx then
    "SELECT name AS item_name FROM goiardi." ++ (idx ++ "s WHERE organization_id = $1")
  else
    "SELECT orig_name AS item_name FROM goiardi.data_bag_items JOIN " ++
      ("goiardi.data_bags ON goiardi.data_bag_items.data_bag_id = " ++
        ("goiardi.data_bags.id WHERE goiardi.data_bags.organization_id = $1 " ++
          "AND goiardi.data_bags.name = $2"))

def withHead : Text :=
  "WITH found_items AS (SELECT item_name, path, value FROM " ++
    ("goiardi.search_items si WHERE si.organization_id = $1 AND " ++
      ("si.search_collection_id = (SELECT id FROM " ++
        ("goiardi.search_collections WHERE name = $2) AND path ".toList ++ "OPERATOR(goiardi.?) ARRAY[ ")))

def withStatement (idx : Text) (paths : ℕ) : Text :=
  withHead ++ Text.join ", " ((List.range paths).map fun i => placeholder (3 + i)) ++
    " ]::goiardi.lquery[]), items AS (" ++ itemsStatement idx ++ ")"

inductive Source
  /-- The only table of a query with one condition. -/
  | found
  | items
  | join (table : ℕ)
deriving DecidableEq

def Source.text : Source → Text
  | found => "found_items f0"
  | items => "items i "
  | join table =>
    "INNER JOIN found_items AS " ++
      (tableText table ++ (" ON i.item_name = " ++ (tableText table ++ ".item_name")))

def joins (tNum : ℕ) : List Source := (List.range tNum).map .join

def fromPart (tNum : ℕ) : List Source := if tNum = 1 then [.found] else .items :: joins tNum

def selectHead (tNum : ℕ) : Text :=
  if tNum = 1 then
    "SELECT COALESCE(ARRAY_AGG(DISTINCT item_name), '\x7b\x7d'::text[]) " ++
      ("FROM " ++ Source.found.text)
  else
    "SELECT COALESCE(ARRAY_AGG(i.item_name), '\x7b\x7d'::text[]) FROM " ++
      (Source.items.text ++ Text.join " " ((joins tNum).map Source.text))

def selectStatement (tNum : ℕ) (condition : Clause) : Text :=
  selectHead tNum ++ " WHERE " ++ clauseText condition

/-- Each `_ARG_` becomes the next placeholder. The second argument counts the characters of a match that are left. -/
def replaceArgs : ℕ → ℕ → Text → Text
  | _, _, [] => []
  | pcount, k + 1, _ :: t => replaceArgs pcount k t
  | pcount, 0, c :: t =>
    if argText.isPrefixOf (c :: t) then placeholder pcount ++ replaceArgs (pcount + 1) (argText.length - 1) t
    else c :: replaceArgs pcount 0 t

def condition (tNum : ℕ) (queryStrs : List Clause) : Except Fault Clause :=
  if tNum = 1 then
    match queryStrs with
    | [] => .error (.panic .indexOutOfRange)
    | q :: _ => .ok q
  else .ok ([Piece.space].intercalate queryStrs)

def craftFullQuery (idx : Text) (pq : PgQuery) (tNum : ℕ) : Except Fault (Text × List Argument) := do
  let allArgs := [.num 1, .text idx] ++ pq.paths.map .text ++ pq.arguments.map .text
  let pcount := 3 + pq.paths.length
  let where_ ← condition tNum pq.queryStrs
  let fullQuery := withStatement idx pq.paths.length ++ ' ' :: selectStatement tNum where_
  return (replaceArgs pcount 0 fullQuery, allArgs)

section

def Link.depth (l : Link) (n : ℕ) : ℕ :=
  match l.body with
  | .subQuery true => n + 1
  | .subQuery false => n - 1
  | _ => n

def unfinished : Fault := .error "Yikes! Somehow we weren't able to finish the subquery."

def extractSubQuery : List Link → Except Fault (List Link × Link × List Link)
  | [] => .error (.panic .nilPointer)
  | l :: chain =>
    match Brackets.closing Link.depth 1 (l :: chain) with
    | some parts => .ok parts
    | none => .error unfinished

variable (lib : Library) (cvt : Bool)

def ownPath : Query → List Text
  | .basic field _ _ => if field = [] then [] else [field]
  | .grouped field _ _ => [field]
  | .range field _ _ _ _ => [field]

def Call.built (c : Call) : Built := build lib cvt c.query c.tNum c.op

def Call.paths (c : Call) : List Text :=
  let xtraPath := (c.built lib cvt).xtraPath
  ownPath c.query ++ if xtraPath = [] then [] else [xtraPath]

def PgQuery.add (pq : PgQuery) (c : Call) : PgQuery where
  paths := pq.paths ++ c.paths lib cvt
  queryStrs := pq.queryStrs ++ [(c.built lib cvt).clause]
  arguments := pq.arguments ++ (c.built lib cvt).args
  calls := pq.calls ++ [c]

def PgQuery.addGroup (pq : PgQuery) (curOp : Op) (np : PgQuery) : PgQuery where
  paths := pq.paths ++ np.paths
  queryStrs := pq.queryStrs ++ [binOp curOp ++ [.lpar] ++ [Piece.space].intercalate np.queryStrs ++ [.rpar]]
  arguments := pq.arguments ++ np.arguments
  calls := pq.calls ++ np.calls

/-- The loop along the chain, which leaves it snipped before the end of each sub-query, as in the other evaluator. The
first argument bounds the number of links. -/
def executeFrom : ℕ → Op → ℕ → PgQuery → List Link → Except Fault (PgQuery × ℕ × List Link)
  | _, _, t, pq, [] => .ok (pq, t, [])
  | 0, _, t, pq, chain => .ok (pq, t, chain)
  | n + 1, curOp, t, pq, l :: chain =>
    match l.body with
    | .query q => do
      let c : Call := ⟨q, t, curOp⟩
      let (pq, t, walked) ← executeFrom n l.op ((c.built lib cvt).tNum + 1) (pq.add lib cvt c) chain
      return (pq, t, l :: walked)
    | .subQuery _ => do
      let (inner, nend, after) ← extractSubQuery chain
      if inner = [] then
        let (np, t, walked) ← executeFrom n .notAnOp t .empty (nend :: after)
        -- the statement of a sub-query is made and left unused
        let _ ← craftFullQuery [] np t
        let (pq, t, _) ← executeFrom n nend.op t (pq.addGroup curOp np) walked.tail
        return (pq, t, [l])
      else
        let (np, t, walked) ← executeFrom n .notAnOp t .empty inner
        let _ ← craftFullQuery [] np t
        let (pq, t, _) ← executeFrom n nend.op t (pq.addGroup curOp np) after
        return (pq, t, l :: walked)
    | .notQuery => do
      -- the link takes the operator that was pending before it
      let (pq, t, walked) ← executeFrom n curOp t pq chain
      return (pq, t, l.addOp curOp :: walked)

structure Executed where
  query : PgQuery
  tNum : ℕ
  fullQuery : Text
  allArgs : List Argument
deriving DecidableEq

def execute (idx : Text) (chain : List Link) : Except Fault Executed := do
  let (pq, t, _) ← executeFrom lib cvt chain.length .notAnOp 0 .empty chain
  let (fullQuery, allArgs) ← craftFullQuery idx pq t
  return ⟨pq, t, fullQuery, allArgs⟩

end

end Goiardi.Search.Postgres
