import Goiardi.Search.Index

/-! The links of a query chain and the token that the parser's actions build it with. -/

namespace Goiardi.Search

inductive Op
  | notAnOp
  | unaryNot
  | unaryReq
  | unaryPro
  | binAnd
  | binOr
  | boost
  | fuzzy
deriving DecidableEq, Repr

def Op.negates : Op → Bool
  | unaryNot | unaryPro => true
  | _ => false

structure QueryTerm where
  term : Text
  mod : Op
deriving DecidableEq, Repr

inductive Query
  | basic (field : Text) (term : QueryTerm) (complete : Bool)
  | grouped (field : Text) (terms : List QueryTerm) (complete : Bool)
  | range (field start stop : Text) (inclusive negated : Bool)
deriving DecidableEq, Repr

inductive Body
  | query (q : Query)
  | subQuery (start : Bool)
  | notQuery
deriving DecidableEq, Repr

/-- A link of the chain. `prevOp` is the operator of the link before it: an operator is only ever added to the latest
link, so the one seen at creation is the one seen by every later search. -/
structure Link where
  body : Body
  op : Op
  prevOp : Option Op
deriving DecidableEq, Repr

def makeSearchTerm (field term : Text) : Text := field ++ ':' :: term

structure Merge where
  reqOp : Bool
  res : Finset Text
  req : Option (Finset Text)

def Merge.step (m : Merge) (t : Op × Finset Text) : Merge :=
  if t.1 = .unaryReq then
    { m with reqOp := true, req := some (match m.req with | none => t.2 | some req => req ∩ t.2) }
  else if !m.reqOp then { m with res := m.res ∪ t.2 }
  else m

-- the source assigns the result to the required documents, not the other way round
def mergeResults (tmpRes : List (Op × Finset Text)) : Finset Text := (tmpRes.foldl Merge.step ⟨false, ∅, none⟩).res

def searchTerms (search : Text → Bool → Except Fault (Finset Text)) (field : Text) :
    List QueryTerm → Except Fault (List (Op × Finset Text))
  | [] => .ok []
  | v :: terms => do
    let r ← search (makeSearchTerm field v.term) v.mod.negates
    let rest ← searchTerms search field terms
    return (v.mod, r) :: rest

namespace Query

variable (lib : Library) (i : FileIndex) (idx : Text) (notop : Bool)

def searchIndex : Query → Except Fault (Finset Text)
  | basic field term _ =>
    if field = [] then i.searchText lib idx term.term notop
    else i.search lib idx (makeSearchTerm field term.term) notop
  | grouped field terms _ => do
    let tmpRes ← searchTerms (i.search lib idx) field terms
    return mergeResults tmpRes
  | range field start stop inclusive negated => i.searchRange idx field start stop inclusive negated

def searchResults (curRes : Finset Text) : Query → Except Fault (Finset Text)
  | basic field term _ => i.searchResults lib idx (makeSearchTerm field term.term) notop curRes
  | grouped field terms _ => do
    let tmpRes ← searchTerms (fun term notop => i.searchResults lib idx term notop curRes) field terms
    return mergeResults tmpRes
  | range field start stop inclusive negated => i.searchResultsRange idx field start stop inclusive negated curRes

end Query

namespace Link

def notop (q : Link) : Bool := q.prevOp.any Op.negates

def addOp (o : Op) (q : Link) : Link := { q with op := o }

def addField (s : Text) (q : Link) : Link :=
  match q.body with
  | .query (.basic _ term complete) => { q with body := .query (.basic s term complete) }
  | .query (.grouped _ terms complete) => { q with body := .query (.grouped s terms complete) }
  | .query (.range _ start stop inclusive negated) =>
    { q with body := .query (.range s start stop inclusive negated) }
  | .subQuery _ | .notQuery => q

def groupTerm (s : Text) : List QueryTerm → List QueryTerm
  | [] => [⟨s, .notAnOp⟩]
  | [t] => if t.term = [] then [⟨s, t.mod⟩] else [t, ⟨s, .notAnOp⟩]
  | t :: terms => t :: groupTerm s terms

def addTerm (s : Text) (q : Link) : Link :=
  match q.body with
  | .query (.basic field term _) =>
    { q with body := .query (.basic field ⟨s, if q.notop then q.prevOp.getD .notAnOp else term.mod⟩ true) }
  | .query (.grouped field terms complete) => { q with body := .query (.grouped field (groupTerm s terms) complete) }
  | .query (.range field start stop inclusive negated) =>
    { q with body := .query <|
        if start = [] then .range field s stop inclusive negated else .range field start s inclusive negated }
  | .subQuery _ | .notQuery => q

def addTermOp (o : Op) (q : Link) : Link :=
  match q.body with
  | .query (.basic field term complete) => { q with body := .query (.basic field ⟨term.term, o⟩ complete) }
  | .query (.grouped field terms complete) =>
    { q with body := .query (.grouped field (terms ++ [⟨[], o⟩]) complete) }
  | .query (.range ..) | .subQuery _ | .notQuery => q

def setCompleted (q : Link) : Link :=
  match q.body with
  | .query (.basic field term _) => { q with body := .query (.basic field term true) }
  | .query (.grouped field terms _) => { q with body := .query (.grouped field terms true) }
  | .query (.range ..) | .subQuery _ | .notQuery => q

def isIncomplete (q : Link) : Bool :=
  match q.body with
  | .query (.basic _ _ complete) => !complete
  | .query (.grouped _ _ complete) => !complete
  | .query (.range _ start stop _ _) => start = [] || stop = []
  | .subQuery _ | .notQuery => false

end Link

/-- The parser's token: the links so far, the latest first. `EndSubQuery` alone would leave `QueryChain` unset on an
empty chain, but it never runs on one. -/
abbrev Token := List Link

namespace Token

def settled : Token → Bool
  | [] => true
  | latest :: _ => !latest.isIncomplete

def append (z : Token) (body : Body) (op : Op) : Token := ⟨body, op, z.head?.map Link.op⟩ :: z

def onLatest (f : Link → Link) : Token → Except Panic Token
  | [] => .error .nilPointer
  | latest :: z => .ok (f latest :: z)

def startBasic (z : Token) : Token := if z.settled then z.append (.query (.basic [] ⟨[], .notAnOp⟩ false)) .binOr else z

def startRange (inclusive : Bool) : Token → Token
  | [] => append [] (.query (.range [] [] [] inclusive false)) .binOr
  | latest :: z =>
    append (latest :: z) (.query (.range [] [] [] inclusive (latest.op = .unaryNot)))
      (latest.prevOp.getD .notAnOp)

def startGrouped (z : Token) : Token := if z.settled then z.append (.query (.grouped [] [] false)) .binOr else z

def startSubQuery (z : Token) : Token := if z.settled then z.append (.subQuery true) .notAnOp else z

def endSubQuery (z : Token) : Token := if z.settled then z.append (.subQuery false) .notAnOp else z

def setNotQuery (op : Op) (z : Token) : Token := z.append .notQuery op

def addOp (o : Op) : Token → Except Panic Token := onLatest (Link.addOp o)

def addField (s : Text) : Token → Except Panic Token := onLatest (Link.addField s)

def addTerm (s : Text) (z : Token) : Except Panic Token := onLatest (Link.addTerm s) z.startBasic

def addTermOp (o : Op) (z : Token) : Except Panic Token := onLatest (Link.addTermOp o) z.startBasic

def addRange (s : Text) : Token → Except Panic Token := onLatest (Link.addTerm s)

def setCompleted : Token → Except Panic Token := onLatest Link.setCompleted

def evaluate (z : Token) : List Link := z.reverse

end Token

end Goiardi.Search
