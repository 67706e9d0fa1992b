import Goiardi.Base.Peg
import Goiardi.Search.Query

/-! The search grammar, rule by rule as the generated parser has it, and the actions its tokens run. -/

namespace Goiardi.Search

open Peg

inductive Rule
  | q | body | expression | term | field | fieldNorm | fieldGroup | fieldRange | fieldIncRange | fieldExcRange
  | fieldName | rangeValue | subQ | group | operation | unaryOp | binaryOp | booleanOperator | orOperator
  | andOperator | notOp | notSubOp | notOperator | bangOperator | requiredOp | requiredOperator | prohibitedOp
  | prohibitedOperator | boostOp | fuzzyOp | fuzzyParam | string | keyword | validLetter | startLetter | specialChar
  | space

inductive Action
  | addTerm
  | startBasic
  | startGrouped
  | setCompleted
  | startRange (inclusive : Bool)
  | addField
  | addRange
  | startSubQuery
  | endSubQuery
  | addOp (o : Op)
  | setNotQuery (o : Op)
  | addTermOp (o : Op)
deriving DecidableEq, Repr

def isSpecial (c : Char) : Bool := c ∈ ":\\?*~\"^][\x7d\x7b)(!|&+-".toList

def isBlank (c : Char) : Bool := c = ' ' || c = '\t' || c = '\n' || c = '\r'

section

open Expr Rule

variable (lib : Library)

def isWide (c : Char) : Bool := c.toNat ≥ 128 && lib.letter c

def grammar : Rule → Expr Rule Action
  | q => seq (rule body) (not (char fun _ => true))
  | body => star (alt (rule expression) (rule space))
  | expression =>
    alts (rule operation) [rule field, rule fieldRange, rule string, rule group, rule term]
  | term =>
    seqs [capture (alt (seq (rule keyword) (plus (rule validLetter)))
        (seqs [not (rule keyword), not (char (· = '?')), rule validLetter])), action .addTerm]
  | field => alt (rule fieldNorm) (rule fieldGroup)
  | fieldNorm => seqs [action .startBasic, rule fieldName, char (· = ':'), alt (rule term) (rule string)]
  | fieldGroup =>
    seqs [action .startGrouped, rule fieldName, char (· = ':'), rule group, action .setCompleted]
  | fieldRange => alt (rule fieldIncRange) (rule fieldExcRange)
  | fieldIncRange =>
    seqs [action (.startRange true), rule fieldName, char (· = ':'), char (· = '['), rule rangeValue,
      lit " TO ".toList, rule rangeValue, char (· = ']')]
  | fieldExcRange =>
    seqs [action (.startRange false), rule fieldName, char (· = ':'), char (· = '{'), rule rangeValue,
      lit " TO ".toList, rule rangeValue, char (· = '}')]
  | fieldName => seqs [capture (seq (not (rule keyword)) (plus (rule validLetter))), action .addField]
  | rangeValue => seqs [capture (alt (plus (rule validLetter)) (char (· = '*'))), action .addRange]
  | subQ => seqs [char (· = '('), rule body, char (· = ')')]
  | group =>
    seqs [opt (rule space), action .startSubQuery, rule subQ, action .endSubQuery, opt (rule space)]
  | operation => alts (rule binaryOp) [rule unaryOp, rule fuzzyOp, rule boostOp]
  | unaryOp => alts (rule notOp) [rule prohibitedOp, rule requiredOp, rule notSubOp]
  | binaryOp =>
    seqs [alts (rule group) [rule field, rule fieldRange, rule term], opt (rule space), rule booleanOperator,
      plus (rule space), rule body]
  | booleanOperator =>
    alt (seq (rule orOperator) (action (.addOp .binOr))) (seq (rule andOperator) (action (.addOp .binAnd)))
  | orOperator => alt (lit "OR".toList) (lit "||".toList)
  | andOperator => alt (lit "AND".toList) (lit "&&".toList)
  | notOp =>
    alt (seqs [rule notOperator, rule space, alts (rule field) [rule fieldRange, rule term, rule string]])
      (seqs [rule bangOperator, opt (rule space), alts (rule field) [rule fieldRange, rule term, rule string]])
  | notSubOp =>
    seqs [action .startSubQuery, rule notOperator, rule space, rule subQ, action .endSubQuery]
  | notOperator => seq (lit "NOT".toList) (action (.setNotQuery .unaryNot))
  | bangOperator => seq (char (· = '!')) (action (.setNotQuery .unaryNot))
  | requiredOp =>
    alt (seqs [not (rule validLetter), rule requiredOperator, alt (rule term) (rule string)])
      (seqs [rule requiredOperator, alt (rule term) (rule string)])
  | requiredOperator => seq (char (· = '+')) (action (.addTermOp .unaryReq))
  | prohibitedOp =>
    seqs [not (rule validLetter), rule prohibitedOperator,
      alts (rule field) [rule fieldRange, rule term, rule string]]
  | prohibitedOperator => seq (char (· = '-')) (action (.setNotQuery .unaryPro))
  | boostOp =>
    seqs [alt (rule term) (rule string), char (· = '^'), action (.addOp .boost), rule fuzzyParam]
  | fuzzyOp =>
    seqs [alt (rule term) (rule string), char (· = '~'), action (.addOp .fuzzy), opt (rule fuzzyParam),
      alt (rule space) (not (rule validLetter))]
  | fuzzyParam =>
    seqs [capture (alt (seqs [char Char.isDigit, lit ".?".toList, char Char.isDigit]) (plus (char Char.isDigit))),
      action .addTerm]
  | string =>
    seqs [char (· = '"'), capture (seq (rule term) (star (seq (rule space) (rule term)))), char (· = '"'),
      action .addTerm]
  | keyword => alts (lit "NOT".toList) [lit "OR".toList, lit "AND".toList]
  -- a wide letter after the start letters matches without being read, so the loop never ends there
  | validLetter =>
    seq (plus (rule startLetter))
      (star (alts (seq (char (· = '\\')) (rule specialChar))
        [char fun c => c.isAlphanum || c ∈ "-@._?*".toList, not (not (char (isWide lib)))]))
  | startLetter =>
    alts (seq (char (· = '\\')) (rule specialChar)) [char fun c => c.isAlphanum || c ∈ "*_.".toList, char (isWide lib)]
  | specialChar => char isSpecial
  | space => plus (char isBlank)

end

/-- The state of `Execute`: the last text captured, and the token built so far. -/
structure Execution where
  text : Text
  token : Token

def Action.run (text : Text) (z : Token) : Action → Except Panic Token
  | addTerm => z.addTerm text
  | startBasic => .ok z.startBasic
  | startGrouped => .ok z.startGrouped
  | setCompleted => z.setCompleted
  | startRange inclusive => .ok (z.startRange inclusive)
  | addField => z.addField text
  | addRange => z.addRange text
  | startSubQuery => .ok z.startSubQuery
  | endSubQuery => .ok z.endSubQuery
  | addOp o => z.addOp o
  | setNotQuery o => .ok (z.setNotQuery o)
  | addTermOp o => z.addTermOp o

def Execution.step (x : Execution) : Peg.Token Action → Except Panic Execution
  | .text t => .ok { x with text := t }
  | .action a => do return { x with token := ← a.run x.text x.token }

def buildChain (tokens : List (Peg.Token Action)) : Except Panic (List Link) := do
  let x ← tokens.foldlM Execution.step ⟨[], []⟩
  return x.token.evaluate

def Accepts (lib : Library) (query : Text) (tokens : List (Peg.Token Action)) : Prop :=
  ∃ n, parse (grammar lib) n (.rule .q) query = some (some (tokens, []))

def asciiLibrary : Library := ⟨Char.isAlphanum, fun re => .ok (· = re)⟩

end Goiardi.Search
