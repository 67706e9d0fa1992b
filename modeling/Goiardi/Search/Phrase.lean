import Goiardi.Search.Execute

/-! The phrases of the search grammar. Every accepted query is a phrase, and the tokens of its parse are the
phrase's tokens. -/

namespace Goiardi.Search

open Peg List

abbrev Word := {t : Text // t ≠ []}

def letter (c : Char) : Word := ⟨[c], cons_ne_nil c []⟩

inductive Joiner
  | and
  | or
deriving DecidableEq, Repr

def Joiner.op : Joiner → Op
  | and => .binAnd
  | or => .binOr

/-- `NOT` or `!`, and `-`. -/
inductive Negation
  | not
  | prohibited
deriving DecidableEq, Repr

def Negation.op : Negation → Op
  | not => .unaryNot
  | prohibited => .unaryPro

inductive Weight
  | fuzzy
  | boost
deriving DecidableEq, Repr

def Weight.op : Weight → Op
  | fuzzy => .fuzzy
  | boost => .boost

inductive Value
  | term (t : Word)
  | string (terms : List Word) (whole : Word)
deriving DecidableEq

inductive Operand
  | value (v : Value)
  | basic (field : Word) (v : Value)
  | range (inclusive : Bool) (field start stop : Word)
deriving DecidableEq

inductive Phrase
  | nil
  | operand (neg : Option Negation) (o : Operand) (join : Option Joiner) (rest : Phrase)
  | required (v : Value) (rest : Phrase)
  | weighted (w : Weight) (v : Value) (param : Option Word) (rest : Phrase)
  | fieldGroup (neg : Option Negation) (field : Word) (inner : Phrase) (join : Option Joiner) (rest : Phrase)
  | group (inner : Phrase) (join : Option Joiner) (rest : Phrase)
  | notGroup (inner : Phrase) (rest : Phrase)
deriving DecidableEq

abbrev Tokens := List (Peg.Token Action)

def termTokens (t : Word) : Tokens := [.text t, .action .addTerm]

def Value.words : Value → List Word
  | term t => [t]
  | string terms whole => terms ++ [whole]

def Value.tokens (v : Value) : Tokens := v.words.flatMap termTokens

def fieldTokens (field : Word) : Tokens := [.text field, .action .addField]

def Operand.tokens : Operand → Tokens
  | value v => v.tokens
  | basic field v => .action .startBasic :: fieldTokens field ++ v.tokens
  | range inclusive field start stop =>
    .action (.startRange inclusive) :: fieldTokens field ++
      [.text start, .action .addRange, .text stop, .action .addRange]

def groupTokens (inner : Tokens) : Tokens := .action .startSubQuery :: inner ++ [.action .endSubQuery]

def fieldGroupTokens (field : Word) (inner : Tokens) : Tokens :=
  .action .startGrouped :: fieldTokens field ++ groupTokens inner ++ [.action .setCompleted]

def negTokens : Option Negation → Tokens
  | none => []
  | some n => [.action (.setNotQuery n.op)]

def joinTokens : Option Joiner → Tokens
  | none => []
  | some j => [.action (.addOp j.op)]

def paramTokens : Option Word → Tokens
  | none => []
  | some p => termTokens p

def Phrase.tokens : Phrase → Tokens
  | nil => []
  | operand neg o join rest => negTokens neg ++ o.tokens ++ joinTokens join ++ rest.tokens
  | required v rest => .action (.addTermOp .unaryReq) :: v.tokens ++ rest.tokens
  | weighted w v param rest => v.tokens ++ .action (.addOp w.op) :: paramTokens param ++ rest.tokens
  | fieldGroup neg field inner join rest =>
    negTokens neg ++ fieldGroupTokens field inner.tokens ++ joinTokens join ++ rest.tokens
  | group inner join rest => groupTokens inner.tokens ++ joinTokens join ++ rest.tokens
  | notGroup inner rest => groupTokens (.action (.setNotQuery .unaryNot) :: inner.tokens) ++ rest.tokens

def Phrase.append : Phrase → Phrase → Phrase
  | nil, q => q
  | operand neg o join rest, q => .operand neg o join (rest.append q)
  | required v rest, q => .required v (rest.append q)
  | weighted w v param rest, q => .weighted w v param (rest.append q)
  | fieldGroup neg field inner join rest, q => .fieldGroup neg field inner join (rest.append q)
  | group inner join rest, q => .group inner join (rest.append q)
  | notGroup inner rest, q => .notGroup inner (rest.append q)

lemma Phrase.tokens_append (p q : Phrase) : (p.append q).tokens = p.tokens ++ q.tokens := by
  induction p with
  | nil => rfl
  | _ => simp_all [append, tokens]

section

def Subject (ts : Tokens) : Prop :=
  (∃ o : Operand, ts = o.tokens) ∨ ∃ (f : Word) (p : Phrase), ts = fieldGroupTokens f p.tokens

lemma Subject.phrase {ts : Tokens} (h : Subject ts) (neg : Option Negation) (join : Option Joiner) (rest : Phrase) :
    ∃ p : Phrase, negTokens neg ++ ts ++ joinTokens join ++ rest.tokens = p.tokens := by
  rcases h with ⟨o, rfl⟩ | ⟨f, p, rfl⟩
  · exact ⟨.operand neg o join rest, rfl⟩
  · exact ⟨.fieldGroup neg f p join rest, rfl⟩

lemma Subject.alone {ts : Tokens} (h : Subject ts) : ∃ p : Phrase, ts = p.tokens := by
  obtain ⟨p, hp⟩ := h.phrase none none .nil
  exact ⟨p, by rw [← hp]; simp [negTokens, joinTokens, Phrase.tokens]⟩

lemma Subject.negated {ts : Tokens} (h : Subject ts) (neg : Negation) :
    ∃ p : Phrase, .action (.setNotQuery neg.op) :: ts = p.tokens := by
  obtain ⟨p, hp⟩ := h.phrase (some neg) none .nil
  exact ⟨p, by rw [← hp]; simp [negTokens, joinTokens, Phrase.tokens]⟩

def Rule.consumes : Rule → Bool
  | term | validLetter | startLetter => true
  | _ => false

def Rule.Gives : Rule → Tokens → Prop
  | keyword, ts | validLetter, ts | startLetter, ts | specialChar, ts | space, ts | orOperator, ts
  | andOperator, ts => ts = []
  | term, ts | fuzzyParam, ts => ∃ w, ts = termTokens w
  | string, ts => ∃ w ws whole, ts = (Value.string (w :: ws) whole).tokens
  | fieldName, ts => ∃ f, ts = fieldTokens f
  | rangeValue, ts => ∃ w : Word, ts = [.text w, .action .addRange]
  | fieldNorm, ts | fieldRange, ts | fieldIncRange, ts | fieldExcRange, ts => ∃ o : Operand, ts = o.tokens
  | fieldGroup, ts => ∃ (f : Word) (p : Phrase), ts = fieldGroupTokens f p.tokens
  | field, ts => Subject ts
  | group, ts => ∃ p : Phrase, ts = groupTokens p.tokens
  | booleanOperator, ts => ∃ j, ts = joinTokens (some j)
  | notOperator, ts | bangOperator, ts => ts = negTokens (some .not)
  | prohibitedOperator, ts => ts = negTokens (some .prohibited)
  | requiredOperator, ts => ts = [.action (.addTermOp .unaryReq)]
  | q, ts | body, ts | expression, ts | operation, ts | unaryOp, ts | binaryOp, ts | notOp, ts | notSubOp, ts
  | requiredOp, ts | prohibitedOp, ts | boostOp, ts | fuzzyOp, ts | subQ, ts => ∃ p : Phrase, ts = p.tokens

variable {lib : Library} {ts : Tokens}

abbrev Emits (e : Expr Rule Action) (ts : Tokens) : Prop := e.Gives Rule.consumes Rule.Gives ts

lemma reads_space (h : Emits (.opt (.rule .space)) ts) : ts = [] := h.elim (fun h => h) fun h => h

lemma reads_capture {e : Expr Rule Action} {a : Action} (h : Emits (.seq (.capture e) (.action a)) ts)
    (hc : e.consumes Rule.consumes = true) (he : ∀ us, Emits e us → us = []) :
    ∃ w : Word, ts = [.text w, .action a] := by
  obtain ⟨_, ⟨us, hus, m, hm, rfl⟩, _, rfl, rfl⟩ := h
  exact ⟨⟨m, hm hc⟩, by rw [he us hus]; rfl⟩

lemma reads_value (h : Emits (.alt (.rule .term) (.rule .string)) ts) : ∃ v : Value, ts = v.tokens := by
  rcases h with ⟨w, rfl⟩ | ⟨w, ws, whole, rfl⟩
  · exact ⟨.term w, by simp [Value.tokens, Value.words]⟩
  · exact ⟨_, rfl⟩

lemma reads_subject (h : Emits (Expr.alts (.rule .field) [.rule .fieldRange, .rule .term, .rule .string]) ts) :
    Subject ts := by
  rcases h with h | h | h
  · exact h
  · exact .inl h
  · obtain ⟨v, rfl⟩ := reads_value h
    exact .inl ⟨.value v, rfl⟩

lemma reads_joined (h : Emits (Expr.alts (.rule .group) [.rule .field, .rule .fieldRange, .rule .term]) ts) (j : Joiner)
    (rest : Phrase) : ∃ p : Phrase, ts ++ joinTokens (some j) ++ rest.tokens = p.tokens := by
  rcases h with ⟨p, rfl⟩ | h | h | h
  · exact ⟨.group p (some j) rest, rfl⟩
  · exact Subject.phrase h none (some j) rest
  · exact Subject.phrase (.inl h) none (some j) rest
  · obtain ⟨v, rfl⟩ := reads_value (.inl h)
    exact Subject.phrase (.inl ⟨.value v, rfl⟩) none (some j) rest

lemma reads_terms (h : Emits (.star (.seq (.rule .space) (.rule .term))) ts) :
    ∃ ws : List Word, ts = ws.flatMap termTokens := by
  obtain ⟨tss, ht, rfl⟩ := h
  induction tss with
  | nil => exact ⟨[], rfl⟩
  | cons us tss ih =>
    obtain ⟨⟨_, rfl, _, ⟨w, rfl⟩, rfl⟩, hr⟩ := forall_mem_cons.mp ht
    obtain ⟨ws, hws⟩ := ih hr
    exact ⟨w :: ws, by rw [flatten_cons, hws]; rfl⟩

lemma reads_body (h : Emits (.star (.alt (.rule .expression) (.rule .space))) ts) : ∃ p : Phrase, ts = p.tokens := by
  obtain ⟨tss, ht, rfl⟩ := h
  induction tss with
  | nil => exact ⟨.nil, rfl⟩
  | cons us tss ih =>
    obtain ⟨hus, ht⟩ := forall_mem_cons.mp ht
    obtain ⟨q, hq⟩ := ih ht
    rw [flatten_cons, hq]
    rcases hus with ⟨p, rfl⟩ | rfl
    · exact ⟨p.append q, (p.tokens_append q).symm⟩
    · exact ⟨q, rfl⟩

lemma reads_range {inclusive : Bool} {l r : Char} (h : Emits
    (Expr.seqs [.action (.startRange inclusive), .rule .fieldName, .char (· = ':'), .char (· = l), .rule .rangeValue,
      Expr.lit " TO ", .rule .rangeValue, .char (· = r)]) ts) : ∃ o : Operand, ts = o.tokens := by
  obtain ⟨_, rfl, _, ⟨_, ⟨f, rfl⟩, _, ⟨_, rfl, _, ⟨_, rfl, _, ⟨_, ⟨a, rfl⟩, _, ⟨_, ht, _, ⟨_, ⟨b, rfl⟩, _, rfl, rfl⟩,
    rfl⟩, rfl⟩, rfl⟩, rfl⟩, rfl⟩, rfl⟩ := h
  obtain rfl := (gives_lit _).mp ht
  exact ⟨.range inclusive f a b, by simp [Operand.tokens, fieldTokens]⟩

lemma reads_not {op : Rule} {e : Expr Rule Action} (h : Emits (Expr.seqs [.rule op, e, Expr.alts (.rule .field)
      [.rule .fieldRange, .rule .term, .rule .string]]) ts) (ho : ∀ us, op.Gives us → us = negTokens (some .not))
    (he : ∀ us, Emits e us → us = []) : ∃ p : Phrase, ts = p.tokens := by
  obtain ⟨us, hus, _, ⟨vs, hvs, ws, hws, rfl⟩, rfl⟩ := h
  rw [ho us hus, he vs hvs]
  exact (reads_subject hws).negated .not

lemma reads_required (h : Emits (Expr.seqs [.rule .requiredOperator, .alt (.rule .term) (.rule .string)]) ts) :
    ∃ p : Phrase, ts = p.tokens := by
  obtain ⟨_, rfl, us, hus, rfl⟩ := h
  obtain ⟨v, rfl⟩ := reads_value hus
  exact ⟨.required v .nil, by simp [Phrase.tokens]⟩

lemma reads_weighted {c : Char} {w : Weight} {e : Expr Rule Action}
    (he : ∀ us, Emits e us → ∃ param, us = paramTokens param)
    (h : Emits (Expr.seqs [.alt (.rule .term) (.rule .string), .char (· = c), .action (.addOp w.op), e]) ts) :
    ∃ p : Phrase, ts = p.tokens := by
  obtain ⟨us, hus, _, ⟨_, rfl, _, ⟨_, rfl, vs, hvs, rfl⟩, rfl⟩, rfl⟩ := h
  obtain ⟨v, rfl⟩ := reads_value hus
  obtain ⟨param, rfl⟩ := he vs hvs
  exact ⟨.weighted w v param .nil, by simp [Phrase.tokens]⟩

-- One case for each rule of the grammar that is not read off its expression.
lemma Rule.gives_grammar (r : Rule) (ts : Tokens) (h : Emits (grammar lib r) ts) : r.Gives ts := by
  cases r with
  | q =>
    obtain ⟨_, ⟨p, rfl⟩, _, rfl, rfl⟩ := h
    exact ⟨p, append_nil _⟩
  | body => exact reads_body h
  | expression =>
    rcases h with h | h | h | ⟨w, ws, whole, rfl⟩ | ⟨p, rfl⟩ | h
    · exact h
    · exact Subject.alone h
    · exact Subject.alone (.inl h)
    · exact Subject.alone (.inl ⟨.value _, rfl⟩)
    · exact ⟨.group p none .nil, by simp [Phrase.tokens, joinTokens]⟩
    · obtain ⟨v, rfl⟩ := reads_value (.inl h)
      exact Subject.alone (.inl ⟨.value v, rfl⟩)
  | term =>
    refine reads_capture h rfl fun vs hvs => ?_
    rcases hvs with ⟨_, rfl, us, hus, rfl⟩ | ⟨_, rfl, _, ⟨_, rfl, _, rfl, rfl⟩, rfl⟩
    · exact gives_plus_silent hus fun _ h => h
    · rfl
  | field =>
    rcases h with h | h
    · exact .inl h
    · exact .inr h
  | fieldNorm =>
    obtain ⟨_, rfl, _, ⟨_, ⟨f, rfl⟩, _, ⟨_, rfl, us, hus, rfl⟩, rfl⟩, rfl⟩ := h
    obtain ⟨v, rfl⟩ := reads_value hus
    exact ⟨.basic f v, by simp [Operand.tokens]⟩
  | fieldGroup =>
    obtain ⟨_, rfl, _, ⟨_, ⟨f, rfl⟩, _, ⟨_, rfl, _, ⟨_, ⟨p, rfl⟩, _, rfl, rfl⟩, rfl⟩, rfl⟩, rfl⟩ := h
    exact ⟨f, p, by simp [fieldGroupTokens]⟩
  | fieldRange => exact h.elim (fun h => h) fun h => h
  | fieldIncRange => exact reads_range h
  | fieldExcRange => exact reads_range h
  | fieldName =>
    refine reads_capture h rfl fun vs hvs => ?_
    obtain ⟨_, rfl, us, hus, rfl⟩ := hvs
    exact gives_plus_silent hus fun _ h => h
  | rangeValue => exact reads_capture h rfl fun vs hvs => Or.elim hvs (gives_plus_silent · fun _ h => h) fun h => h
  | subQ =>
    obtain ⟨_, rfl, _, ⟨_, ⟨p, rfl⟩, _, rfl, rfl⟩, rfl⟩ := h
    exact ⟨p, append_nil _⟩
  | group =>
    obtain ⟨us, hus, _, ⟨_, rfl, _, ⟨_, ⟨p, rfl⟩, _, ⟨_, rfl, vs, hvs, rfl⟩, rfl⟩, rfl⟩, rfl⟩ := h
    exact ⟨p, by simp [reads_space hus, reads_space hvs, groupTokens]⟩
  | operation =>
    rcases h with h | h | h | h <;> exact h
  | unaryOp =>
    rcases h with h | h | h | h <;> exact h
  | binaryOp =>
    obtain ⟨us, hus, _, ⟨vs, hvs, _, ⟨_, ⟨j, rfl⟩, _, ⟨ws, hws, _, ⟨rest, rfl⟩, rfl⟩, rfl⟩, rfl⟩, rfl⟩ := h
    obtain ⟨p, hp⟩ := reads_joined hus j rest
    exact ⟨p, by rw [← hp, reads_space hvs, gives_plus_silent hws fun _ h => h]; simp⟩
  | booleanOperator =>
    rcases h with ⟨_, rfl, _, rfl, rfl⟩ | ⟨_, rfl, _, rfl, rfl⟩
    · exact ⟨.or, rfl⟩
    · exact ⟨.and, rfl⟩
  | orOperator => exact h.elim (gives_lit _).mp (gives_lit _).mp
  | andOperator => exact h.elim (gives_lit _).mp (gives_lit _).mp
  | notOp =>
    rcases h with h | h
    · exact reads_not h (fun _ h => h) fun _ h => h
    · exact reads_not h (fun _ h => h) fun _ => reads_space
  | notSubOp =>
    obtain ⟨_, rfl, _, ⟨_, rfl, _, ⟨_, rfl, _, ⟨_, ⟨p, rfl⟩, _, rfl, rfl⟩, rfl⟩, rfl⟩, rfl⟩ := h
    exact ⟨.notGroup p .nil, by simp [Phrase.tokens, groupTokens, negTokens, Negation.op]⟩
  | notOperator =>
    obtain ⟨us, hus, _, rfl, rfl⟩ := h
    obtain rfl := (gives_lit _).mp hus
    rfl
  | bangOperator | prohibitedOperator | requiredOperator =>
    obtain ⟨_, rfl, _, rfl, rfl⟩ := h
    rfl
  | requiredOp =>
    rcases h with ⟨_, rfl, us, hus, rfl⟩ | h
    · exact reads_required hus
    · exact reads_required h
  | prohibitedOp =>
    obtain ⟨_, rfl, _, ⟨_, rfl, us, hus, rfl⟩, rfl⟩ := h
    exact (reads_subject hus).negated .prohibited
  | boostOp =>
    refine reads_weighted (w := .boost) (fun us hus => ?_) h
    obtain ⟨w, rfl⟩ := hus
    exact ⟨some w, rfl⟩
  | fuzzyOp =>
    refine reads_weighted (w := .fuzzy) (fun us hus => ?_) h
    obtain ⟨us, hus, vs, hvs, rfl⟩ := hus
    obtain rfl : vs = [] := hvs.elim (fun h => h) fun h => h
    rcases hus with ⟨w, rfl⟩ | rfl
    · exact ⟨some w, append_nil _⟩
    · exact ⟨none, rfl⟩
  | fuzzyParam =>
    refine reads_capture h rfl fun vs hvs => ?_
    rcases hvs with ⟨_, rfl, _, ⟨us, hus, _, rfl, rfl⟩, rfl⟩ | hvs
    · rw [(gives_lit _).mp hus]
      rfl
    · exact gives_plus_silent hvs fun _ h => h
  | string =>
    obtain ⟨_, rfl, _, ⟨_, ⟨_, ⟨_, ⟨w, rfl⟩, us, hus, rfl⟩, m, hm, rfl⟩, _, ⟨_, rfl, _, rfl, rfl⟩, rfl⟩, rfl⟩ := h
    obtain ⟨ws, rfl⟩ := reads_terms hus
    exact ⟨w, ws, ⟨m, hm rfl⟩, by simp [Value.tokens, Value.words, termTokens]⟩
  | keyword => exact h.elim (gives_lit _).mp fun h => h.elim (gives_lit _).mp (gives_lit _).mp
  | validLetter =>
    obtain ⟨us, hus, vs, hvs, rfl⟩ := h
    rw [gives_plus_silent hus fun _ h => h]
    refine gives_star_silent hvs fun _ h => ?_
    rcases h with ⟨_, rfl, _, rfl, rfl⟩ | h | h
    · rfl
    · exact h
    · exact h
  | startLetter =>
    rcases h with ⟨_, rfl, _, rfl, rfl⟩ | h | h
    · rfl
    · exact h
    · exact h
  | specialChar => exact h
  | space => exact gives_plus_silent h fun _ h => h

theorem derives_reads {e : Expr Rule Action} {t t' : Text} (h : Derives (grammar lib) e t ts t') : Emits e ts := by
  refine h.gives (fun r hr => ?_) Rule.gives_grammar
  cases r
  case term | validLetter | startLetter => rfl
  all_goals cases hr

theorem Accepts.exists_phrase {query : Text} (h : Accepts lib query ts) : ∃ p : Phrase, ts = p.tokens := by
  obtain ⟨n, hn⟩ := h
  exact derives_reads (derives_of_parse hn)

end

end Goiardi.Search
