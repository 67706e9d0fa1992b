import Goiardi.Search.Within

/-! Quoted strings: the parser adds the terms of a string and then the string, each as a term of its own, so that a
query with a string is never a single link. -/

namespace Goiardi.Search

open Peg List

def EscapedQuotes (u : Text) : Prop := ∀ a b, u = a ++ '"' :: b → a.getLast? = some '\\'

lemma EscapedQuotes.append {u v : Text} (hu : EscapedQuotes u) (hv : EscapedQuotes v) : EscapedQuotes (u ++ v) := by
  intro a b h
  obtain ⟨a', rfl, hv'⟩ | ⟨c, rfl, hc⟩ := append_eq_append_iff.mp h
  · have hl := hv a' b hv'
    rw [List.getLast?_append, hl]
    rfl
  · cases c with
    | nil => exact absurd (hv [] b hc.symm) (by simp)
    | cons c c' =>
      obtain ⟨rfl, -⟩ := List.cons.inj hc
      exact hu a c' rfl

lemma escapedQuotes_of_ne {c : Char} (h : c ≠ '"') : EscapedQuotes [c] := by
  intro a b heq
  cases a with
  | nil => exact absurd (List.cons.inj heq).1 h
  | cons x a => simp at heq

lemma escapedQuotes_escape (c : Char) : EscapedQuotes ['\\', c] := by
  intro a b heq
  cases a with
  | nil => exact absurd (List.cons.inj heq).1 (by decide)
  | cons x a =>
    obtain ⟨rfl, ht⟩ := List.cons.inj heq
    cases a with
    | nil => rfl
    | cons y a => simp at ht

section

variable {lib : Library} {e : Expr Rule Action} {t t' : Text} {ts : Tokens}

def Escape : Expr Rule Action → Expr Rule Action → Prop
  | .char p, .rule .specialChar => ∀ c, p c = true → c = '\\'
  | _, _ => False

lemma exists_escape {e f : Expr Rule Action} (h : Escape e f) {t'' : Text} {us : Tokens}
    (he : Derives (grammar lib) e t ts t') (hf : Derives (grammar lib) f t' us t'') : ∃ c, t = '\\' :: c :: t'' := by
  unfold Escape at h
  split at h
  · obtain ⟨-, b, hb, rfl⟩ := derives_char.mp he
    cases hf with
    | rule hf =>
      obtain ⟨-, c, -, rfl⟩ := derives_char.mp hf
      exact ⟨c, by rw [h b hb]⟩
  · exact h.elim

def Clean : Expr Rule Action → Prop
  | .char p => p '"' = false
  | .rule r => r ≠ .specialChar
  | .seq e f => Escape e f ∨ Clean e ∧ Clean f
  | .alt e f => Clean e ∧ Clean f
  | .star e | .capture e => Clean e
  | .empty | .not _ | .action _ => True

lemma clean_lit {w : Text} (h : '"' ∉ w) : Clean (Expr.lit w) := by
  induction w with
  | nil => trivial
  | cons c w ih =>
    obtain ⟨hc, hw⟩ : '"' ≠ c ∧ '"' ∉ w := by simpa using h
    have hch : Clean (.char (· = c)) := decide_eq_false hc
    cases w with
    | nil => exact hch
    | cons d w => exact .inr ⟨hch, ih hw⟩

lemma clean_grammar (r : Rule) (hs : r ≠ .specialChar) (hq : r ≠ .string) : Clean (grammar lib r) := by
  cases r
  case specialChar => exact absurd rfl hs
  case string => exact absurd rfl hq
  all_goals simp [grammar, Clean, Expr.seqs, Expr.alts, Expr.opt, Expr.plus, Escape, isWide, isBlank, clean_lit]

def addTerms (ts : Tokens) : ℕ := ts.count (.action .addTerm)

lemma addTerms_append (ts us : Tokens) : addTerms (ts ++ us) = addTerms ts + addTerms us := count_append

lemma addTerms_string (h : Derives (grammar lib) (.rule .string) t ts t') : 2 ≤ addTerms ts := by
  obtain ⟨w, ws, whole, rfl⟩ := derives_reads h
  have ht : ∀ w, addTerms (termTokens w) = 1 := fun _ => rfl
  simp only [Value.tokens, Value.words, cons_append, flatMap_cons, flatMap_append, addTerms_append, ht,
    flatMap_nil]
  simp [addTerms]
  omega

lemma exists_escapedQuotes (h : Derives (grammar lib) e t ts t') (he : Clean e) (hts : addTerms ts ≤ 1) :
    ∃ u, t = u ++ t' ∧ EscapedQuotes u := by
  induction h with
  | empty | stop | not | action => exact ⟨[], rfl, fun a b h => by simp at h⟩
  | @char p c t hp =>
    refine ⟨[c], rfl, escapedQuotes_of_ne ?_⟩
    rintro rfl
    exact absurd (he.symm.trans hp) Bool.false_ne_true
  | @rule r t t' ts h ih =>
    by_cases hr : r = .string
    · subst hr
      exact absurd (addTerms_string (.rule h)) (by omega)
    · exact ih (clean_grammar r he hr) hts
  | @seq e f t t' t'' ts us h h' ih ih' =>
    rw [addTerms_append] at hts
    obtain hes | ⟨he, hf⟩ := he
    · obtain ⟨c, rfl⟩ := exists_escape hes h h'
      exact ⟨['\\', c], rfl, escapedQuotes_escape c⟩
    · obtain ⟨u, rfl, hu⟩ := ih he (by omega)
      obtain ⟨v, rfl, hv⟩ := ih' hf (by omega)
      exact ⟨u ++ v, (append_assoc ..).symm, hu.append hv⟩
  | left h ih => exact ih he.1 hts
  | right h ih => exact ih he.2 hts
  | more h h' ih ih' =>
    rw [addTerms_append] at hts
    obtain ⟨u, rfl, hu⟩ := ih he (by omega)
    obtain ⟨v, rfl, hv⟩ := ih' he (by omega)
    exact ⟨u ++ v, (append_assoc ..).symm, hu.append hv⟩
  | capture h ih => exact ih he (by rw [addTerms_append] at hts; omega)

end

section

def Link.isQuery (q : Link) : Bool :=
  match q.body with
  | .query _ => true
  | .subQuery _ | .notQuery => false

def Link.isPlain (q : Link) : Bool :=
  match q.body with
  | .query (.grouped ..) | .query (.range ..) => false
  | _ => true

def Link.isTerm (q : Link) : Bool :=
  match q.body with
  | .query (.basic _ _ complete) => complete
  | _ => false

def Gentle (f : Link → Link) : Prop := ∀ q, (f q).isPlain = q.isPlain ∧ (q.isTerm = true → (f q).isTerm = true)

lemma gentle_addField (s : Text) : Gentle (Link.addField s) := by
  rintro ⟨⟨_ | _ | _⟩ | _ | _, op, prevOp⟩ <;> exact ⟨rfl, id⟩

lemma gentle_addTerm (s : Text) : Gentle (Link.addTerm s) := by
  rintro ⟨⟨field, term, complete⟩ | ⟨field, terms, complete⟩ | ⟨field, start, stop, inclusive, negated⟩ | _ | _, op, prevOp⟩
  case query.range =>
    refine ⟨?_, fun h => by cases h⟩
    simp only [Link.addTerm]
    split <;> rfl
  all_goals exact ⟨rfl, fun h => by first | rfl | exact h⟩

lemma gentle_addTermOp (o : Op) : Gentle (Link.addTermOp o) := by
  rintro ⟨⟨_ | _ | _⟩ | _ | _, op, prevOp⟩ <;> exact ⟨rfl, id⟩

lemma gentle_setCompleted : Gentle Link.setCompleted := by
  rintro ⟨⟨_ | _ | _⟩ | _ | _, op, prevOp⟩ <;> exact ⟨rfl, fun h => by first | rfl | exact h⟩

def Gains (n : ℕ) (z z' : Token) : Prop :=
  (∀ q ∈ z', q.isPlain = true) → (∀ q ∈ z, q.isPlain = true) ∧ z.countP Link.isTerm + n ≤ z'.countP Link.isTerm

variable {n m : ℕ} {z z' z'' : Token}

lemma Gains.refl (z : Token) : Gains 0 z z := fun h => ⟨h, le_rfl⟩

lemma Gains.trans (h : Gains n z z') (h' : Gains m z' z'') : Gains (n + m) z z'' := by
  intro hp
  obtain ⟨hz', hm⟩ := h' hp
  obtain ⟨hz, hn⟩ := h hz'
  exact ⟨hz, by omega⟩

lemma gains_append (z : Token) (body : Body) (op : Op) : Gains 0 z (z.append body op) := by
  intro hp
  refine ⟨fun q hq => hp q (.tail _ hq), ?_⟩
  rw [Token.append, countP_cons]
  omega

lemma gains_ite (z : Token) (p : Prop) [Decidable p] (body : Body) (op : Op) :
    Gains 0 z (if p then z.append body op else z) := by
  split
  · exact gains_append z body op
  · exact .refl z

lemma gains_onLatest {f : Link → Link} (hf : Gentle f) (h : z.onLatest f = .ok z') : Gains 0 z z' := by
  cases z with
  | nil => cases h
  | cons latest z =>
    cases h
    intro hp
    obtain ⟨hl, hz⟩ := forall_mem_cons.mp hp
    refine ⟨forall_mem_cons.mpr ⟨(hf latest).1.symm.trans hl, hz⟩, ?_⟩
    have ht := (hf latest).2
    rw [countP_cons, countP_cons]
    split_ifs <;> first | omega | simp_all

lemma exists_startBasic (z : Token) :
    ∃ q rest, z.startBasic = q :: rest ∧ q.isIncomplete = true ∧ Gains 0 z (q :: rest) := by
  by_cases hz : z.settled = true
  · refine ⟨⟨.query (.basic [] ⟨[], .notAnOp⟩ false), .binOr, z.head?.map Link.op⟩, z, ?_, rfl, gains_append z _ _⟩
    rw [Token.startBasic, if_pos hz]
    rfl
  · cases z with
    | nil => exact absurd rfl hz
    | cons latest z =>
      refine ⟨latest, z, ?_, by simpa [Token.settled] using hz, .refl _⟩
      rw [Token.startBasic, if_neg hz]

lemma isTerm_addTerm {q : Link} (hq : q.isPlain = true) (ho : q.isIncomplete = true) (s : Text) :
    q.isTerm = false ∧ (q.addTerm s).isTerm = true := by
  obtain ⟨⟨field, term, complete⟩ | _ | _ | _ | _, op, prevOp⟩ := q
  · cases complete with
    | false => exact ⟨rfl, rfl⟩
    | true => cases ho
  · cases hq
  · cases hq
  · cases ho
  · cases ho

lemma gains_addTerm {s : Text} (h : z.addTerm s = .ok z') : Gains 1 z z' := by
  obtain ⟨q, rest, hs, ho, hg⟩ := exists_startBasic z
  rw [Token.addTerm, hs] at h
  cases h
  intro hp
  obtain ⟨hq, hr⟩ := forall_mem_cons.mp hp
  rw [(gentle_addTerm s q).1] at hq
  obtain ⟨hz, hc⟩ := hg (forall_mem_cons.mpr ⟨hq, hr⟩)
  obtain ⟨hb, ha⟩ := isTerm_addTerm hq ho s
  refine ⟨hz, ?_⟩
  rw [countP_cons_of_neg (by simp [hb])] at hc
  rw [countP_cons_of_pos ha]
  omega

lemma gains_run {text : Text} {a : Action} (h : a.run text z = .ok z') : Gains (addTerms [.action a]) z z' := by
  cases a with
  | addTerm => exact gains_addTerm h
  | startBasic => cases h; exact gains_ite z _ _ _
  | startGrouped => cases h; exact gains_ite z _ _ _
  | setCompleted => exact gains_onLatest gentle_setCompleted h
  | startRange inclusive =>
    cases h
    cases z with
    | nil => exact gains_append _ _ _
    | cons latest z => exact gains_append _ _ _
  | addField => exact gains_onLatest (gentle_addField text) h
  | addRange => exact gains_onLatest (gentle_addTerm text) h
  | startSubQuery => cases h; exact gains_ite z _ _ _
  | endSubQuery => cases h; exact gains_ite z _ _ _
  | addOp o => exact gains_onLatest (f := Link.addOp o) (fun _ => ⟨rfl, id⟩) h
  | setNotQuery o => cases h; exact gains_append z _ _
  | addTermOp o => exact (gains_ite z _ _ _).trans (gains_onLatest (gentle_addTermOp o) h)

lemma gains_foldlM {tokens : Tokens} {x x' : Execution} (h : tokens.foldlM Execution.step x = .ok x') :
    Gains (addTerms tokens) x.token x'.token := by
  induction tokens generalizing x with
  | nil =>
    cases h
    exact .refl _
  | cons token tokens ih =>
    rw [foldlM_cons] at h
    obtain ⟨y, hy, h⟩ := bind_ok h
    have hr := ih h
    have hs : Gains (addTerms [token]) x.token y.token := by
      cases token with
      | text t =>
        cases hy
        exact .refl _
      | action a =>
        obtain ⟨z, hz, hy⟩ := bind_ok hy
        cases hy
        exact gains_run hz
    exact (addTerms_append [token] tokens) ▸ hs.trans hr

def SingleTerm (field term : Text) (chain : List Link) : Prop :=
  ∃ q mod complete, chain.filter Link.isQuery = [q] ∧ q.body = .query (.basic field ⟨term, mod⟩ complete)

lemma SingleTerm.isPlain {field term : Text} {chain : List Link} (h : SingleTerm field term chain) :
    ∀ q ∈ chain, q.isPlain = true := by
  obtain ⟨q, mod, complete, hf, hb⟩ := h
  intro r hr
  by_cases hq : r.isQuery = true
  · have hm : r ∈ chain.filter Link.isQuery := mem_filter.mpr ⟨hr, hq⟩
    rw [hf, mem_singleton] at hm
    rw [hm, Link.isPlain, hb]
  · obtain ⟨body, op, prevOp⟩ := r
    cases body with
    | query a => exact absurd rfl hq
    | subQuery _ | notQuery => rfl

lemma SingleTerm.countP_le {field term : Text} {chain : List Link} (h : SingleTerm field term chain) :
    chain.countP Link.isTerm ≤ 1 := by
  obtain ⟨q, mod, complete, hf, -⟩ := h
  calc chain.countP Link.isTerm ≤ chain.countP Link.isQuery := by
        refine countP_mono_left fun r _ hr => ?_
        obtain ⟨body, op, prevOp⟩ := r
        cases body with
        | query a => rfl
        | subQuery _ | notQuery => cases hr
    _ = 1 := by rw [countP_eq_length_filter, hf, length_singleton]

/-- A query for a field and a quoted string never becomes one link. -/
theorem quoted_not_single (lib : Library) (field m : Text) (tokens : Tokens)
    (h : Accepts lib (field ++ ':' :: '"' :: (m ++ ['"'])) tokens) :
    ¬ ∃ chain, buildChain tokens = .ok chain ∧ SingleTerm field m chain := by
  rintro ⟨chain, hc, hs⟩
  obtain ⟨x, hx, hx'⟩ := bind_ok hc
  obtain rfl : x.token.reverse = chain := Except.ok.inj hx'
  have ha : addTerms tokens ≤ 1 := by
    have hg := (gains_foldlM hx fun q hq => hs.isPlain q (mem_reverse.mpr hq)).2
    have hcn := hs.countP_le
    rw [countP_reverse] at hcn
    omega
  obtain ⟨n, hn⟩ := h
  obtain ⟨u, hu, hqt⟩ := exists_escapedQuotes (derives_of_parse hn) (by simp [Clean]) ha
  rw [append_nil] at hu
  have hl := hqt (field ++ [':']) (m ++ ['"']) (by rw [← hu]; simp)
  simp at hl

def quotedOne : Tokens :=
  [.action .startBasic, .text ['a'], .action .addField, .text ['1'], .action .addTerm, .text ['1'], .action .addTerm]

theorem quoted_not_single_one : ¬ ∃ chain, buildChain quotedOne = .ok chain ∧ SingleTerm ['a'] ['1'] chain :=
  quoted_not_single lineEndLibrary ['a'] ['1'] quotedOne ⟨50, by decide +kernel⟩

theorem quoted_found_elsewhere : Accepts lineEndLibrary "a:\"1\"" quotedOne ∧
    buildChain quotedOne = .ok [⟨.query (.basic ['a'] ⟨['1'], .notAnOp⟩ true), .binOr, none⟩,
      ⟨.query (.basic [] ⟨['1'], .notAnOp⟩ true), .binOr, some .binOr⟩] ∧
    runQuery lineEndLibrary twoNodeIndex "node" quotedOne = .ok {['m'], ['n']} :=
  ⟨⟨50, by decide +kernel⟩, by decide +kernel, by decide +kernel⟩

end

end Goiardi.Search
