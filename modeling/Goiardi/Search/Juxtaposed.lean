import Goiardi.Search.Groups

/-! Operands that follow each other without an operator. The chain is that of the query with `OR` between them exactly
where the first operand leaves `OR` on its last link, which depends on what kind of operand it is. -/

namespace Goiardi.Search

open List

inductive Item
  | ask (a : Ask)
  | fieldGroup (field : Word) (inner : Phrase)
  | group (inner : Phrase)

namespace Item

def tokens : Item → Tokens
  | ask a => a.operand.tokens
  | fieldGroup field inner => fieldGroupTokens field inner.tokens
  | group inner => groupTokens inner.tokens

def phrase (join : Option Joiner) (rest : Phrase) : Item → Phrase
  | ask a => .operand none a.operand join rest
  | fieldGroup field inner => .fieldGroup none field inner join rest
  | group inner => .group inner join rest

lemma tokens_phrase (join : Option Joiner) (rest : Phrase) (a : Item) :
    (a.phrase join rest).tokens = a.tokens ++ joinTokens join ++ rest.tokens := by
  cases a <;> rfl

end Item

inductive Spot
  | here
  | after (p : Phrase) (spot : Spot)
  | inGroup (spot : Spot) (join : Option Joiner) (rest : Phrase)
  | inNotGroup (spot : Spot) (rest : Phrase)
  | inFieldGroup (neg : Option Negation) (field : Word) (spot : Spot) (join : Option Joiner) (rest : Phrase)

namespace Spot

def plug (q : Phrase) : Spot → Phrase
  | here => q
  | after p spot => p.append (spot.plug q)
  | inGroup spot join rest => .group (spot.plug q) join rest
  | inNotGroup spot rest => .notGroup (spot.plug q) rest
  | inFieldGroup neg field spot join rest => .fieldGroup neg field (spot.plug q) join rest

def before : Spot → Tokens
  | here => []
  | after p spot => p.tokens ++ spot.before
  | inGroup spot _ _ => .action .startSubQuery :: spot.before
  | inNotGroup spot _ => .action .startSubQuery :: .action (.setNotQuery .unaryNot) :: spot.before
  | inFieldGroup neg field spot _ _ =>
    negTokens neg ++ .action .startGrouped :: fieldTokens field ++ .action .startSubQuery :: spot.before

def behind : Spot → Tokens
  | here => []
  | after _ spot => spot.behind
  | inGroup spot join rest => spot.behind ++ .action .endSubQuery :: joinTokens join ++ rest.tokens
  | inNotGroup spot rest => spot.behind ++ .action .endSubQuery :: rest.tokens
  | inFieldGroup _ _ spot join rest =>
    spot.behind ++ .action .endSubQuery :: .action .setCompleted :: joinTokens join ++ rest.tokens

lemma tokens_plug (q : Phrase) (spot : Spot) : (spot.plug q).tokens = spot.before ++ q.tokens ++ spot.behind := by
  induction spot with
  | here => simp [plug, before, behind]
  | after p spot ih => simp [plug, before, behind, Phrase.tokens_append, ih]
  | inGroup spot join rest ih => simp [plug, before, behind, Phrase.tokens, groupTokens, ih]
  | inNotGroup spot rest ih => simp [plug, before, behind, Phrase.tokens, groupTokens, ih]
  | inFieldGroup neg field spot join rest ih =>
    simp [plug, before, behind, Phrase.tokens, fieldGroupTokens, groupTokens, ih]

end Spot

section

def opAfter (op : Op) : Tokens → Op
  | [] => op
  | .action (.addOp o) :: ts => opAfter o ts
  | _ :: ts => opAfter op ts

lemma opAfter_append (op : Op) (a b : Tokens) : opAfter op (a ++ b) = opAfter (opAfter op a) b := by
  induction a generalizing op with
  | nil => rfl
  | cons t a ih =>
    cases t with
    | text w => exact ih op
    | action c => cases c <;> exact ih _

def Latest (z z' : Token) (op : Op) : Prop :=
  z.length + 1 < z'.length ∨ ∃ l', z' = l' :: z ∧ l'.op = op

variable {text : Text} {l : Link} {z z' : Token} {op : Op}

lemma latest_ite (p : Prop) [Decidable p] (body : Body) (o : Op) :
    Latest z (if p then Token.append (l :: z) body o else l :: z) l.op := by
  split
  · exact .inl (by simp [Token.append])
  · exact .inr ⟨l, rfl, rfl⟩

lemma addField_op (s : Text) (l : Link) : (l.addField s).op = l.op := by
  obtain ⟨(_ | _ | _) | _ | _, _, _⟩ := l <;> rfl

lemma addTerm_op (s : Text) (l : Link) : (l.addTerm s).op = l.op := by
  obtain ⟨(_ | _ | _) | _ | _, _, _⟩ := l <;> rfl

lemma addTermOp_op (o : Op) (l : Link) : (l.addTermOp o).op = l.op := by
  obtain ⟨(_ | _ | _) | _ | _, _, _⟩ := l <;> rfl

lemma setCompleted_op (l : Link) : l.setCompleted.op = l.op := by
  obtain ⟨(_ | _ | _) | _ | _, _, _⟩ := l <;> rfl

lemma Latest.onLatest {z₁ : Token} {f : Link → Link} (hf : ∀ l, (f l).op = l.op) (h : Latest z z₁ op)
    (hz' : z₁.onLatest f = .ok z') : Latest z z' op := by
  cases z₁ with
  | nil => cases hz'
  | cons l₁ z₁ =>
    cases hz'
    obtain hl | ⟨l', heq, hop⟩ := h
    · exact .inl hl
    · obtain ⟨rfl, rfl⟩ := List.cons.inj heq
      exact .inr ⟨f l₁, rfl, (hf l₁).trans hop⟩

lemma latest_self : Latest z (l :: z) l.op := .inr ⟨l, rfl, rfl⟩

lemma latest_run {a : Action} (h : a.run text (l :: z) = .ok z') : Latest z z' (opAfter l.op [.action a]) := by
  cases a with
  | addTerm => exact (latest_ite _ _ _).onLatest (addTerm_op text) h
  | startBasic => cases h; exact latest_ite _ _ _
  | startGrouped => cases h; exact latest_ite _ _ _
  | setCompleted => exact latest_self.onLatest setCompleted_op h
  | startRange inclusive => cases h; exact .inl (by simp [Token.startRange, Token.append])
  | addField => exact latest_self.onLatest (addField_op text) h
  | addRange => exact latest_self.onLatest (addTerm_op text) h
  | startSubQuery => cases h; exact latest_ite _ _ _
  | endSubQuery => cases h; exact latest_ite _ _ _
  | addOp o => cases h; exact .inr ⟨l.addOp o, rfl, rfl⟩
  | setNotQuery o => cases h; exact .inl (by simp [Token.setNotQuery, Token.append])
  | addTermOp o => exact (latest_ite _ _ _).onLatest (addTermOp_op o) h

lemma length_run {a : Action} (h : a.run text z = .ok z') : z.length ≤ z'.length := by
  cases z with
  | nil => exact Nat.zero_le _
  | cons l z =>
    obtain hl | ⟨l', rfl, -⟩ := latest_run h
    · exact Nat.le_of_lt hl
    · exact le_rfl

lemma length_foldlM {ts : Tokens} {x x' : Execution} (h : ts.foldlM Execution.step x = .ok x') :
    x.token.length ≤ x'.token.length := by
  induction ts generalizing x with
  | nil =>
    cases h
    exact le_rfl
  | cons t ts ih =>
    rw [foldlM_cons] at h
    obtain ⟨y, hy, h⟩ := bind_ok h
    refine le_trans ?_ (ih h)
    cases t with
    | text w =>
      cases hy
      exact le_rfl
    | action a =>
      obtain ⟨z₁, hz₁, hy⟩ := bind_ok hy
      cases hy
      exact length_run hz₁

lemma latest_foldlM {ts : Tokens} {x' : Execution} (h : ts.foldlM Execution.step ⟨text, l :: z⟩ = .ok x') :
    Latest z x'.token (opAfter l.op ts) := by
  induction ts generalizing text l with
  | nil =>
    cases h
    exact latest_self
  | cons t ts ih =>
    rw [foldlM_cons] at h
    obtain ⟨y, hy, h⟩ := bind_ok h
    cases t with
    | text w =>
      cases hy
      exact ih h
    | action a =>
      obtain ⟨z₁, hz₁, hy⟩ := bind_ok hy
      cases hy
      obtain hln | ⟨l', rfl, hop⟩ := latest_run hz₁
      · exact .inl (lt_of_lt_of_le hln (length_foldlM h))
      · have hl := ih h
        rw [hop] at hl
        cases a <;> exact hl

lemma Leads.op_eq {ts : Tokens} {l' : Link} (h : Leads ts (l :: z) (l' :: z)) : l'.op = opAfter l.op ts := by
  obtain ⟨text', h⟩ := h []
  obtain hl | ⟨l'', heq, hop⟩ := latest_foldlM h
  · exact absurd hl (lt_irrefl _)
  · rw [(List.cons.inj heq).1, hop]

lemma Leads.unique {ts : Tokens} {z₁ z₂ : Token} (h₁ : Leads ts z z₁) (h₂ : Leads ts z z₂) : z₁ = z₂ := by
  obtain ⟨t₁, h₁⟩ := h₁ []
  obtain ⟨t₂, h₂⟩ := h₂ []
  exact congrArg Execution.token (Except.ok.inj (h₁.symm.trans h₂))

lemma Leads.of_cons {c : Action} {ts : Tokens} {z'' : Token} (hc : ∀ text, c.run text z = .ok z')
    (h : Leads (.action c :: ts) z z'') : Leads ts z' z'' := by
  intro text
  obtain ⟨text', h⟩ := h text
  refine ⟨text', ?_⟩
  rw [foldlM_cons, Execution.step, hc] at h
  exact h

end

section

variable {z : Token}

def Item.LeavesOr (z : Token) (a : Item) : Prop := ∃ l w, Leads a.tokens z (l :: w) ∧ l.op = .binOr

lemma leavesOr_iff {a : Item} {l : Link} {w : Token} (h : Leads a.tokens z (l :: w)) :
    a.LeavesOr z ↔ l.op = .binOr := by
  constructor
  · rintro ⟨l', w', h', hop⟩
    rwa [(List.cons.inj (h.unique h')).1]
  · exact fun hop => ⟨l, w, h, hop⟩

lemma leavesOr_term (hz : z.settled = true) (field t : Word) : (Item.ask (.term field t)).LeavesOr z := by
  have hl : Leads (Item.ask (.term field t)).tokens z (basicLink field t z :: z) := by
    simpa [Item.tokens, Ask.operand, Operand.tokens, Value.tokens, Value.words] using leads_basic hz field t
  exact (leavesOr_iff hl).mpr rfl

lemma leavesOr_range_iff (inclusive : Bool) (field start stop : Word) :
    (Item.ask (.range inclusive field start stop)).LeavesOr z ↔
      z = [] ∨ ∃ latest ∈ z.head?, latest.prevOp = some .binOr := by
  have hl : Leads (Item.ask (.range inclusive field start stop)).tokens z
      (rangeLink inclusive field start stop z :: z) := leads_range z inclusive field start stop
  rw [leavesOr_iff hl]
  cases z with
  | nil => simp [rangeLink]
  | cons latest z => cases hp : latest.prevOp <;> simp [rangeLink, hp]

lemma not_leavesOr_group (hz : z.settled = true) {inner : Phrase} (hp : inner.plain = true) :
    ¬ (Item.group inner).LeavesOr z := by
  have hm : Token.settled (⟨.subQuery true, .notAnOp, z.head?.map Link.op⟩ :: z) = true := rfl
  obtain ⟨ls, -, hs, hi⟩ := Phrase.builds hp _ hm
  obtain ⟨e, -, hop, he⟩ := leads_end hs none
  have hl : Leads (Item.group inner).tokens z (e :: (ls.reverse ++
      ⟨.subQuery true, .notAnOp, z.head?.map Link.op⟩ :: z)) := by
    simpa [Item.tokens, groupTokens, joinTokens] using ((leads_start hz).append hi).append he
  rw [leavesOr_iff hl, hop]
  exact fun h => by cases h

lemma leavesOr_fieldGroup_iff (hz : z.settled = true) (field : Word) {inner : Phrase} (hf : inner.flat = true) :
    (Item.fieldGroup field inner).LeavesOr z ↔ opAfter .binOr inner.tokens = .binOr := by
  obtain ⟨g, terms, -, hg⟩ := leads_fieldGroup hf field
  obtain ⟨op, hl⟩ := hg z hz
  have hs : ∀ text, Action.startGrouped.run text z =
      .ok (⟨.query (.grouped [] [] false), .binOr, z.head?.map Link.op⟩ :: z) := by
    intro text
    rw [Action.run, Token.startGrouped, if_pos hz]
    rfl
  have hop : op = opAfter .binOr inner.tokens := by
    have hop := (Leads.of_cons hs hl).op_eq
    simpa [opAfter_append, fieldTokens, groupTokens, opAfter] using hop
  rw [leavesOr_iff (a := .fieldGroup field inner) hl, hop]

end

lemma merge_eq_or_iff (op : Op) (docs S R : Finset Text) :
    merge op docs (if op = .binAnd then R else S) = merge .binOr docs S ↔
      op = .binOr ∨ op = .binAnd ∧ R = docs ∪ S ∨ op ≠ .binAnd ∧ (docs = ∅ ∨ S ⊆ docs) := by
  rw [merge_or]
  by_cases ha : op = .binAnd
  · subst ha
    simp [merge]
  · by_cases hor : op = .binOr
    · subst hor
      simp [merge_or]
    · by_cases hd : docs = ∅
      · simp [merge, ha, hd]
      · simp [merge, ha, hor, hd]

lemma buildChain_or {pre : Tokens} {l : Link} {w : Token} (h : Leads pre [] (l :: w)) (hop : l.op = .binOr)
    (post : Tokens) : buildChain (pre ++ post) = buildChain (pre ++ joinTokens (some .or) ++ post) := by
  obtain ⟨text, ht⟩ := h []
  have hj : (pre ++ joinTokens (some .or)).foldlM Execution.step ⟨[], []⟩ = .ok ⟨text, l :: w⟩ := by
    rw [foldlM_append, ht]
    obtain ⟨body, op, prevOp⟩ := l
    cases hop
    rfl
  rw [buildChain, buildChain, foldlM_append, foldlM_append, ht, hj]

lemma runQuery_congr {ts ts' : Tokens} (h : buildChain ts = buildChain ts') (lib : Library) (i : FileIndex)
    (idx : Text) : runQuery lib i idx ts = runQuery lib i idx ts' := by
  rw [runQuery, runQuery, h]

/-- Two operands without an operator are searched as if `OR` stood between them, in every query and every index, where
the first one leaves `OR` on its last link. A term does so, a range only at the start of the query or if `OR` is on the
link two before it, a group does not, and a field group only if no other operator is the last one in it. -/
theorem juxtaposed_eq_or (z : Token) :
    (∀ (spot : Spot) (a b : Item) (join : Option Joiner) (rest : Phrase), Leads spot.before [] z →
      a.LeavesOr z → ∀ lib i idx, runQuery lib i idx (spot.plug (a.phrase none (b.phrase join rest))).tokens =
        runQuery lib i idx (spot.plug (a.phrase (some .or) (b.phrase join rest))).tokens) ∧
    (z.settled = true →
      (∀ field t, (Item.ask (.term field t)).LeavesOr z) ∧
      (∀ inclusive field start stop, (Item.ask (.range inclusive field start stop)).LeavesOr z ↔
        z = [] ∨ ∃ latest ∈ z.head?, latest.prevOp = some .binOr) ∧
      (∀ inner : Phrase, inner.plain = true → ¬ (Item.group inner).LeavesOr z) ∧
      ∀ field (inner : Phrase), inner.flat = true →
        ((Item.fieldGroup field inner).LeavesOr z ↔ opAfter .binOr inner.tokens = .binOr)) ∧
    ∀ op docs S R, merge op docs (if op = .binAnd then R else S) = merge .binOr docs S ↔
      op = .binOr ∨ op = .binAnd ∧ R = docs ∪ S ∨ op ≠ .binAnd ∧ (docs = ∅ ∨ S ⊆ docs) := by
  refine ⟨?_, fun hz => ⟨leavesOr_term hz, leavesOr_range_iff, fun _ hp => not_leavesOr_group hz hp,
    fun field _ hf => leavesOr_fieldGroup_iff hz field hf⟩, merge_eq_or_iff⟩
  rintro spot a b join rest hz ⟨l, w, ha, hop⟩ lib i idx
  refine runQuery_congr ?_ lib i idx
  have hc := buildChain_or (hz.append ha) hop ((b.phrase join rest).tokens ++ spot.behind)
  simpa [Spot.tokens_plug, Item.tokens_phrase, joinTokens] using hc

def unitItem (f : Char) : Item := .ask (.term (letter f) (letter '1'))

theorem juxtaposed_eq_or_terms : runQuery asciiLibrary twoNodeIndex "node"
      (Spot.here.plug ((unitItem 'a').phrase none ((unitItem 'b').phrase none .nil))).tokens = .ok {['m'], ['n']} :=
  ((juxtaposed_eq_or []).1 .here (unitItem 'a') (unitItem 'b') none .nil .nil
    (((juxtaposed_eq_or []).2.1 rfl).1 _ _) _ _ _).trans (by decide +kernel)

theorem juxtaposed_ne_or :
    let node := "node".toList
    let found (q : Phrase) := runQuery asciiLibrary twoNodeIndex node q.tokens
    let group (join : Option Joiner) : Phrase :=
      Item.phrase join ((unitItem 'b').phrase none .nil) (.group ((unitItem 'a').phrase none .nil))
    let range (join : Option Joiner) : Phrase := (Spot.after ((unitItem 'a').phrase none .nil) .here).plug
      (Item.phrase join ((unitItem 'b').phrase none .nil) (.ask (.range true (letter 'a') (letter '1') (letter '2'))))
    let one (join : Option Joiner) (rest : Phrase) : Phrase := .operand none (.value (.term (letter '1'))) join rest
    let fieldGroup (join : Option Joiner) : Phrase := Item.phrase join ((unitItem 'b').phrase none .nil)
      (.fieldGroup (letter 'a') (one (some .and) (one none .nil)))
    (Accepts asciiLibrary "(a:1) b:1".toList (group none).tokens ∧
      Accepts asciiLibrary "(a:1) OR b:1".toList (group (some .or)).tokens ∧
      found (group none) = .ok {['m']} ∧ found (group (some .or)) = .ok {['m'], ['n']}) ∧
    (Accepts asciiLibrary "a:1 a:[1 TO 2] b:1".toList (range none).tokens ∧
      Accepts asciiLibrary "a:1 a:[1 TO 2] OR b:1".toList (range (some .or)).tokens ∧
      found (range none) = .ok {['m']} ∧ found (range (some .or)) = .ok {['m'], ['n']}) ∧
    Accepts asciiLibrary "a:(1 AND 1) b:1".toList (fieldGroup none).tokens ∧
      Accepts asciiLibrary "a:(1 AND 1) OR b:1".toList (fieldGroup (some .or)).tokens ∧
      found (fieldGroup none) = .ok ∅ ∧ found (fieldGroup (some .or)) = .ok {['m'], ['n']} :=
  ⟨⟨⟨100, by decide +kernel⟩, ⟨100, by decide +kernel⟩, by decide +kernel, by decide +kernel⟩,
    ⟨⟨100, by decide +kernel⟩, ⟨100, by decide +kernel⟩, by decide +kernel, by decide +kernel⟩,
    ⟨100, by decide +kernel⟩, ⟨100, by decide +kernel⟩, by decide +kernel, by decide +kernel⟩

end Goiardi.Search
