import Goiardi.Search.Build

/-! Plain phrases: those whose field groups hold terms only. Their chains have one well-placed pair of markers for
each pair of parentheses. -/

namespace Goiardi.Search

open List Link

def Phrase.flat : Phrase → Bool
  | nil => true
  | operand none (.value _) _ rest => rest.flat
  | operand none (.basic _ _) _ rest => rest.flat
  | operand _ _ _ _ => false
  | required _ rest => rest.flat
  | weighted _ _ _ rest => rest.flat
  | fieldGroup .. => false
  | group inner _ rest => inner.flat && rest.flat
  | notGroup .. => false

def Phrase.plain : Phrase → Bool
  | nil => true
  | operand _ _ _ rest => rest.plain
  | required _ rest => rest.plain
  | weighted _ _ _ rest => rest.plain
  | fieldGroup _ _ inner _ rest => inner.flat && rest.plain
  | group inner _ rest => inner.plain && rest.plain
  | notGroup inner rest => inner.plain && rest.plain

namespace Link

def Leaf (l : Link) : Prop :=
  match l.body with
  | .query (.basic _ term complete) => complete = true ∧ term.term ≠ []
  | .query (.grouped _ _ complete) => complete = true
  | .query (.range _ start stop _ _) => start ≠ [] ∧ stop ≠ []
  | .subQuery _ => False
  | .notQuery => True

def IsStart (l : Link) : Prop := l.body = .subQuery true

def IsEnd (l : Link) : Prop := l.body = .subQuery false

lemma Leaf.addOp {l : Link} (h : l.Leaf) (o : Op) : (l.addOp o).Leaf := h

lemma Leaf.settled {l : Link} (h : l.Leaf) (z : Token) : Token.settled (l :: z) = true := by
  obtain ⟨body, op, prevOp⟩ := l
  cases body with
  | query q =>
    cases q with
    | basic f t c => simp [Token.settled, isIncomplete, h.1]
    | grouped f ts c =>
      have hc : c = true := h
      simp [Token.settled, isIncomplete, hc]
    | range f a b i n => simp [Token.settled, isIncomplete, h.1, h.2]
  | subQuery s => exact h.elim
  | notQuery => rfl

lemma settled_marker {l : Link} {b : Bool} (h : l.body = .subQuery b) (z : Token) : Token.settled (l :: z) = true := by
  simp [Token.settled, isIncomplete, h]

end Link

section

def Adds (ts : Tokens) : Prop :=
  ∀ z : Token, z.settled = true → ∃ ls : List Link, ls ≠ [] ∧ (∀ l ∈ ls, l.Leaf) ∧ Leads ts z (ls ++ z)

variable {a b : Tokens}

lemma settled_append {ls : List Link} (hne : ls ≠ []) (hl : ∀ l ∈ ls, l.Leaf) (z : Token) :
    Token.settled (ls ++ z) = true := by
  cases ls with
  | nil => exact absurd rfl hne
  | cons l ls => exact (hl l (.head _)).settled _

lemma Adds.append (h : Adds a) (h' : Adds b) : Adds (a ++ b) := by
  intro z hz
  obtain ⟨ls, hne, hl, hr⟩ := h z hz
  obtain ⟨ms, hn', hl', hr'⟩ := h' (ls ++ z) (settled_append hne hl z)
  refine ⟨ms ++ ls, by simp [hne], ?_, ?_⟩
  · intro l hm
    exact (mem_append.mp hm).elim (hl' l) (hl l)
  · rw [append_assoc]
    exact hr.append hr'

lemma Adds.addOp (h : Adds a) (o : Op) : Adds (a ++ [.action (.addOp o)]) := by
  intro z hz
  obtain ⟨ls, hne, hl, hr⟩ := h z hz
  cases ls with
  | nil => exact absurd rfl hne
  | cons l ls =>
    refine ⟨l.addOp o :: ls, by simp, ?_, hr.append (leads_action fun _ => rfl)⟩
    intro m hm
    cases hm with
    | head => exact (hl l (.head _)).addOp o
    | tail _ hm => exact hl m (.tail _ hm)

lemma Adds.join (h : Adds a) (join : Option Joiner) : Adds (a ++ joinTokens join) := by
  cases join with
  | none => simpa [joinTokens] using h
  | some j => exact h.addOp j.op

lemma adds_neg (n : Negation) : Adds [.action (.setNotQuery n.op)] := by
  intro z _
  exact ⟨[⟨.notQuery, n.op, z.head?.map op⟩], by simp, by simp [Link.Leaf], leads_action fun _ => rfl⟩

lemma Adds.neg (h : Adds a) (neg : Option Negation) : Adds (negTokens neg ++ a) := by
  cases neg with
  | none => exact h
  | some n => exact (adds_neg n).append h

def basicLink (field term : Text) (z : Token) : Link where
  body := .query (.basic field
    ⟨term, if (z.head?.map Link.op).any Op.negates then (z.head?.map Link.op).getD .notAnOp else .notAnOp⟩ true)
  op := .binOr
  prevOp := z.head?.map Link.op

lemma basicLink_leaf (f : Text) (w : Word) (z : Token) : (basicLink f w z).Leaf := ⟨rfl, w.2⟩

lemma startBasic_settled {z : Token} (h : z.settled = true) :
    z.startBasic = z.append (.query (.basic [] ⟨[], .notAnOp⟩ false)) .binOr := by
  rw [Token.startBasic, if_pos h]

lemma adds_term (w : Word) : Adds (termTokens w) := by
  intro z hz
  have ht : z.addTerm w = .ok (basicLink [] w z :: z) := by
    rw [Token.addTerm, startBasic_settled hz]
    rfl
  exact ⟨[basicLink [] w z], by simp, by simpa using basicLink_leaf [] w z, leads_text ht⟩

lemma adds_words {ws : List Word} (h : ws ≠ []) : Adds (ws.flatMap termTokens) := by
  induction ws with
  | nil => exact absurd rfl h
  | cons w ws ih =>
    cases ws with
    | nil => simpa using adds_term w
    | cons w' ws => exact (adds_term w).append (ih (by simp))

lemma adds_first (ts : Tokens) (v : Value) (h : ∀ w : Word, Adds (ts ++ termTokens w)) : Adds (ts ++ v.tokens) := by
  cases hw : v.words with
  | nil => exact absurd hw v.words_ne_nil
  | cons w ws =>
    rw [Value.tokens, hw]
    cases ws with
    | nil => simpa using h w
    | cons w' ws =>
      have hws : Adds ((w' :: ws).flatMap termTokens) := adds_words (by simp)
      simpa using (h w).append hws

lemma leads_basic {z : Token} (h : z.settled = true) (f w : Word) :
    Leads (.action .startBasic :: fieldTokens f ++ termTokens w) z (basicLink f w z :: z) := by
  let opened (f : Text) : Link := ⟨.query (.basic f ⟨[], .notAnOp⟩ false), .binOr, z.head?.map op⟩
  have hs : Leads [.action .startBasic] z (opened [] :: z) :=
    leads_action fun _ => by
      rw [Action.run, startBasic_settled h]
      rfl
  have hf : Leads (fieldTokens f) (opened [] :: z) (opened f :: z) := leads_text rfl
  have hw : Leads (termTokens w) (opened f :: z) (basicLink f w z :: z) := leads_text rfl
  exact (hs.append hf).append hw

def rangeLink (inclusive : Bool) (field start stop : Text) (z : Token) : Link where
  body := .query (.range field start stop inclusive (z.head?.any (·.op = .unaryNot)))
  op := match z with
    | [] => .binOr
    | latest :: _ => latest.prevOp.getD .notAnOp
  prevOp := z.head?.map Link.op

lemma leads_range (z : Token) (inclusive : Bool) (f start stop : Word) :
    Leads (Operand.range inclusive f start stop).tokens z (rangeLink inclusive f start stop z :: z) := by
  have hs : Leads [.action (.startRange inclusive)] z (rangeLink inclusive [] [] [] z :: z) :=
    leads_action fun _ => by cases z <;> rfl
  have hf : Leads (fieldTokens f) (rangeLink inclusive [] [] [] z :: z) (rangeLink inclusive f [] [] z :: z) :=
    leads_text rfl
  have ha : Leads [.text start, .action .addRange] (rangeLink inclusive f [] [] z :: z)
      (rangeLink inclusive f start [] z :: z) := leads_text rfl
  have hb : Leads [.text stop, .action .addRange] (rangeLink inclusive f start [] z :: z)
      (rangeLink inclusive f start stop z :: z) := leads_text <| by
    rw [Action.run, Token.addRange, Token.onLatest, addTerm]
    simp [rangeLink, start.2]
  exact (hs.append hf).append (ha.append hb)

lemma Value.adds (v : Value) : Adds v.tokens := by
  have h := adds_first [] v fun w => adds_term w
  exact h

lemma Operand.adds (o : Operand) : Adds o.tokens := by
  cases o with
  | value v => exact v.adds
  | basic f v =>
    refine adds_first _ v fun w z hz => ?_
    exact ⟨[basicLink f w z], by simp, by simpa using basicLink_leaf f w z, leads_basic hz f w⟩
  | range inclusive f start stop =>
    intro z _
    have hl : (rangeLink inclusive f start stop z).Leaf := ⟨start.2, stop.2⟩
    exact ⟨[rangeLink inclusive f start stop z], by simp, by simpa using hl, leads_range z inclusive f start stop⟩

lemma adds_required (v : Value) : Adds (.action (.addTermOp .unaryReq) :: v.tokens) := by
  refine adds_first [.action (.addTermOp .unaryReq)] v fun w z hz => ?_
  let opened : Link := ⟨.query (.basic [] ⟨[], .unaryReq⟩ false), .binOr, z.head?.map op⟩
  have hs : Leads [.action (.addTermOp .unaryReq)] z (opened :: z) :=
    leads_action fun _ => by
      rw [Action.run, Token.addTermOp, startBasic_settled hz]
      rfl
  have hw : Leads (termTokens w) (opened :: z) (opened.addTerm w :: z) := leads_text rfl
  exact ⟨[opened.addTerm w], by simp, by simpa using ⟨rfl, w.2⟩, hs.append hw⟩

lemma adds_weighted (w : Weight) (v : Value) (param : Option Word) :
    Adds (v.tokens ++ .action (.addOp w.op) :: paramTokens param) := by
  have h := v.adds.addOp w.op
  cases param with
  | none => exact h
  | some p => simpa [paramTokens] using h.append (adds_term p)

end

section

def Body.Open (b : Body) : Prop :=
  ∃ f terms, b = .query (.grouped f terms false) ∧ ∀ t ∈ terms, t.mod.negates = false

def Stays (ts : Tokens) : Prop :=
  ∀ b : Body, b.Open → ∃ b' : Body, b'.Open ∧
    ∀ op prevOp z, ∃ op', Leads ts (⟨b, op, prevOp⟩ :: z) (⟨b', op', prevOp⟩ :: z)

variable {a b : Tokens}

lemma Stays.append (h : Stays a) (h' : Stays b) : Stays (a ++ b) := by
  intro l hl
  obtain ⟨l', ho, hr⟩ := h l hl
  obtain ⟨l'', ho', hr'⟩ := h' l' ho
  refine ⟨l'', ho', fun op prevOp z => ?_⟩
  obtain ⟨op', h₁⟩ := hr op prevOp z
  obtain ⟨op'', h₂⟩ := hr' op' prevOp z
  exact ⟨op'', h₁.append h₂⟩

lemma stays_nil : Stays [] := fun l hl => ⟨l, hl, fun op _ _ => ⟨op, .nil⟩⟩

lemma Body.Open.not_settled {l : Link} (h : l.body.Open) (z : Token) : Token.settled (l :: z) = false := by
  obtain ⟨f, terms, hb, -⟩ := h
  simp [Token.settled, isIncomplete, hb]

lemma stays_idle {c : Action} (h : ∀ text (z : Token), z.settled = false → c.run text z = .ok z) : Stays [.action c] :=
  fun l hl => ⟨l, hl, fun op prevOp z =>
    ⟨op, leads_action fun text => h text _ (Body.Open.not_settled (l := ⟨l, op, prevOp⟩) hl z)⟩⟩

lemma groupTerm_mod {w : Text} {terms : List QueryTerm} (h : ∀ t ∈ terms, t.mod.negates = false) :
    ∀ t ∈ groupTerm w terms, t.mod.negates = false := by
  induction terms with
  | nil => simp [groupTerm, Op.negates]
  | cons t terms ih =>
    cases terms with
    | nil =>
      have ht := h t (.head _)
      rw [groupTerm]
      split
      · simpa using ht
      · simpa [Op.negates] using ht
    | cons u terms =>
      rw [groupTerm]
      intro x hx
      cases hx with
      | head => exact h t (.head _)
      | tail _ hx => exact ih (fun y hy => h y (.tail _ hy)) x hx
      · simp

lemma stays_term (w : Word) : Stays (termTokens w) := by
  intro l hl
  obtain ⟨f, terms, rfl, hm⟩ := hl
  refine ⟨.query (.grouped f (groupTerm w terms) false), ⟨f, _, rfl, groupTerm_mod hm⟩, fun op prevOp z => ?_⟩
  refine ⟨op, leads_text ?_⟩
  have hs : Token.settled (⟨.query (.grouped f terms false), op, prevOp⟩ :: z) = false :=
    Body.Open.not_settled (l := ⟨.query (.grouped f terms false), op, prevOp⟩) ⟨f, terms, rfl, hm⟩ z
  rw [Action.run, Token.addTerm, Token.startBasic, if_neg (by simp [hs])]
  rfl

lemma stays_words (ws : List Word) : Stays (ws.flatMap termTokens) := by
  induction ws with
  | nil => exact stays_nil
  | cons w ws ih => exact (stays_term w).append ih

lemma stays_field (w : Word) : Stays (fieldTokens w) := by
  intro l hl
  obtain ⟨f, terms, rfl, hm⟩ := hl
  exact ⟨.query (.grouped w terms false), ⟨w, terms, rfl, hm⟩, fun op _ _ => ⟨op, leads_text rfl⟩⟩

lemma stays_addOp (o : Op) : Stays [.action (.addOp o)] :=
  fun l hl => ⟨l, hl, fun _ _ _ => ⟨o, leads_action fun _ => rfl⟩⟩

lemma stays_join (join : Option Joiner) : Stays (joinTokens join) := by
  cases join with
  | none => exact stays_nil
  | some j => exact stays_addOp j.op

lemma stays_required : Stays [.action (.addTermOp .unaryReq)] := by
  intro l hl
  obtain ⟨f, terms, rfl, hm⟩ := hl
  refine ⟨.query (.grouped f (terms ++ [⟨[], .unaryReq⟩]) false), ⟨f, _, rfl, ?_⟩, fun op prevOp z => ?_⟩
  · intro t ht
    cases mem_append.mp ht with
    | inl h => exact hm t h
    | inr h =>
      rw [mem_singleton.mp h]
      rfl
  · have hs : Token.settled (⟨.query (.grouped f terms false), op, prevOp⟩ :: z) = false :=
      Body.Open.not_settled (l := ⟨.query (.grouped f terms false), op, prevOp⟩) ⟨f, terms, rfl, hm⟩ z
    refine ⟨op, leads_action fun _ => ?_⟩
    rw [Action.run, Token.addTermOp, Token.startBasic, if_neg (by simp [hs])]
    rfl

lemma stays_group (h : Stays a) : Stays (groupTokens a) := by
  have hs : Stays [.action .startSubQuery] := stays_idle fun _ z hz => by
    simp [Action.run, Token.startSubQuery, hz]
  have he : Stays [.action .endSubQuery] := stays_idle fun _ z hz => by
    simp [Action.run, Token.endSubQuery, hz]
  exact (hs.append h).append he

lemma Phrase.stays {p : Phrase} (h : p.flat = true) : Stays p.tokens := by
  induction p with
  | nil => exact stays_nil
  | operand neg o join rest ih =>
    cases neg with
    | some n => cases o <;> simp [flat] at h
    | none =>
      have ho : Stays o.tokens := by
        cases o with
        | value v => exact stays_words _
        | basic f v =>
          have hs : Stays [.action .startBasic] := stays_idle fun _ z hz => by
            simp [Action.run, Token.startBasic, hz]
          exact (hs.append (stays_field f)).append (stays_words _)
        | range => simp [flat] at h
      have hr : rest.flat = true := by cases o <;> simp_all [flat]
      exact (ho.append (stays_join join)).append (ih hr)
  | required v rest ih => exact (stays_required.append (stays_words _)).append (ih h)
  | weighted w v param rest ih =>
    have hp : Stays (paramTokens param) := by
      cases param with
      | none => exact stays_nil
      | some p => exact stays_term p
    exact ((stays_words _).append ((stays_addOp w.op).append hp)).append (ih h)
  | fieldGroup => simp [flat] at h
  | group inner join rest ih ih' =>
    simp only [flat, Bool.and_eq_true] at h
    exact ((stays_group (ih h.1)).append (stays_join join)).append (ih' h.2)
  | notGroup => simp [flat] at h

lemma leads_fieldGroup {p : Phrase} (h : p.flat = true) (f : Word) :
    ∃ (g : Text) (terms : List QueryTerm), (∀ t ∈ terms, t.mod.negates = false) ∧ ∀ z : Token, z.settled = true →
      ∃ op, Leads (fieldGroupTokens f p.tokens) z (⟨.query (.grouped g terms true), op, z.head?.map Link.op⟩ :: z) := by
  obtain ⟨b, ⟨g, terms, rfl, hm⟩, hr⟩ := ((stays_field f).append (stays_group (Phrase.stays h)))
    (.query (.grouped [] [] false)) ⟨[], [], rfl, by simp⟩
  refine ⟨g, terms, hm, fun z hz => ?_⟩
  have hs : Leads [.action .startGrouped] z (⟨.query (.grouped [] [] false), .binOr, z.head?.map Link.op⟩ :: z) :=
    leads_action fun _ => by
      rw [Action.run, Token.startGrouped, if_pos hz]
      rfl
  obtain ⟨op, hr⟩ := hr .binOr (z.head?.map Link.op) z
  have he : Leads [.action .setCompleted] (⟨.query (.grouped g terms false), op, z.head?.map Link.op⟩ :: z)
      (⟨.query (.grouped g terms true), op, z.head?.map Link.op⟩ :: z) := leads_action fun _ => rfl
  refine ⟨op, ?_⟩
  simpa [fieldGroupTokens] using (hs.append hr).append he

lemma adds_fieldGroup {p : Phrase} (h : p.flat = true) (f : Word) : Adds (fieldGroupTokens f p.tokens) := by
  intro z hz
  obtain ⟨g, terms, -, hr⟩ := leads_fieldGroup h f
  obtain ⟨op, hl⟩ := hr z hz
  exact ⟨[⟨.query (.grouped g terms true), op, z.head?.map Link.op⟩], by simp, by simp [Link.Leaf], hl⟩

end

section

def Leaves (P : List Link → Prop) (ls : List Link) : Prop :=
  ∃ xs ys, ls = xs ++ ys ∧ xs ≠ [] ∧ (∀ x ∈ xs, x.Leaf) ∧ P ys

def Bracketed (P Q : List Link → Prop) (ls : List Link) : Prop :=
  ∃ s xs e ys, ls = s :: (xs ++ e :: ys) ∧ s.IsStart ∧ e.IsEnd ∧ P xs ∧ Q ys

def Phrase.Shape : Phrase → List Link → Prop
  | nil => fun ls => ls = []
  | operand _ _ _ rest => Leaves rest.Shape
  | required _ rest => Leaves rest.Shape
  | weighted _ _ _ rest => Leaves rest.Shape
  | fieldGroup _ _ _ _ rest => Leaves rest.Shape
  | group inner _ rest => Bracketed inner.Shape rest.Shape
  | notGroup inner rest => Bracketed (fun ls => ∃ n xs, ls = n :: xs ∧ n.body = .notQuery ∧ inner.Shape xs) rest.Shape

def Builds (ts : Tokens) (P : List Link → Prop) : Prop :=
  ∀ z : Token, z.settled = true → ∃ ls, P ls ∧ Token.settled (ls.reverse ++ z) = true ∧ Leads ts z (ls.reverse ++ z)

variable {a b : Tokens} {P Q : List Link → Prop}

lemma Adds.builds (h : Adds a) (h' : Builds b P) : Builds (a ++ b) (Leaves P) := by
  intro z hz
  obtain ⟨xs, hne, hl, hr⟩ := h z hz
  obtain ⟨ys, hy, hs, hr'⟩ := h' (xs ++ z) (settled_append hne hl z)
  refine ⟨xs.reverse ++ ys, ⟨xs.reverse, ys, rfl, by simpa using hne, by simpa using hl, hy⟩, ?_, ?_⟩
  · simpa using hs
  · simpa using hr.append hr'

lemma leads_end {z : Token} (hz : z.settled = true) (join : Option Joiner) :
    ∃ e : Link, e.IsEnd ∧ e.op = join.elim .notAnOp Joiner.op ∧
      Leads (.action .endSubQuery :: joinTokens join) z (e :: z) := by
  let e (o : Op) : Link := ⟨.subQuery false, o, z.head?.map op⟩
  have he : Leads [.action .endSubQuery] z (e .notAnOp :: z) :=
    leads_action fun _ => by
      rw [Action.run, Token.endSubQuery, if_pos hz]
      rfl
  cases join with
  | none => exact ⟨e .notAnOp, rfl, rfl, he⟩
  | some j => exact ⟨e j.op, rfl, rfl, he.append (leads_action fun _ => rfl)⟩

lemma leads_start {z : Token} (hz : z.settled = true) :
    Leads [.action .startSubQuery] z (⟨.subQuery true, .notAnOp, z.head?.map op⟩ :: z) :=
  leads_action fun _ => by
    rw [Action.run, Token.startSubQuery, if_pos hz]
    rfl

lemma Builds.bracketed (h : Builds a P) (h' : Builds b Q) (join : Option Joiner) :
    Builds (groupTokens a ++ joinTokens join ++ b) (Bracketed P Q) := by
  intro z hz
  let s : Link := ⟨.subQuery true, .notAnOp, z.head?.map op⟩
  have hs : s.IsStart := rfl
  obtain ⟨xs, hx, hsx, hrx⟩ := h (s :: z) (settled_marker hs z)
  obtain ⟨e, he, -, hre⟩ := leads_end hsx join
  obtain ⟨ys, hy, hsy, hry⟩ := h' _ (settled_marker he _)
  refine ⟨s :: (xs ++ e :: ys), ⟨s, xs, e, ys, rfl, hs, he, hx, hy⟩, ?_, ?_⟩
  · simpa using hsy
  · have hr := (((leads_start hz).append hrx).append hre).append hry
    simpa [groupTokens] using hr

theorem Phrase.builds {p : Phrase} (h : p.plain = true) : Builds p.tokens p.Shape := by
  induction p with
  | nil => exact fun z hz => ⟨[], rfl, hz, .nil⟩
  | operand neg o join rest ih => exact ((o.adds.neg neg).join join).builds (ih h)
  | required v rest ih => exact (adds_required v).builds (ih h)
  | weighted w v param rest ih => exact (adds_weighted w v param).builds (ih h)
  | fieldGroup neg f inner join rest _ ih =>
    simp only [plain, Bool.and_eq_true] at h
    exact (((adds_fieldGroup h.1 f).neg neg).join join).builds (ih h.2)
  | group inner join rest ih ih' =>
    simp only [plain, Bool.and_eq_true] at h
    exact (ih h.1).bracketed (ih' h.2) join
  | notGroup inner rest ih ih' =>
    simp only [plain, Bool.and_eq_true] at h
    have hn : Builds (.action (.setNotQuery .unaryNot) :: inner.tokens)
        (fun ls => ∃ n xs, ls = n :: xs ∧ n.body = .notQuery ∧ inner.Shape xs) := by
      intro z _
      let n : Link := ⟨.notQuery, .unaryNot, z.head?.map op⟩
      obtain ⟨xs, hx, hs, hr⟩ := ih h.1 (n :: z) rfl
      refine ⟨n :: xs, ⟨n, xs, rfl, rfl, hx⟩, by simpa using hs, ?_⟩
      simpa using Leads.cons (c := .setNotQuery .unaryNot) (fun _ => rfl) hr
    have hb := hn.bracketed (ih' h.2) none
    rwa [joinTokens, append_nil] at hb

theorem Phrase.buildChain_shape {p : Phrase} (h : p.plain = true) :
    ∃ chain, buildChain p.tokens = .ok chain ∧ p.Shape chain := by
  obtain ⟨ls, hs, -, hr⟩ := Phrase.builds h [] rfl
  refine ⟨ls, ?_, hs⟩
  rw [hr.buildChain]
  simp

end

end Goiardi.Search
