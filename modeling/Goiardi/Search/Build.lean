import Goiardi.Search.Phrase

/-! The chain that the tokens of a phrase build. -/

namespace Goiardi.Search

open List

def Leads (ts : Tokens) (z z' : Token) : Prop :=
  ∀ text, ∃ text', ts.foldlM Execution.step ⟨text, z⟩ = .ok ⟨text', z'⟩

section

variable {a b : Tokens} {z z' z'' : Token}

lemma Leads.nil : Leads [] z z := fun text => ⟨text, rfl⟩

lemma Leads.append (h : Leads a z z') (h' : Leads b z' z'') : Leads (a ++ b) z z'' := by
  intro text
  obtain ⟨t, ht⟩ := h text
  obtain ⟨u, hu⟩ := h' t
  refine ⟨u, ?_⟩
  rw [foldlM_append, ht]
  exact hu

lemma leads_action {c : Action} (h : ∀ text, c.run text z = .ok z') : Leads [.action c] z z' := by
  intro text
  refine ⟨text, ?_⟩
  simp only [foldlM_cons, foldlM_nil, Execution.step, h, ok_bind]
  rfl

lemma leads_text {w : Text} {c : Action} (h : c.run w z = .ok z') : Leads [.text w, .action c] z z' := by
  intro text
  refine ⟨w, ?_⟩
  simp only [foldlM_cons, foldlM_nil, Execution.step, h, ok_bind]
  rfl

lemma Leads.cons {c : Action} (h : ∀ text, c.run text z = .ok z') (h' : Leads b z' z'') :
    Leads (.action c :: b) z z'' :=
  (leads_action h).append h'

lemma Leads.buildChain (h : Leads a [] z) : buildChain a = .ok z.reverse := by
  obtain ⟨text, ht⟩ := h []
  rw [Search.buildChain, ht]
  rfl

end

section

def Grows (ts : Tokens) : Prop := ∀ z, ∃ z', z' ≠ [] ∧ Leads ts z z'

def Keeps (ts : Tokens) : Prop := ∀ z, z ≠ [] → ∃ z', z' ≠ [] ∧ Leads ts z z'

variable {a b : Tokens}

lemma Grows.keeps (h : Grows a) : Keeps a := fun z _ => h z

lemma Grows.append (h : Grows a) (h' : Keeps b) : Grows (a ++ b) := by
  intro z
  obtain ⟨z', hne, hl⟩ := h z
  obtain ⟨z'', hn', hl'⟩ := h' z' hne
  exact ⟨z'', hn', hl.append hl'⟩

lemma Keeps.append (h : Keeps a) (h' : Keeps b) : Keeps (a ++ b) := by
  intro z hz
  obtain ⟨z', hne, hl⟩ := h z hz
  obtain ⟨z'', hn', hl'⟩ := h' z' hne
  exact ⟨z'', hn', hl.append hl'⟩

lemma keeps_nil : Keeps [] := fun z hz => ⟨z, hz, .nil⟩

lemma append_ne_nil (z : Token) (body : Body) (op : Op) : z.append body op ≠ [] := by simp [Token.append]

lemma settled_or_ne_nil (z : Token) : z.settled = true ∨ z ≠ [] := by
  cases z with
  | nil => exact .inl rfl
  | cons l z => exact .inr (by simp)

lemma startBasic_ne_nil (z : Token) : z.startBasic ≠ [] := by
  rw [Token.startBasic]
  split
  · exact append_ne_nil _ _ _
  · next h => exact (settled_or_ne_nil z).resolve_left h

lemma startGrouped_ne_nil (z : Token) : z.startGrouped ≠ [] := by
  rw [Token.startGrouped]
  split
  · exact append_ne_nil _ _ _
  · next h => exact (settled_or_ne_nil z).resolve_left h

lemma startSubQuery_ne_nil (z : Token) : z.startSubQuery ≠ [] := by
  rw [Token.startSubQuery]
  split
  · exact append_ne_nil _ _ _
  · next h => exact (settled_or_ne_nil z).resolve_left h

lemma endSubQuery_ne_nil (z : Token) : z.endSubQuery ≠ [] := by
  rw [Token.endSubQuery]
  split
  · exact append_ne_nil _ _ _
  · next h => exact (settled_or_ne_nil z).resolve_left h

lemma onLatest_of_ne_nil {z : Token} (h : z ≠ []) (f : Link → Link) : ∃ z', z' ≠ [] ∧ z.onLatest f = .ok z' := by
  cases z with
  | nil => exact absurd rfl h
  | cons l z => exact ⟨f l :: z, by simp, rfl⟩

lemma grows_start {c : Action} (f : Token → Token) (hf : ∀ z, f z ≠ []) (h : ∀ text z, c.run text z = .ok (f z)) :
    Grows [.action c] :=
  fun z => ⟨f z, hf z, leads_action fun text => h text z⟩

lemma keeps_onLatest {c : Action} (f : Link → Link) (h : ∀ text z, c.run text z = z.onLatest f) :
    Keeps [.action c] := by
  intro z hz
  obtain ⟨z', hne, hl⟩ := onLatest_of_ne_nil hz f
  exact ⟨z', hne, leads_action fun text => (h text z).trans hl⟩

lemma grows_term (w : Word) : Grows (termTokens w) := by
  intro z
  obtain ⟨z', hne, hl⟩ := onLatest_of_ne_nil (startBasic_ne_nil z) (Link.addTerm w)
  exact ⟨z', hne, leads_text hl⟩

lemma keeps_field (f : Word) : Keeps (fieldTokens f) := by
  intro z hz
  obtain ⟨z', hne, hl⟩ := onLatest_of_ne_nil hz (Link.addField f)
  exact ⟨z', hne, leads_text hl⟩

lemma keeps_range (w : Word) : Keeps [.text w, .action .addRange] := by
  intro z hz
  obtain ⟨z', hne, hl⟩ := onLatest_of_ne_nil hz (Link.addTerm w)
  exact ⟨z', hne, leads_text hl⟩

lemma keeps_words (ws : List Word) : Keeps (ws.flatMap termTokens) := by
  induction ws with
  | nil => exact keeps_nil
  | cons w ws ih => exact (grows_term w).keeps.append ih

lemma Value.words_ne_nil (v : Value) : v.words ≠ [] := by cases v <;> simp [Value.words]

lemma Value.grows (v : Value) : Grows v.tokens := by
  cases hw : v.words with
  | nil => exact absurd hw v.words_ne_nil
  | cons w ws =>
    rw [Value.tokens, hw]
    exact (grows_term w).append (keeps_words ws)

lemma Operand.grows (o : Operand) : Grows o.tokens := by
  cases o with
  | value v => exact v.grows
  | basic f v =>
    exact ((grows_start _ startBasic_ne_nil fun _ _ => rfl).append (keeps_field f)).append v.grows.keeps
  | range inclusive f start stop =>
    exact ((grows_start _ (fun z => by cases z <;> exact append_ne_nil _ _ _) fun _ _ => rfl).append (keeps_field f)).append
      ((keeps_range start).append (keeps_range stop))

lemma keeps_join (join : Option Joiner) : Keeps (joinTokens join) := by
  cases join with
  | none => exact keeps_nil
  | some j => exact keeps_onLatest _ fun _ _ => rfl

lemma grows_neg {ts : Tokens} (neg : Option Negation) (h : Grows ts) : Grows (negTokens neg ++ ts) := by
  cases neg with
  | none => exact h
  | some n => exact (grows_start _ (fun z => append_ne_nil z _ _) fun _ _ => rfl).append h.keeps

lemma grows_group {ts : Tokens} (h : Keeps ts) : Grows (groupTokens ts) :=
  ((grows_start _ startSubQuery_ne_nil fun _ _ => rfl).append h).append
    (grows_start _ endSubQuery_ne_nil fun _ _ => rfl).keeps

lemma grows_fieldGroup {ts : Tokens} (f : Word) (h : Keeps ts) : Grows (fieldGroupTokens f ts) :=
  (((grows_start _ startGrouped_ne_nil fun _ _ => rfl).append (keeps_field f)).append (grows_group h).keeps).append
    (keeps_onLatest _ fun _ _ => rfl)

lemma Phrase.keeps_of {p : Phrase} (h : p = .nil ∨ Grows p.tokens) : Keeps p.tokens := by
  rcases h with rfl | h
  · exact keeps_nil
  · exact h.keeps

lemma Phrase.nil_or_grows (p : Phrase) : p = .nil ∨ Grows p.tokens := by
  induction p with
  | nil => exact .inl rfl
  | operand neg o join rest ih =>
    exact .inr (((grows_neg neg o.grows).append (keeps_join join)).append (keeps_of ih))
  | required v rest ih =>
    have hs : Grows [.action (.addTermOp .unaryReq)] := by
      intro z
      obtain ⟨z', hne, hl⟩ := onLatest_of_ne_nil (startBasic_ne_nil z) (Link.addTermOp .unaryReq)
      exact ⟨z', hne, leads_action fun _ => hl⟩
    exact .inr ((hs.append v.grows.keeps).append (keeps_of ih))
  | weighted w v param rest ih =>
    have hop : Keeps [.action (.addOp w.op)] := keeps_onLatest _ fun _ _ => rfl
    exact .inr ((v.grows.append (hop.append (by cases param; exacts [keeps_nil, (grows_term _).keeps]))).append (keeps_of ih))
  | fieldGroup neg f inner join rest ih ih' =>
    exact .inr (((grows_neg neg (grows_fieldGroup f (keeps_of ih))).append (keeps_join join)).append (keeps_of ih'))
  | group inner join rest ih ih' =>
    exact .inr (((grows_group (keeps_of ih)).append (keeps_join join)).append (keeps_of ih'))
  | notGroup inner rest ih ih' =>
    have hn : Keeps [.action (.setNotQuery .unaryNot)] :=
      (grows_start _ (fun z => append_ne_nil z _ _) fun _ _ => rfl).keeps
    exact .inr ((grows_group (hn.append (keeps_of ih))).append (keeps_of ih'))

theorem Phrase.buildChain_ok (p : Phrase) : ∃ chain, buildChain p.tokens = .ok chain := by
  rcases p.nil_or_grows with rfl | h
  · exact ⟨[], rfl⟩
  · obtain ⟨z, -, hl⟩ := h []
    exact ⟨z.reverse, hl.buildChain⟩

end

end Goiardi.Search
