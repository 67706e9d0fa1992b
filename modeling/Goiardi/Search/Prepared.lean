import Goiardi.Search.Statement

/-! Whole statements: what a walk along a chain gathers, and when the statement made of it is well formed. -/

namespace Goiardi.Search.Postgres

open Sql List Except PgQuery

section

variable {lib : Library} {cvt : Bool} {l nend : Link} {chain inner after walked : List Link} {n : ℕ}

lemma extractSubQuery_append (h : extractSubQuery chain = .ok (inner, nend, after)) :
    chain = inner ++ nend :: after := by
  cases chain with
  | nil => cases h
  | cons l chain =>
    rw [extractSubQuery] at h
    split at h
    · next hc =>
      cases h
      exact Brackets.closing_append hc
    · cases h

lemma extractSubQuery_end (h : extractSubQuery chain = .ok (inner, nend, after)) : nend.body = .subQuery false := by
  cases chain with
  | nil => cases h
  | cons l chain =>
    rw [extractSubQuery] at h
    split at h
    · next hc =>
      cases h
      obtain ⟨m, hm, hd⟩ := Brackets.closing_last Nat.one_pos hc
      unfold Link.depth at hd
      split at hd
      · cases hd
      · next hb => exact hb
      · exact absurd hd hm.ne'
    · cases h

lemma condition_isOk {t : ℕ} {queryStrs : List Clause} :
    (∃ w, condition t queryStrs = .ok w) ↔ (t = 1 → queryStrs ≠ []) := by
  unfold condition
  split
  · cases queryStrs <;> simp_all
  · simp_all

lemma craftFullQuery_isOk {idx : Text} {pq : PgQuery} {t : ℕ} :
    (∃ r, craftFullQuery idx pq t = .ok r) ↔ (t = 1 → pq.queryStrs ≠ []) := by
  rw [← condition_isOk, craftFullQuery]
  constructor
  · rintro ⟨r, hr⟩
    obtain ⟨w, hw, -⟩ := bind_ok hr
    exact ⟨w, hw⟩
  · rintro ⟨w, hw⟩
    rw [hw]
    exact ⟨_, rfl⟩

variable (lib cvt) in
inductive Walks : Op → ℕ → PgQuery → List Link → PgQuery → ℕ → List Link → Prop
  | nil {op : Op} {t : ℕ} {pq : PgQuery} : Walks op t pq [] pq t []
  | query {op : Op} {t t' : ℕ} {pq pq' : PgQuery} {l : Link} {chain walked : List Link} {q : Query}
      (hl : l.body = .query q)
      (h : Walks l.op ((build lib cvt q t op).tNum + 1) (pq.add lib cvt ⟨q, t, op⟩) chain pq' t' walked) :
      Walks op t pq (l :: chain) pq' t' (l :: walked)
  | notQuery {op : Op} {t t' : ℕ} {pq pq' : PgQuery} {l : Link} {chain walked : List Link} (hl : l.body = .notQuery)
      (h : Walks op t pq chain pq' t' walked) : Walks op t pq (l :: chain) pq' t' (l.addOp op :: walked)
  | group {op : Op} {t t₁ t' : ℕ} {pq np pq' : PgQuery} {l nend : Link} {b : Bool}
      {chain inner after walked left : List Link} (hl : l.body = .subQuery b)
      (he : extractSubQuery chain = .ok (inner, nend, after)) (hne : inner ≠ [])
      (hi : Walks .notAnOp t .empty inner np t₁ walked) (hs : t₁ = 1 → np.queryStrs ≠ [])
      (h : Walks nend.op t₁ (pq.addGroup op np) after pq' t' left) : Walks op t pq (l :: chain) pq' t' (l :: walked)
  | hollow {op : Op} {t t₁ t' : ℕ} {pq np pq' : PgQuery} {l nend : Link} {b : Bool}
      {chain after walked left : List Link} (hl : l.body = .subQuery b)
      (he : extractSubQuery chain = .ok ([], nend, after))
      (hi : Walks .notAnOp t .empty (nend :: after) np t₁ walked) (hs : t₁ = 1 → np.queryStrs ≠ [])
      (h : Walks nend.op t₁ (pq.addGroup op np) walked.tail pq' t' left) : Walks op t pq (l :: chain) pq' t' [l]

lemma Walks.length_le {op : Op} {t t' : ℕ} {pq pq' : PgQuery} (h : Walks lib cvt op t pq chain pq' t' walked) :
    walked.length ≤ chain.length := by
  induction h with
  | nil => exact le_rfl
  | query _ _ ih | notQuery _ _ ih => exact Nat.succ_le_succ ih
  | group _ he _ _ _ _ ih =>
    rw [extractSubQuery_append he, length_cons, length_cons, length_append]
    omega
  | hollow => simp

lemma walks_of_executeFrom {op : Op} {t t' : ℕ} {pq pq' : PgQuery} (hn : chain.length ≤ n)
    (h : executeFrom lib cvt n op t pq chain = .ok (pq', t', walked)) : Walks lib cvt op t pq chain pq' t' walked := by
  induction n generalizing op t t' pq pq' chain walked with
  | zero =>
    obtain rfl := eq_nil_of_length_eq_zero (Nat.le_zero.mp hn)
    cases h
    exact .nil
  | succ n ih =>
    cases chain with
    | nil =>
      cases h
      exact .nil
    | cons l chain =>
      rw [length_cons] at hn
      rw [executeFrom] at h
      split at h
      · next q hq =>
        obtain ⟨⟨pq₁, t₁, walked₁⟩, h₁, h⟩ := bind_ok h
        cases h
        exact .query hq (ih (by omega) h₁)
      · next b hb =>
        obtain ⟨⟨inner, nend, after⟩, he, h⟩ := bind_ok h
        have hl := congrArg List.length (extractSubQuery_append he)
        rw [length_append, length_cons] at hl
        dsimp only at h
        split at h
        · next hi =>
          subst hi
          obtain ⟨⟨np, t₁, walked₁⟩, h₁, h⟩ := bind_ok h
          obtain ⟨r, hr, h⟩ := bind_ok h
          obtain ⟨⟨pq₂, t₂, walked₂⟩, h₂, h⟩ := bind_ok h
          cases h
          have hw := ih (by rw [length_nil, length_cons] at *; omega) h₁
          have hle := hw.length_le
          refine .hollow hb he hw (craftFullQuery_isOk.mp ⟨r, hr⟩) (ih ?_ h₂)
          rw [length_tail]
          rw [length_cons] at hle
          omega
        · next hi =>
          obtain ⟨⟨np, t₁, walked₁⟩, h₁, h⟩ := bind_ok h
          obtain ⟨r, hr, h⟩ := bind_ok h
          obtain ⟨⟨pq₂, t₂, walked₂⟩, h₂, h⟩ := bind_ok h
          cases h
          exact .group hb he hi (ih (by omega) h₁) (craftFullQuery_isOk.mp ⟨r, hr⟩) (ih (by omega) h₂)
      · next hb =>
        obtain ⟨⟨pq₁, t₁, walked₁⟩, h₁, h⟩ := bind_ok h
        cases h
        exact .notQuery hb (ih (by omega) h₁)

end

section

variable (lib : Library) (cvt : Bool)

def PgQuery.append (pq new : PgQuery) : PgQuery :=
  ⟨pq.paths ++ new.paths, pq.queryStrs ++ new.queryStrs, pq.arguments ++ new.arguments, pq.calls ++ new.calls⟩

structure Segment (t t' : ℕ) (new : PgQuery) : Prop where
  paths : new.paths = new.calls.flatMap (Call.paths lib cvt)
  arguments : new.arguments = new.calls.flatMap fun c => (c.built lib cvt).args
  slots : slotted new.queryStrs.flatten = new.calls.flatMap fun c => slotted (c.built lib cvt).clause
  steady : ∀ c ∈ new.queryStrs, Steady c
  tables : ∀ c ∈ new.calls, (c.built lib cvt).tNum < t'
  count : t + new.calls.length ≤ t'
  still : new.calls = [] → t' = t

variable {lib cvt} {t t₁ t' : ℕ} {pq np new new' : PgQuery} {op : Op}

lemma PgQuery.empty_append (pq : PgQuery) : empty.append pq = pq := by simp [append, empty]

lemma segment_nil : Segment lib cvt t t .empty :=
  ⟨rfl, rfl, rfl, by simp [empty], by simp [empty], le_rfl, fun _ => rfl⟩

lemma segment_call (c : Call) : Segment lib cvt c.tNum ((c.built lib cvt).tNum + 1) (empty.add lib cvt c) := by
  have hm := c.made lib cvt
  refine ⟨by simp [add, empty], by simp [add, empty],
    by simp [add, empty], ?_, ?_, ?_, by simp [add]⟩
  · simpa [add, empty] using hm.steady
  · simp [add, empty]
  · simpa [add, empty] using hm.tNum_le

lemma Segment.append (h : Segment lib cvt t t₁ new) (h' : Segment lib cvt t₁ t' new') :
    Segment lib cvt t t' (new.append new') := by
  have hcn := h.count
  have hc' := h'.count
  refine ⟨?_, ?_, ?_, ?_, ?_, ?_, ?_⟩
  · simp only [PgQuery.append, flatMap_append, h.paths, h'.paths]
  · simp only [PgQuery.append, flatMap_append, h.arguments, h'.arguments]
  · simp only [PgQuery.append, flatten_append, slotted_append, flatMap_append, h.slots, h'.slots]
  · intro c hc
    rcases mem_append.mp hc with hc | hc
    · exact h.steady c hc
    · exact h'.steady c hc
  · intro c hc
    rcases mem_append.mp hc with hc | hc
    · exact (h.tables c hc).trans_le (by omega)
    · exact h'.tables c hc
  · simp only [PgQuery.append, length_append]
    omega
  · intro hnl
    obtain ⟨hn, hn'⟩ := append_eq_nil_iff.mp hnl
    rw [h'.still hn', h.still hn]

lemma Segment.group (op : Op) (h : Segment lib cvt t t' np) : Segment lib cvt t t' (empty.addGroup op np) := by
  refine ⟨?_, ?_, ?_, ?_, ?_, ?_, ?_⟩
  · simpa [addGroup, empty] using h.paths
  · simpa [addGroup, empty] using h.arguments
  · have hs : slotted ([Piece.space].intercalate np.queryStrs) = slotted np.queryStrs.flatten := by
      rw [slotted_intercalate rfl]
      induction np.queryStrs with
      | nil => rfl
      | cons c cs ih => rw [flatMap_cons, ih, flatten_cons, slotted_append]
    simpa [addGroup, empty, hs] using h.slots
  · intro c hc
    obtain rfl := mem_singleton.mp hc
    have hw := (steady_intercalate (steady_piece (p := .space) (by simp) (by simp)) h.steady).wrap
    exact ((steady_binOp op).append hw).of_eq (by simp)
  · simpa [addGroup, empty] using h.tables
  · simpa [addGroup, empty] using h.count
  · simpa [addGroup, empty] using h.still

variable {chain walked : List Link} {pq' : PgQuery}

lemma segment_group (h : ∃ new, np = PgQuery.empty.append new ∧ Segment lib cvt t t₁ new)
    (h' : ∃ new, pq' = (pq.addGroup op np).append new ∧ Segment lib cvt t₁ t' new) :
    ∃ new, pq' = pq.append new ∧ Segment lib cvt t t' new := by
  obtain ⟨new, hnp, hs⟩ := h
  obtain ⟨new', rfl, hs'⟩ := h'
  rw [empty_append] at hnp
  subst hnp
  refine ⟨(PgQuery.empty.addGroup op np).append new', ?_, (hs.group _).append hs'⟩
  simp [PgQuery.append, PgQuery.addGroup, PgQuery.empty]

theorem Walks.segment (h : Walks lib cvt op t pq chain pq' t' walked) :
    ∃ new, pq' = pq.append new ∧ Segment lib cvt t t' new := by
  induction h with
  | @nil _ _ pq => exact ⟨.empty, by simp [PgQuery.append, PgQuery.empty], segment_nil⟩
  | @query op t _ pq _ _ _ _ q _ _ ih =>
    obtain ⟨new, rfl, hs⟩ := ih
    refine ⟨_, ?_, (segment_call ⟨q, t, op⟩).append hs⟩
    simp [PgQuery.append, PgQuery.add, PgQuery.empty]
  | notQuery _ _ ih => exact ih
  | group _ _ _ _ _ _ ih ih' | hollow _ _ _ _ _ ih ih' => exact segment_group ih ih'

end

section

variable {lib : Library} {cvt : Bool} {op : Op} {t t' : ℕ} {pq pq' : PgQuery} {chain walked : List Link}
  {q : Query}

def Asked (chain : List Link) (q : Query) : Prop := ∃ l ∈ chain, l.body = .query q

lemma asked_cons {l : Link} : Asked (l :: chain) q ↔ l.body = .query q ∨ Asked chain q := by simp [Asked]

lemma asked_marker {l : Link} {b : Bool} (hl : l.body = .subQuery b) : Asked (l :: chain) q ↔ Asked chain q := by
  rw [asked_cons, hl]
  simp

lemma asked_append {chain' : List Link} : Asked (chain ++ chain') q ↔ Asked chain q ∨ Asked chain' q := by
  simp only [Asked, mem_append]
  constructor
  · rintro ⟨l, h | h, hl⟩
    · exact .inl ⟨l, h, hl⟩
    · exact .inr ⟨l, h, hl⟩
  · rintro (⟨l, h, hl⟩ | ⟨l, h, hl⟩)
    · exact ⟨l, .inl h, hl⟩
    · exact ⟨l, .inr h, hl⟩

lemma Walks.asked_walked (h : Walks lib cvt op t pq chain pq' t' walked) (hq : Asked walked q) : Asked chain q := by
  induction h with
  | nil => exact hq
  | query hl _ ih =>
    rw [asked_cons] at hq ⊢
    exact hq.imp_right ih
  | notQuery hl _ ih =>
    rw [asked_cons] at hq ⊢
    exact hq.imp_right ih
  | group hl he _ _ _ _ ih =>
    rw [asked_cons] at hq ⊢
    rw [extractSubQuery_append he, asked_append]
    exact hq.imp_right fun h => .inl (ih h)
  | hollow hl =>
    rw [asked_cons] at hq ⊢
    exact .inl (hq.resolve_right (by simp [Asked]))

def PgQuery.Calls (pq : PgQuery) (q : Query) : Prop := ∃ c ∈ pq.calls, c.query = q

lemma PgQuery.calls_empty : ¬ empty.Calls q := by simp [PgQuery.Calls, empty]

lemma PgQuery.calls_add {c : Call} : (pq.add lib cvt c).Calls q ↔ pq.Calls q ∨ c.query = q := by
  simp only [Calls, add, mem_append, mem_singleton]
  constructor
  · rintro ⟨c', h | rfl, hq⟩
    · exact .inl ⟨c', h, hq⟩
    · exact .inr hq
  · rintro (⟨c', h, hq⟩ | hq)
    · exact ⟨c', .inl h, hq⟩
    · exact ⟨c, .inr rfl, hq⟩

lemma PgQuery.calls_addGroup {np : PgQuery} : (pq.addGroup op np).Calls q ↔ pq.Calls q ∨ np.Calls q := by
  simp only [Calls, addGroup, mem_append]
  constructor
  · rintro ⟨c, h | h, hq⟩
    · exact .inl ⟨c, h, hq⟩
    · exact .inr ⟨c, h, hq⟩
  · rintro (⟨c, h, hq⟩ | ⟨c, h, hq⟩)
    · exact ⟨c, .inl h, hq⟩
    · exact ⟨c, .inr h, hq⟩

theorem Walks.calls (h : Walks lib cvt op t pq chain pq' t' walked) (q : Query) :
    pq'.Calls q ↔ pq.Calls q ∨ Asked chain q := by
  induction h with
  | nil => simp [Asked]
  | query hl _ ih =>
    rw [ih, calls_add, asked_cons, hl, Body.query.injEq, or_assoc]
  | notQuery hl _ ih =>
    rw [ih, asked_cons, hl]
    simp
  | group hl he _ _ _ _ ih ih' =>
    have hls := extractSubQuery_append he
    subst hls
    rw [ih', calls_addGroup, ih, asked_marker hl, asked_append, asked_marker (extractSubQuery_end he)]
    simp only [calls_empty, false_or, or_assoc]
  | hollow hl he hi _ _ ih ih' =>
    have hls := extractSubQuery_append he
    subst hls
    rw [ih', calls_addGroup, ih, nil_append, asked_marker hl]
    simp only [calls_empty, false_or, or_assoc]
    refine or_congr_right ⟨?_, .inl⟩
    rintro (h | h)
    · exact h
    · obtain ⟨l, hl, hq⟩ := h
      exact hi.asked_walked ⟨l, mem_of_mem_tail hl, hq⟩

end

section

variable {lib : Library} {cvt : Bool} {op : Op} {t t₁ t' : ℕ} {pq np new pq' : PgQuery}
  {chain walked : List Link} {q : Query}

def isQuery (l : Link) : Bool :=
  match l.body with
  | .query _ => true
  | _ => false

def startsWithQuery : List Link → Bool
  | [] => true
  | l :: chain =>
    match l.body with
    | .query _ => true
    | .notQuery => startsWithQuery chain
    | .subQuery _ =>
      match extractSubQuery chain with
      | .ok (inner, nend, after) => (if inner = [] then nend :: after else inner).any isQuery
      | .error _ => true

lemma any_isQuery_iff : chain.any isQuery = true ↔ ∃ q, Asked chain q := by
  rw [any_eq_true]
  constructor
  · rintro ⟨l, hl, hq⟩
    unfold isQuery at hq
    split at hq
    · next q hb => exact ⟨q, l, hl, hb⟩
    · cases hq
  · rintro ⟨q, l, hl, hb⟩
    exact ⟨l, hl, by simp [isQuery, hb]⟩

lemma Walks.le (h : Walks lib cvt op t pq chain pq' t' walked) : t ≤ t' := by
  obtain ⟨new, -, hs⟩ := h.segment
  have hc := hs.count
  omega

lemma Walks.still_iff (h : Walks lib cvt op t .empty chain np t' walked) : t' = t ↔ np.calls = [] := by
  obtain ⟨new, rfl, hs⟩ := h.segment
  rw [empty_append]
  refine ⟨fun ht => ?_, hs.still⟩
  have hc := hs.count
  exact eq_nil_of_length_eq_zero (by omega)

lemma Walks.calls_eq_nil_iff (h : Walks lib cvt op t .empty chain np t' walked) :
    np.calls = [] ↔ chain.any isQuery = false := by
  have hcl := h.calls
  rw [Bool.eq_false_iff, Ne, any_isQuery_iff, eq_nil_iff_forall_not_mem]
  constructor
  · rintro hn ⟨q, hq⟩
    obtain ⟨c, hc, -⟩ := (hcl q).mpr (.inr hq)
    exact hn c hc
  · intro hn c hc
    exact hn ⟨c.query, ((hcl c.query).mp ⟨c, hc, rfl⟩).resolve_left calls_empty⟩

lemma Walks.quiet (h : Walks lib cvt op t pq chain pq' t' walked) (ht : t = 1) (ht' : t' = 1) :
    pq'.queryStrs = pq.queryStrs := by
  induction h with
  | nil => rfl
  | @query op t _ _ _ _ _ _ q _ hw _ =>
    have hle := hw.le
    have hm := (Call.made lib cvt ⟨q, t, op⟩).tNum_le
    change t ≤ (build lib cvt q t op).tNum at hm
    omega
  | notQuery _ _ ih => exact ih ht ht'
  | group _ _ _ hi hs hw ih _ | hollow _ _ hi hs hw ih _ =>
    have hle := hi.le
    have hl' := hw.le
    exact absurd (ih ht (by omega)) (hs (by omega))

def Leading (chain : List Link) (pq : PgQuery) : Prop :=
  if startsWithQuery chain then pq.queryStrs.length = 1 else ∃ first rest, pq.queryStrs = first :: rest ∧ slotted first = []

lemma leading_group {sub rest : List Link} (hi : Walks lib cvt .notAnOp 0 .empty sub np t₁ walked)
    {left : List Link} {op' : Op}
    (hw : Walks lib cvt op' t₁ (empty.addGroup op np) rest pq' 1 left) :
    if sub.any isQuery then pq'.queryStrs.length = 1
    else ∃ first rest, pq'.queryStrs = first :: rest ∧ slotted first = [] := by
  have hle := hw.le
  split
  · next ha =>
    have hne : t₁ ≠ 0 := by
      intro h0
      have hn := hi.calls_eq_nil_iff.mp (hi.still_iff.mp h0)
      rw [ha] at hn
      cases hn
    rw [hw.quiet (by omega) rfl]
    rfl
  · next ha =>
    have hn := hi.calls_eq_nil_iff.mpr (Bool.eq_false_iff.mpr ha)
    obtain ⟨new, rfl, hs⟩ := hi.segment
    obtain ⟨new', rfl, -⟩ := hw.segment
    rw [empty_append] at *
    refine ⟨_, new'.queryStrs, rfl, ?_⟩
    have hg := (Segment.group op hs).slots
    have hc : (empty.addGroup op new).calls = [] := by simpa [addGroup, empty] using hn
    rw [hc, flatMap_nil] at hg
    simpa [addGroup, empty] using hg

lemma Walks.leading (h : Walks lib cvt op t pq chain pq' t' walked) (ht : t = 0) (hp : pq = .empty)
    (ht' : t' = 1) : Leading chain pq' := by
  induction h with
  | nil => omega
  | @query op t _ pq _ l chain _ q hl hw _ =>
    have hle := hw.le
    have hs : startsWithQuery (l :: chain) = true := by simp [startsWithQuery, hl]
    rw [Leading, if_pos hs, hw.quiet (by omega) ht', hp]
    rfl
  | @notQuery _ _ _ _ _ l chain _ hl _ ih =>
    have hs : startsWithQuery (l :: chain) = startsWithQuery chain := by simp [startsWithQuery, hl]
    have hld := ih ht hp ht'
    rw [Leading] at hld ⊢
    rw [hs]
    exact hld
  | @group _ _ _ _ _ _ _ l _ _ chain inner _ _ _ hl he hne hi _ hw _ _ =>
    have hs : startsWithQuery (l :: chain) = inner.any isQuery := by simp [startsWithQuery, hl, he, hne]
    subst ht hp ht'
    rw [Leading, hs]
    exact leading_group hi hw
  | @hollow _ _ _ _ _ _ _ l nend _ chain after _ _ hl he hi _ hw _ _ =>
    have hs : startsWithQuery (l :: chain) = (nend :: after).any isQuery := by simp [startsWithQuery, hl, he]
    subst ht hp ht'
    rw [Leading, hs]
    exact leading_group hi hw

end

section

inductive Alias
  | item
  | table (n : ℕ)
deriving DecidableEq

def Piece.aliases : Piece → List Alias
  | test table _ _ => [.table table]
  | absent => [.item]
  | _ => []

def Source.aliases : Source → List Alias
  | found => [.table 0]
  | items => [.item]
  | join table => [.table table]

variable (lib : Library) (cvt : Bool)

namespace Executed

variable (e : Executed)

def whereClause : Clause :=
  match condition e.tNum e.query.queryStrs with
  | .ok w => w
  | .error _ => []

def wherePart : Text := replaceArgs (3 + e.query.paths.length) 0 (clauseText e.whereClause)

def appended : List Text :=
  e.query.calls.flatMap fun c => (c.built lib cvt).args.take (slots (c.built lib cvt).clause)

structure WellFormed : Prop where
  parts : ∃ head, e.fullQuery = head ++ " WHERE " ++ e.wherePart
  numbers : ∀ n, n ∈ placeholders e.fullQuery ↔ 1 ≤ n ∧ n ≤ e.allArgs.length
  bound : ∀ k n : ℕ, (placeholders e.wherePart)[k]? = some n →
    ∃ a, (e.appended lib cvt)[k]? = some a ∧ e.allArgs[n - 1]? = some (.text a)
  aliases : ∀ p ∈ e.whereClause, ∀ a ∈ p.aliases, ∃ s ∈ fromPart e.tNum, a ∈ s.aliases
  matched : Matched e.fullQuery

end Executed

variable {lib cvt} {idx : Text} {chain : List Link} {e : Executed}

def arguments (idx : Text) (pq : PgQuery) : List Argument :=
  [.num 1, .text idx] ++ pq.paths.map .text ++ pq.arguments.map .text

variable {pq : PgQuery} {t : ℕ} {w : Clause} {queryStrs : List Clause} {walked : List Link} {p : Piece}

lemma craftFullQuery_eq (h : condition t pq.queryStrs = .ok w) : craftFullQuery idx pq t =
      .ok (statementHead idx pq.paths.length t ++ numbered (3 + pq.paths.length) w, arguments idx pq) := by
  rw [craftFullQuery, h, ok_bind]
  dsimp only
  rw [replaceArgs_statement]
  rfl

lemma execute_walks (h : execute lib cvt idx chain = .ok e) :
    (∃ walked, Walks lib cvt .notAnOp 0 .empty chain e.query e.tNum walked) ∧
      condition e.tNum e.query.queryStrs = .ok e.whereClause ∧
      e.fullQuery = statementHead idx e.query.paths.length e.tNum ++ numbered (3 + e.query.paths.length) e.whereClause ∧
      e.allArgs = arguments idx e.query := by
  obtain ⟨⟨pq, t, walked⟩, hw, h⟩ := bind_ok h
  obtain ⟨⟨fullQuery, allArgs⟩, hc, h⟩ := bind_ok h
  obtain rfl : ⟨pq, t, fullQuery, allArgs⟩ = e := ok.inj h
  obtain ⟨w, hcn⟩ := condition_isOk.mpr (craftFullQuery_isOk.mp ⟨_, hc⟩)
  have hwh : Executed.whereClause ⟨pq, t, fullQuery, allArgs⟩ = w := by
    rw [Executed.whereClause]
    simp only [hcn]
  rw [craftFullQuery_eq hcn] at hc
  obtain ⟨hf, ha⟩ := Prod.mk.inj (ok.inj hc)
  rw [hwh]
  exact ⟨⟨walked, walks_of_executeFrom le_rfl hw⟩, hcn, hf.symm, ha.symm⟩

lemma wherePart_eq : e.wherePart = numbered (3 + e.query.paths.length) e.whereClause := by
  have h := replaceArgs_clause (k := 3 + e.query.paths.length) e.whereClause []
  rw [Executed.wherePart]
  simpa [replaceArgs] using h

lemma slotted_condition (h : condition t queryStrs = .ok w)
    (ho : t = 1 → queryStrs.length = 1) : slotted w = slotted queryStrs.flatten := by
  unfold condition at h
  split at h
  · next ht =>
    obtain ⟨q, rfl⟩ := length_eq_one_iff.mp (ho ht)
    cases h
    simp
  · cases h
    rw [slotted_intercalate rfl]
    induction queryStrs with
    | nil => rfl
    | cons c cs ih =>
      rw [flatMap_cons, ih (fun ht => by contradiction), flatten_cons, slotted_append]

lemma steady_condition (h : condition t queryStrs = .ok w) (hs : ∀ c ∈ queryStrs, Steady c) : Steady w := by
  unfold condition at h
  split at h
  · cases queryStrs with
    | nil => cases h
    | cons c cs =>
      obtain rfl : c = w := ok.inj h
      exact hs c (.head _)
  · cases h
    exact steady_intercalate (steady_piece (by simp) (by simp)) hs

lemma sum_eq_sum_iff {α : Type} {l : List α} {f g : α → ℕ} (h : ∀ a ∈ l, f a ≤ g a) :
    (l.map f).sum = (l.map g).sum ↔ ∀ a ∈ l, f a = g a := by
  induction l with
  | nil => simp
  | cons a l ih =>
    have hle : (l.map f).sum ≤ (l.map g).sum := sum_le_sum fun b hb => h b (.tail _ hb)
    have ha := h a (.head _)
    rw [map_cons, map_cons, sum_cons, sum_cons, forall_mem_cons,
      ← ih fun b hb => h b (.tail _ hb)]
    omega

lemma length_arguments : (arguments idx pq).length = 2 + pq.paths.length + pq.arguments.length := by
  simp [arguments]
  omega

lemma forall_le_iff {a b : ℕ} : (∀ n, 1 ≤ n ∧ n ≤ a ↔ 1 ≤ n ∧ n ≤ b) ↔ a = b := by
  constructor
  · intro h
    have ha := h a
    have hb := h b
    omega
  · rintro rfl n
    exact Iff.rfl

lemma numbers_iff (h : execute lib cvt idx chain = .ok e) :
    (∀ n, n ∈ placeholders e.fullQuery ↔ 1 ≤ n ∧ n ≤ e.allArgs.length) ↔
      slots e.whereClause = e.query.arguments.length := by
  obtain ⟨-, -, hf, ha⟩ := execute_walks h
  obtain ⟨ns, hp, hns⟩ := part_statementHead idx e.query.paths.length e.tNum
  have hm (n : ℕ) : n ∈ placeholders e.fullQuery ↔ 1 ≤ n ∧ n ≤ 2 + e.query.paths.length + slots e.whereClause := by
    rw [hf, placeholders_append (starts_numbered _ _), placeholders_numbered, mem_append,
      hp.numbers, hns, mem_range'_1]
    omega
  simp only [hm, ha, length_arguments]
  rw [forall_le_iff]
  omega

lemma slots_eq_iff (hw : Walks lib cvt .notAnOp 0 .empty chain e.query e.tNum walked)
    (hs : slotted e.whereClause = slotted e.query.queryStrs.flatten) :
    slots e.whereClause = e.query.arguments.length ↔ ∀ q, Asked chain q → bothWild q = false := by
  obtain ⟨new, hn, hsg⟩ := hw.segment
  rw [empty_append] at hn
  subst hn
  have hsl : slots e.whereClause =
      (e.query.calls.map fun c => slots (c.built lib cvt).clause).sum := by
    rw [slots_eq_length, hs, hsg.slots, length_flatMap]
    simp only [slots_eq_length]
  rw [hsl, hsg.arguments, length_flatMap,
    sum_eq_sum_iff fun c _ => (c.made lib cvt).slots_le]
  constructor
  · intro ha q hq
    obtain ⟨c, hc, rfl⟩ := (hw.calls q).mpr (.inr hq)
    exact (c.made lib cvt).slots_eq_iff.mp (ha c hc)
  · intro ha c hc
    refine (c.made lib cvt).slots_eq_iff.mpr (ha c.query ?_)
    exact ((hw.calls c.query).mp ⟨c, hc, rfl⟩).resolve_left calls_empty

lemma exists_call (hw : Walks lib cvt .notAnOp 0 .empty chain e.query e.tNum walked)
    (hs : slotted e.whereClause = slotted e.query.queryStrs.flatten) :
    p ∈ slotted e.whereClause ↔ ∃ c ∈ e.query.calls, p ∈ slotted (c.built lib cvt).clause := by
  obtain ⟨new, hn, hsg⟩ := hw.segment
  rw [empty_append] at hn
  subst hn
  rw [hs, hsg.slots, mem_flatMap]

lemma mem_fromPart {t n : ℕ} (h : n < t) : ∃ s ∈ fromPart t, .table n ∈ s.aliases := by
  unfold fromPart
  split
  · next ht =>
    obtain rfl : n = 0 := by omega
    exact ⟨.found, by simp, by simp [Source.aliases]⟩
  · exact ⟨.join n, by simp [joins, h], by simp [Source.aliases]⟩

lemma item_mem_fromPart : (∃ s ∈ fromPart t, .item ∈ s.aliases) ↔ t ≠ 1 := by
  unfold fromPart
  split
  · next ht => simp [Source.aliases, ht]
  · next ht => exact ⟨fun _ => ht, fun _ => ⟨.items, by simp, by simp [Source.aliases]⟩⟩

lemma aliases_iff (hw : Walks lib cvt .notAnOp 0 .empty chain e.query e.tNum walked)
    (hs : slotted e.whereClause = slotted e.query.queryStrs.flatten) :
    (∀ p ∈ e.whereClause, ∀ a ∈ p.aliases, ∃ s ∈ fromPart e.tNum, a ∈ s.aliases) ↔
      (e.tNum = 1 → ∀ q, Asked chain q → negatedTerm q = false) := by
  obtain ⟨new, hnw, hsg⟩ := hw.segment
  rw [empty_append] at hnw
  subst hnw
  constructor
  · intro hal ht q hq
    rw [Bool.eq_false_iff]
    intro hn
    obtain ⟨c, hc, rfl⟩ := (hw.calls q).mpr (.inr hq)
    have hab : Piece.absent ∈ slotted e.whereClause :=
      (exists_call hw hs).mpr ⟨c, hc, (c.made lib cvt).absent hn⟩
    exact item_mem_fromPart.mp (hal .absent (mem_of_mem_filter hab) .item (by simp [Piece.aliases])) ht
  · intro hal p hp a ha
    obtain ⟨c, hc, hpc⟩ := (exists_call hw hs).mp
      (mem_filter.mpr ⟨hp, by cases p <;> first | rfl | cases ha⟩)
    rcases (c.made lib cvt).asks p hpc with ⟨t, column, cmp, rfl, -, hle⟩ | ⟨rfl, hn⟩
    · obtain rfl := mem_singleton.mp ha
      exact mem_fromPart (hle.trans_lt (hsg.tables c hc))
    · obtain rfl := mem_singleton.mp ha
      refine item_mem_fromPart.mpr fun ht => ?_
      have hq := ((hw.calls c.query).mp ⟨c, hc, rfl⟩).resolve_left calls_empty
      have hf := hal ht c.query hq
      rw [hn] at hf
      cases hf

lemma bound_of_slots (h : execute lib cvt idx chain = .ok e)
    (hs : ∀ c ∈ e.query.calls, slots (c.built lib cvt).clause = (c.built lib cvt).args.length)
    (hal : slots e.whereClause = e.query.arguments.length) (k n : ℕ) (hn : (placeholders e.wherePart)[k]? = some n) :
    ∃ a, (e.appended lib cvt)[k]? = some a ∧ e.allArgs[n - 1]? = some (.text a) := by
  obtain ⟨⟨walked, hw⟩, -, -, ha⟩ := execute_walks h
  obtain ⟨new, hnw, hsg⟩ := hw.segment
  rw [empty_append] at hnw
  subst hnw
  have hap : e.appended lib cvt = e.query.arguments := by
    rw [Executed.appended, hsg.arguments]
    refine flatMap_congr fun c hc => ?_
    rw [hs c hc, take_length]
  rw [wherePart_eq, placeholders_numbered] at hn
  obtain ⟨hk, rfl⟩ := List.getElem?_eq_some_iff.mp hn
  rw [length_range', hal] at hk
  refine ⟨e.query.arguments.get ⟨k, hk⟩, by simp [hap], ?_⟩
  have hl : ([Argument.num 1, .text idx] ++ e.query.paths.map Argument.text).length = 2 + e.query.paths.length := by
    rw [length_append, length_map]
    rfl
  rw [ha, arguments, getElem_range', List.getElem?_append_right (by omega), hl,
    show 3 + e.query.paths.length + 1 * k - 1 - (2 + e.query.paths.length) = k by omega]
  simp [hk]

lemma Segment.arguments_ne_nil {t t' : ℕ} {new : PgQuery} (h : Segment lib cvt t t' new)
    (hc : new.calls ≠ []) : new.arguments ≠ [] := by
  obtain ⟨c, cs, hcs⟩ := exists_cons_of_ne_nil hc
  have hm := c.made lib cvt
  have hp := hm.slots_pos.trans_le hm.slots_le
  rw [h.arguments, hcs, flatMap_cons]
  intro hn
  rw [(append_eq_nil_iff.mp hn).1] at hp
  cases hp

lemma execute_of_walk (hw : executeFrom lib cvt chain.length .notAnOp 0 .empty chain = .ok (pq, t, walked))
    (hc : condition t pq.queryStrs = .ok w) : execute lib cvt idx chain =
      .ok ⟨pq, t, statementHead idx pq.paths.length t ++ numbered (3 + pq.paths.length) w, arguments idx pq⟩ := by
  rw [execute, hw, ok_bind]
  dsimp only
  rw [craftFullQuery_eq hc]
  rfl

def termLink (mod : Op) (op : Op) (prevOp : Option Op) (field : Char) : Link :=
  ⟨.query (.basic [field] ⟨['1'], mod⟩ true), op, prevOp⟩

lemma not_wellFormed_of_slots (h : execute lib cvt idx chain = .ok e)
    (hne : slots e.whereClause ≠ e.query.arguments.length) : ¬ e.WellFormed lib cvt :=
  fun hw => hne ((numbers_iff h).mp hw.numbers)

end

end Goiardi.Search.Postgres
