import Goiardi.Search.Grammar

/-! `SolrQuery.execute`: the walk along a query chain that gathers documents under a pending operator. -/

namespace Goiardi.Search

open List

inductive Kind
  | query (searchIndex : Except Fault (Finset Text)) (searchResults : Finset Text → Except Fault (Finset Text))
  | subQuery (start : Bool)
  | notQuery

structure Queryable where
  kind : Kind
  op : Op

def Link.queryable (lib : Library) (i : FileIndex) (idx : Text) (q : Link) : Queryable where
  kind :=
    match q.body with
    | .query a => .query (a.searchIndex lib i idx q.notop) fun docs => a.searchResults lib i idx q.notop docs
    | .subQuery start => .subQuery start
    | .notQuery => .notQuery
  op := q.op

def unfinishedText : Text := "Yikes! Somehow we weren't able to finish the subquery."

def Queryable.depth (s : Queryable) (n : ℕ) : ℕ :=
  match s.kind with
  | .subQuery true => n + 1
  | .subQuery false => n - 1
  | _ => n

/-- The links up to the marker that closes the last of `n` open sub-queries, that marker, and the links after it. -/
def closing (n : ℕ) : List Queryable → Option (List Queryable × Queryable × List Queryable)
  | [] => none
  | s :: chain =>
    if s.depth n = 0 then some ([], s, chain)
    else (closing (s.depth n) chain).map fun (inner, nend, after) => (s :: inner, nend, after)

-- the first step of the loop is taken without a test for the end of the chain
def extractSubQuery : List Queryable → Except Fault (List Queryable × Queryable × List Queryable)
  | [] => .error (.panic .nilPointer)
  | s :: chain =>
    match closing 1 (s :: chain) with
    | some parts => .ok parts
    | none => .error (.error unfinishedText)

/-- The documents of a query: only those gathered so far are searched after `AND`. -/
def searched (curOp : Op) (docs : Finset Text) (searchIndex : Except Fault (Finset Text))
    (searchResults : Finset Text → Except Fault (Finset Text)) : Except Fault (Finset Text) :=
  if curOp = .binAnd then searchResults docs else searchIndex

def merge (curOp : Op) (docs r : Finset Text) : Finset Text :=
  if docs = ∅ ∨ curOp = .binAnd then r
  else if curOp = .binOr then docs ∪ r
  else docs

/-- The documents that the walk gathers, and the chain as it leaves it: extracting a sub-query snips the chain before
the closing marker. A sub-query with no link of its own is the closing marker and everything after it. The first
argument bounds the number of links. -/
def executeFrom : ℕ → Op → Finset Text → List Queryable → Except Fault (Finset Text × List Queryable)
  | _, _, docs, [] => .ok (docs, [])
  | 0, _, docs, chain => .ok (docs, chain)
  | n + 1, curOp, docs, s :: chain =>
    match s.kind with
    | .subQuery _ => do
      let (inner, nend, after) ← extractSubQuery chain
      let d := if curOp = .binAnd then docs else ∅
      if inner = [] then
        let (r, walked) ← executeFrom n curOp d (nend :: after)
        let (docs, _) ← executeFrom n nend.op (merge curOp docs r) walked.tail
        return (docs, [s])
      else
        let (r, walked) ← executeFrom n curOp d inner
        let (docs, _) ← executeFrom n nend.op (merge curOp docs r) after
        return (docs, s :: walked)
    | .notQuery => do
      let (docs, walked) ← executeFrom n curOp docs chain
      return (docs, s :: walked)
    | .query searchIndex searchResults => do
      let r ← searched curOp docs searchIndex searchResults
      let (docs, walked) ← executeFrom n s.op (merge curOp docs r) chain
      return (docs, s :: walked)

def execute (curOp : Op) (docs : Finset Text) (chain : List Queryable) :
    Except Fault (Finset Text × List Queryable) :=
  executeFrom chain.length curOp docs chain

lemma executeFrom_cons {n : ℕ} {curOp : Op} {docs : Finset Text} {s : Queryable} {chain : List Queryable} :
    executeFrom (n + 1) curOp docs (s :: chain) =
      match s.kind with
      | .subQuery _ => do
        let (inner, nend, after) ← extractSubQuery chain
        let d := if curOp = .binAnd then docs else ∅
        if inner = [] then
          let (r, walked) ← executeFrom n curOp d (nend :: after)
          let (docs, _) ← executeFrom n nend.op (merge curOp docs r) walked.tail
          return (docs, [s])
        else
          let (r, walked) ← executeFrom n curOp d inner
          let (docs, _) ← executeFrom n nend.op (merge curOp docs r) after
          return (docs, s :: walked)
      | .notQuery => do
        let (docs, walked) ← executeFrom n curOp docs chain
        return (docs, s :: walked)
      | .query searchIndex searchResults => do
        let r ← searched curOp docs searchIndex searchResults
        let (docs, walked) ← executeFrom n s.op (merge curOp docs r) chain
        return (docs, s :: walked) := rfl

lemma closing_append {n : ℕ} {chain inner after : List Queryable} {nend : Queryable}
    (h : closing n chain = some (inner, nend, after)) : chain = inner ++ nend :: after := by
  induction chain generalizing n inner with
  | nil => simp [closing] at h
  | cons s chain ih =>
    simp only [closing] at h
    split at h
    · simp only [Option.some.injEq, Prod.mk.injEq] at h
      obtain ⟨rfl, rfl, rfl⟩ := h
      rfl
    · simp only [Option.map_eq_some_iff, Prod.exists, Prod.mk.injEq] at h
      obtain ⟨p, e, r, hc, rfl, rfl, rfl⟩ := h
      rw [ih hc, cons_append]

lemma extractSubQuery_append {chain inner after : List Queryable} {nend : Queryable}
    (h : extractSubQuery chain = .ok (inner, nend, after)) : chain = inner ++ nend :: after := by
  cases chain with
  | nil => simp [extractSubQuery] at h
  | cons s chain =>
    simp only [extractSubQuery] at h
    split at h
    · next hc =>
      cases h
      exact closing_append hc
    · simp at h

lemma executeFrom_length : ∀ {n : ℕ} {curOp : Op} {docs d : Finset Text} {chain walked : List Queryable},
    executeFrom n curOp docs chain = .ok (d, walked) → walked.length ≤ chain.length := by
  intro n
  induction n with
  | zero =>
    intro curOp docs d chain walked h
    cases chain <;> cases h <;> simp
  | succ n ih =>
    intro curOp docs d chain walked h
    cases chain with
    | nil => cases h; simp
    | cons s chain =>
      rw [executeFrom_cons] at h
      split at h
      · obtain ⟨⟨inner, nend, after⟩, he, h⟩ := bind_ok h
        have hc := extractSubQuery_append he
        dsimp only at h
        split at h
        all_goals
          obtain ⟨⟨r, w⟩, hr, h⟩ := bind_ok h
          obtain ⟨⟨d', w'⟩, -, h⟩ := bind_ok h
          cases h
        · simp
        · have hw := ih hr
          simp only [hc, length_cons, length_append]
          omega
      · obtain ⟨⟨d', w'⟩, hr, h⟩ := bind_ok h
        cases h
        have hw := ih hr
        simp only [length_cons]
        omega
      · obtain ⟨r, -, h⟩ := bind_ok h
        obtain ⟨⟨d', w'⟩, hr, h⟩ := bind_ok h
        cases h
        have hw := ih hr
        simp only [length_cons]
        omega

lemma executeFrom_eq : ∀ {n m : ℕ} {curOp : Op} {docs : Finset Text} {chain : List Queryable},
    chain.length ≤ n → chain.length ≤ m → executeFrom n curOp docs chain = executeFrom m curOp docs chain := by
  intro n
  induction n with
  | zero =>
    intro m curOp docs chain hn hm
    cases chain with
    | nil => cases m <;> rfl
    | cons s chain => simp at hn
  | succ n ih =>
    intro m curOp docs chain hn hm
    cases chain with
    | nil => cases m <;> rfl
    | cons s chain =>
      simp only [length_cons] at hn hm
      obtain ⟨m, rfl⟩ := Nat.exists_eq_add_of_lt (Nat.lt_of_lt_of_le (Nat.succ_pos _) hm)
      rw [Nat.zero_add] at hm ⊢
      rw [executeFrom_cons, executeFrom_cons]
      split
      · refine bind_congr_ok ?_
        rintro ⟨inner, nend, after⟩ he
        have hc := congrArg List.length (extractSubQuery_append he)
        simp only [length_append, length_cons] at hc
        dsimp only
        split
        · rw [ih (show (nend :: after).length ≤ n by simp; omega) (show (nend :: after).length ≤ m by simp; omega)]
          refine bind_congr_ok ?_
          rintro ⟨r, walked⟩ hr
          have hw := executeFrom_length hr
          simp only [length_cons] at hw
          rw [ih (show walked.tail.length ≤ n by simp; omega) (show walked.tail.length ≤ m by simp; omega)]
        · simp only [ih (show inner.length ≤ n by omega) (show inner.length ≤ m by omega),
            ih (show after.length ≤ n by omega) (show after.length ≤ m by omega)]
      · rw [ih (show chain.length ≤ n by omega) (show chain.length ≤ m by omega)]
      · simp only [ih (show chain.length ≤ n by omega) (show chain.length ≤ m by omega)]

section

variable {curOp : Op} {docs : Finset Text} {s nend : Queryable} {chain inner after : List Queryable}

lemma executeFrom_of_le {n : ℕ} (h : chain.length ≤ n) : executeFrom n curOp docs chain = execute curOp docs chain :=
  executeFrom_eq h le_rfl

lemma execute_cons : execute curOp docs (s :: chain) = executeFrom (chain.length + 1) curOp docs (s :: chain) := rfl

lemma execute_query {searchIndex : Except Fault (Finset Text)}
    {searchResults : Finset Text → Except Fault (Finset Text)} (h : s.kind = .query searchIndex searchResults) :
    execute curOp docs (s :: chain) = do
      let r ← searched curOp docs searchIndex searchResults
      let (docs, walked) ← execute s.op (merge curOp docs r) chain
      return (docs, s :: walked) := by
  simp only [execute, length_cons, executeFrom_cons, h]

lemma execute_notQuery (h : s.kind = .notQuery) :
    execute curOp docs (s :: chain) = do
      let (docs, walked) ← execute curOp docs chain
      return (docs, s :: walked) := by
  simp only [execute, length_cons, executeFrom_cons, h]

lemma execute_subQuery {start : Bool} (h : s.kind = .subQuery start)
    (he : extractSubQuery chain = .ok (inner, nend, after)) (hi : inner ≠ []) :
    execute curOp docs (s :: chain) = do
      let (r, walked) ← execute curOp (if curOp = .binAnd then docs else ∅) inner
      let (docs, _) ← execute nend.op (merge curOp docs r) after
      return (docs, s :: walked) := by
  have hc := congrArg List.length (extractSubQuery_append he)
  simp only [length_append, length_cons] at hc
  simp only [execute_cons, executeFrom_cons, h, he]
  rw [ok_bind, if_neg hi, executeFrom_of_le (show inner.length ≤ chain.length by omega)]
  refine bind_congr_ok ?_
  rintro ⟨r, walked⟩ -
  dsimp only
  rw [executeFrom_of_le (show after.length ≤ chain.length by omega)]

lemma execute_subQuery_empty {start : Bool} (h : s.kind = .subQuery start)
    (he : extractSubQuery chain = .ok ([], nend, after)) :
    execute curOp docs (s :: chain) = do
      let (r, walked) ← execute curOp (if curOp = .binAnd then docs else ∅) (nend :: after)
      let (docs, _) ← execute nend.op (merge curOp docs r) walked.tail
      return (docs, [s]) := by
  have hc := congrArg List.length (extractSubQuery_append he)
  simp only [length_append, length_cons, length_nil] at hc
  simp only [execute_cons, executeFrom_cons, h, he]
  rw [ok_bind, if_pos rfl, executeFrom_of_le (show (nend :: after).length ≤ chain.length by simp; omega)]
  refine bind_congr_ok ?_
  rintro ⟨r, walked⟩ hr
  have hw := executeFrom_length hr
  simp only [length_cons] at hw
  dsimp only
  rw [executeFrom_of_le (show walked.tail.length ≤ chain.length by simp; omega)]

lemma execute_fault {start : Bool} (h : s.kind = .subQuery start) {f : Fault}
    (he : extractSubQuery chain = .error f) : execute curOp docs (s :: chain) = .error f := by
  simp only [execute_cons, executeFrom_cons, h, he]
  rfl

end

def runQuery (lib : Library) (i : FileIndex) (idx : Text) (tokens : List (Peg.Token Action)) :
    Except Fault (Finset Text) :=
  match buildChain tokens with
  | .error p => .error (.panic p)
  | .ok chain => do
    let (docs, _) ← execute .notAnOp ∅ (chain.map (Link.queryable lib i idx))
    return docs

end Goiardi.Search
