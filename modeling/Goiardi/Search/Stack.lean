import Goiardi.Search.Plain

/-! The walk along a well-nested chain as a machine with a stack: an opening marker pushes the documents gathered so
far, a closing one merges what the group has gathered into them. -/

namespace Goiardi.Search

open List

section

def Passes (qs : List Queryable) : Prop :=
  ∀ k tail, closing (k + 1) (qs ++ tail) =
    (closing (k + 1) tail).map fun (inner, nend, after) => (qs ++ inner, nend, after)

variable {s e : Queryable} {xs ys : List Queryable}

lemma passes_nil : Passes [] := by
  intro k tail
  simp

lemma Passes.cons (h : Passes xs) (hs : ∀ n, s.depth n = n) : Passes (s :: xs) := by
  intro k tail
  rw [cons_append, closing, hs, if_neg (by omega), h k tail, Option.map_map]
  rfl

lemma depth_end (he : e.kind = .subQuery false) (n : ℕ) : e.depth n = n - 1 := by simp [Queryable.depth, he]

lemma Passes.bracketed (hs : s.kind = .subQuery true) (he : e.kind = .subQuery false) (hx : Passes xs)
    (hy : Passes ys) : Passes (s :: (xs ++ e :: ys)) := by
  intro k tail
  rw [cons_append, closing, show s.depth (k + 1) = k + 1 + 1 by simp [Queryable.depth, hs], if_neg (by omega),
    append_assoc, cons_append, hx (k + 1) (e :: (ys ++ tail)), closing, depth_end he, Nat.add_sub_cancel, if_neg (by omega), hy k tail]
  simp only [Option.map_map]
  congr 1
  funext p
  obtain ⟨inner, nend, after⟩ := p
  simp

lemma Passes.extract (hx : Passes xs) (he : e.kind = .subQuery false) :
    extractSubQuery (xs ++ e :: ys) = .ok (xs, e, ys) := by
  have hc : closing 1 (xs ++ e :: ys) = some (xs, e, ys) := by
    rw [hx 0 (e :: ys), closing, depth_end he]
    simp
  cases xs with
  | nil =>
    rw [nil_append] at hc ⊢
    rw [extractSubQuery, hc]
  | cons x xs =>
    rw [cons_append] at hc ⊢
    rw [extractSubQuery, hc]

lemma Passes.unfinished (hx : Passes xs) (hne : xs ≠ []) : extractSubQuery xs = .error (.error unfinishedText) := by
  have hc := hx 0 []
  rw [append_nil, closing, Option.map_none] at hc
  cases xs with
  | nil => exact absurd rfl hne
  | cons x xs => rw [extractSubQuery, hc]

end

section

inductive Nested : List Queryable → Prop
  | nil : Nested []
  | leaf {s : Queryable} {chain : List Queryable} (hs : ∀ b, s.kind ≠ .subQuery b) (h : Nested chain) :
      Nested (s :: chain)
  | group {s e : Queryable} {inner rest : List Queryable} (hs : s.kind = .subQuery true)
      (he : e.kind = .subQuery false) (hne : inner ≠ []) (hi : Nested inner) (hr : Nested rest) :
      Nested (s :: (inner ++ e :: rest))

variable {xs ys : List Queryable}

lemma Nested.append (hx : Nested xs) (hy : Nested ys) : Nested (xs ++ ys) := by
  induction hx with
  | nil => exact hy
  | leaf hs _ ih => exact .leaf hs ih
  | group hs he hne hi _ _ ih' =>
    rw [cons_append, append_assoc, cons_append]
    exact .group hs he hne hi ih'

lemma depth_leaf {s : Queryable} (hs : ∀ b, s.kind ≠ .subQuery b) (n : ℕ) : s.depth n = n := by
  cases hk : s.kind with
  | query => simp [Queryable.depth, hk]
  | subQuery b => exact absurd hk (hs b)
  | notQuery => simp [Queryable.depth, hk]

lemma Nested.passes (h : Nested xs) : Passes xs := by
  induction h with
  | nil => exact passes_nil
  | leaf hs _ ih => exact ih.cons (depth_leaf hs)
  | group hs he _ _ _ ih ih' => exact ih.bracketed hs he ih'

end

section

structure Frame where
  curOp : Op
  docs : Finset Text

def Frame.enter (f : Frame) : Frame := ⟨f.curOp, if f.curOp = .binAnd then f.docs else ∅⟩

def Frame.absorb (f : Frame) (op : Op) (r : Finset Text) : Frame := ⟨op, merge f.curOp f.docs r⟩

def walk : List Queryable → Frame → List Frame → Except Fault (Frame × List Frame)
  | [], f, fs => .ok (f, fs)
  | s :: chain, f, fs =>
    match s.kind with
    | .query searchIndex searchResults => do
      let r ← searched f.curOp f.docs searchIndex searchResults
      walk chain (f.absorb s.op r) fs
    | .notQuery => walk chain f fs
    | .subQuery true => walk chain f.enter (f :: fs)
    | .subQuery false =>
      match fs with
      | [] => .error (.error unfinishedText)
      | p :: fs => walk chain (p.absorb s.op f.docs) fs

variable {s : Queryable} {chain xs ys : List Queryable} {f : Frame} {fs : List Frame}

lemma walk_query {searchIndex : Except Fault (Finset Text)} {searchResults : Finset Text → Except Fault (Finset Text)}
    (h : s.kind = .query searchIndex searchResults) : walk (s :: chain) f fs =
      searched f.curOp f.docs searchIndex searchResults >>= fun r => walk chain (f.absorb s.op r) fs := by
  simp only [walk, h]

lemma walk_notQuery (h : s.kind = .notQuery) : walk (s :: chain) f fs = walk chain f fs := by
  simp only [walk, h]

lemma walk_start (h : s.kind = .subQuery true) : walk (s :: chain) f fs = walk chain f.enter (f :: fs) := by
  simp only [walk, h]

lemma walk_end (h : s.kind = .subQuery false) (p : Frame) :
    walk (s :: chain) f (p :: fs) = walk chain (p.absorb s.op f.docs) fs := by
  simp only [walk, h]

lemma walk_append : walk (xs ++ ys) f fs = walk xs f fs >>= fun g => walk ys g.1 g.2 := by
  induction xs generalizing f fs with
  | nil => rfl
  | cons s xs ih =>
    rw [cons_append]
    cases hk : s.kind with
    | query searchIndex searchResults =>
      rw [walk_query hk, walk_query hk, bind_assoc]
      exact bind_congr_ok fun r _ => ih
    | notQuery => rw [walk_notQuery hk, walk_notQuery hk, ih]
    | subQuery b =>
      cases b with
      | true => rw [walk_start hk, walk_start hk, ih]
      | false =>
        cases fs with
        | nil => simp only [walk, hk, error_bind]
        | cons p fs => rw [walk_end hk, walk_end hk, ih]

def lastFrame (chain : List Queryable) (f : Frame) : Except Fault Frame := do
  let (g, _) ← walk chain f []
  return g

-- Along a well-nested chain the stack below the walk plays no part, and the walk gathers what `execute` does.
theorem Nested.walk_eq (h : Nested chain) : ∀ f : Frame,
    (∀ fs, walk chain f fs = do return (← lastFrame chain f, fs)) ∧
      (do return (← execute f.curOp f.docs chain).1) = do return (← lastFrame chain f).docs := by
  induction h with
  | nil => exact fun f => ⟨fun fs => rfl, rfl⟩
  | @leaf s chain hs _ ih =>
    intro f
    cases hk : s.kind with
    | query searchIndex searchResults =>
      have hl : lastFrame (s :: chain) f = searched f.curOp f.docs searchIndex searchResults >>=
          fun r => lastFrame chain (f.absorb s.op r) := by
        rw [lastFrame, walk_query hk, bind_assoc]
        rfl
      refine ⟨fun fs => ?_, ?_⟩
      · rw [walk_query hk, hl, bind_assoc]
        exact bind_congr_ok fun r _ => (ih _).1 fs
      · rw [execute_query hk, hl, bind_assoc, bind_assoc]
        refine bind_congr_ok fun r _ => ?_
        have hr := (ih (f.absorb s.op r)).2
        rw [← hr, bind_assoc]
        rfl
    | subQuery b => exact absurd hk (hs b)
    | notQuery =>
      have hl : lastFrame (s :: chain) f = lastFrame chain f := by rw [lastFrame, walk_notQuery hk, lastFrame]
      refine ⟨fun fs => ?_, ?_⟩
      · rw [walk_notQuery hk, hl]
        exact (ih f).1 fs
      · rw [execute_notQuery hk, hl, ← (ih f).2, bind_assoc]
        rfl
  | @group s e inner rest hs he hne hi hr ih ih' =>
    intro f
    have hw : ∀ fs, walk (s :: (inner ++ e :: rest)) f fs =
        lastFrame inner f.enter >>= fun g => walk rest (f.absorb e.op g.docs) fs := by
      intro fs
      rw [walk_start hs, walk_append, (ih f.enter).1, bind_assoc]
      refine bind_congr_ok fun g _ => ?_
      exact walk_end he f
    have hl : lastFrame (s :: (inner ++ e :: rest)) f =
        lastFrame inner f.enter >>= fun g => lastFrame rest (f.absorb e.op g.docs) := by
      rw [lastFrame, hw, bind_assoc]
      rfl
    refine ⟨fun fs => ?_, ?_⟩
    · rw [hw, hl, bind_assoc]
      exact bind_congr_ok fun g _ => (ih' _).1 fs
    · rw [execute_subQuery hs (hi.passes.extract he) hne, hl]
      calc _ = (do return (← execute f.enter.curOp f.enter.docs inner).1) >>= fun r =>
            (do return (← execute e.op (merge f.curOp f.docs r) rest).1) := by
            simp only [bind_assoc, pure_bind]
            rfl
        _ = (do return (← lastFrame inner f.enter).docs) >>= fun r =>
            (do return (← execute e.op (merge f.curOp f.docs r) rest).1) := by rw [(ih f.enter).2]
        _ = _ := by
            simp only [bind_assoc, pure_bind]
            exact bind_congr_ok fun g _ => (ih' (f.absorb e.op g.docs)).2

end

section

variable {lib : Library} {i : FileIndex} {idx : Text}

variable {l : Link} {xs : List Link} {ys : List Queryable} {p : Phrase} {ls : List Link} {ts : Tokens}
  {chain : List Link}

lemma Link.Leaf.depth (h : l.Leaf) (n : ℕ) : (l.queryable lib i idx).depth n = n := by
  obtain ⟨body, op, prevOp⟩ := l
  cases body with
  | query q => rfl
  | subQuery b => exact h.elim
  | notQuery => rfl

lemma Link.IsStart.kind (h : l.IsStart) : (l.queryable lib i idx).kind = .subQuery true := by
  simp only [IsStart] at h
  simp [Link.queryable, h]

lemma Link.IsEnd.kind (h : l.IsEnd) : (l.queryable lib i idx).kind = .subQuery false := by
  simp only [IsEnd] at h
  simp [Link.queryable, h]

lemma passes_leaves (hx : ∀ x ∈ xs, x.Leaf) (hy : Passes ys) : Passes (xs.map (Link.queryable lib i idx) ++ ys) := by
  induction xs with
  | nil => exact hy
  | cons x xs ih => exact (ih fun y hm => hx y (.tail _ hm)).cons (hx x (.head _)).depth

lemma Phrase.Shape.eq_nil_iff (h : p.Shape ls) : ls = [] ↔ p = .nil := by
  cases p with
  | nil =>
    have hl : ls = [] := h
    simp [hl]
  | group | notGroup =>
    obtain ⟨s, xs, e, ys, rfl, -⟩ := h
    simp
  | operand | required | weighted | fieldGroup =>
    obtain ⟨xs, ys, rfl, hne, -⟩ := h
    simp [hne]

lemma Phrase.Shape.passes (h : p.Shape ls) : Passes (ls.map (Link.queryable lib i idx)) := by
  induction p generalizing ls with
  | nil =>
    have hl : ls = [] := h
    subst hl
    exact passes_nil
  | operand _ _ _ _ ih | required _ _ ih | weighted _ _ _ _ ih | fieldGroup _ _ _ _ _ _ ih =>
    obtain ⟨xs, ys, rfl, -, hl, hr⟩ := h
    rw [map_append]
    exact passes_leaves hl (ih hr)
  | group inner _ rest ih ih' =>
    obtain ⟨s, xs, e, ys, rfl, hs, he, hx, hy⟩ := h
    rw [map_cons, map_append, map_cons]
    exact (ih hx).bracketed hs.kind he.kind (ih' hy)
  | notGroup inner rest ih ih' =>
    obtain ⟨s, xs, e, ys, rfl, hs, he, ⟨n, xs', rfl, hn, hx⟩, hy⟩ := h
    have hn' : n.Leaf := by simp [Link.Leaf, hn]
    rw [map_cons, map_append, map_cons, map_cons]
    exact ((ih hx).cons hn'.depth).bracketed hs.kind he.kind (ih' hy)

def Phrase.firstEmpty : Phrase → Option Bool
  | nil => none
  | operand _ _ _ rest => rest.firstEmpty
  | required _ rest => rest.firstEmpty
  | weighted _ _ _ rest => rest.firstEmpty
  | fieldGroup _ _ _ _ rest => rest.firstEmpty
  | group inner _ rest => if inner = .nil then some (rest = .nil) else inner.firstEmpty <|> rest.firstEmpty
  | notGroup inner rest => inner.firstEmpty <|> rest.firstEmpty

lemma Link.Leaf.not_marker (h : l.Leaf) (b : Bool) : (l.queryable lib i idx).kind ≠ .subQuery b := by
  obtain ⟨body, op, prevOp⟩ := l
  cases body with
  | query q => simp [Link.queryable]
  | subQuery b => exact h.elim
  | notQuery => simp [Link.queryable]

lemma nested_leaves (hx : ∀ x ∈ xs, x.Leaf) (hy : Nested ys) : Nested (xs.map (Link.queryable lib i idx) ++ ys) := by
  induction xs with
  | nil => exact hy
  | cons x xs ih => exact .leaf (hx x (.head _)).not_marker (ih fun y hm => hx y (.tail _ hm))

lemma Phrase.Shape.nested (h : p.Shape ls) (hp : p.firstEmpty = none) : Nested (ls.map (Link.queryable lib i idx)) := by
  induction p generalizing ls with
  | nil =>
    have hl : ls = [] := h
    subst hl
    exact .nil
  | operand _ _ _ _ ih | required _ _ ih | weighted _ _ _ _ ih | fieldGroup _ _ _ _ _ _ ih =>
    obtain ⟨xs, ys, rfl, -, hl, hr⟩ := h
    rw [map_append]
    exact nested_leaves hl (ih hr hp)
  | group inner _ rest ih ih' =>
    obtain ⟨s, xs, e, ys, rfl, hs, he, hx, hy⟩ := h
    rw [firstEmpty] at hp
    split at hp
    · cases hp
    · next hi =>
      obtain ⟨hpi, hpr⟩ : inner.firstEmpty = none ∧ rest.firstEmpty = none := by
        cases hin : inner.firstEmpty <;> simp_all
      have hne : xs.map (Link.queryable lib i idx) ≠ [] := by
        rw [Ne, map_eq_nil_iff, hx.eq_nil_iff]
        exact hi
      rw [map_cons, map_append, map_cons]
      exact .group hs.kind he.kind hne (ih hx hpi) (ih' hy hpr)
  | notGroup inner rest ih ih' =>
    obtain ⟨s, xs, e, ys, rfl, hs, he, ⟨n, xs', rfl, hn, hx⟩, hy⟩ := h
    have hn' : n.Leaf := by simp [Link.Leaf, hn]
    obtain ⟨hpi, hpr⟩ : inner.firstEmpty = none ∧ rest.firstEmpty = none := by
      rw [firstEmpty] at hp
      cases hin : inner.firstEmpty <;> simp_all
    rw [map_cons, map_append, map_cons, map_cons]
    exact .group hs.kind he.kind (by simp) (.leaf hn'.not_marker (ih hx hpi)) (ih' hy hpr)

lemma runQuery_eq (h : buildChain ts = .ok chain) :
    runQuery lib i idx ts = do
      let (docs, _) ← execute .notAnOp ∅ (chain.map (Link.queryable lib i idx))
      return docs := by
  rw [runQuery, h]

lemma runQuery_of_nested (hc : buildChain ts = .ok chain)
    (hn : Nested (chain.map (Link.queryable lib i idx))) :
    runQuery lib i idx ts = do return (← lastFrame (chain.map (Link.queryable lib i idx)) ⟨.notAnOp, ∅⟩).docs :=
  (runQuery_eq hc).trans (hn.walk_eq ⟨.notAnOp, ∅⟩).2

end

end Goiardi.Search
