import Goiardi.Search.Stack

/-! Formulas of atoms joined by `AND` and `OR`, with groups, and what the walk gathers along one: every operand acts
on the documents gathered before it, and a group after `AND` starts from them. -/

namespace Goiardi.Search

open Finset

inductive Formula (α : Type)
  | atom (a : α)
  | group (e : Formula α)
  | atomThen (a : α) (j : Joiner) (rest : Formula α)
  | groupThen (e : Formula α) (j : Joiner) (rest : Formula α)
deriving DecidableEq

def take (op : Op) (docs S : Finset Text) : Finset Text := merge op docs (if op = .binAnd then docs ∩ S else S)

section

variable {op : Op} {docs S : Finset Text} {k : Text}

@[simp] lemma merge_and : merge .binAnd docs S = S := by simp [merge]

@[simp] lemma merge_empty : merge op ∅ S = S := by simp [merge]

@[simp] lemma merge_or : merge .binOr docs S = docs ∪ S := by
  by_cases h : docs = ∅ <;> simp [merge, h]

@[simp] lemma take_and : take .binAnd docs S = docs ∩ S := by simp [take]

@[simp] lemma take_or : take .binOr docs S = docs ∪ S := by simp [take]

lemma merge_subset {U : Finset Text} (hd : docs ⊆ U) (hs : S ⊆ U) : merge op docs S ⊆ U := by
  rw [merge]
  split
  · exact hs
  · split
    · exact union_subset hd hs
    · exact hd

lemma take_subset {U : Finset Text} (hd : docs ⊆ U) (hs : S ⊆ U) : take op docs S ⊆ U := by
  refine merge_subset hd ?_
  split
  · exact inter_subset_left.trans hd
  · exact hs

lemma take_empty (h : op ≠ .binAnd) : take op ∅ S = S := by simp [take, h]

end

namespace Formula

variable {α : Type} (val : α → Finset Text)

def gather : Formula α → Op → Finset Text → Finset Text
  | atom a, op, docs => take op docs (val a)
  | group e, op, docs => merge op docs (e.gather op (if op = .binAnd then docs else ∅))
  | atomThen a j rest, op, docs => rest.gather j.op (take op docs (val a))
  | groupThen e j rest, op, docs =>
    rest.gather j.op (merge op docs (e.gather op (if op = .binAnd then docs else ∅)))

def alone (f : Formula α) : Finset Text := f.gather val .notAnOp ∅

variable {val} {f e rest : Formula α} {a : α} {j : Joiner} {op : Op} {D D' : Finset Text} {k : Text}

lemma gather_atom : (atom a).gather val op D = take op D (val a) := rfl

lemma gather_group : (group e).gather val op D = merge op D (e.gather val op (if op = .binAnd then D else ∅)) := rfl

lemma gather_atomThen : (atomThen a j rest).gather val op D = rest.gather val j.op (take op D (val a)) := rfl

lemma gather_groupThen : (groupThen e j rest).gather val op D =
    rest.gather val j.op (merge op D (e.gather val op (if op = .binAnd then D else ∅))) := rfl

lemma gather_start (h : op ≠ .binAnd) : f.gather val op ∅ = f.alone val := by
  have hn : Op.notAnOp ≠ .binAnd := by simp
  induction f with
  | atom a => rw [alone, gather_atom, gather_atom, take_empty h, take_empty hn]
  | group e ih => simpa [alone, gather_group, h] using ih
  | atomThen a j rest _ => rw [alone, gather_atomThen, gather_atomThen, take_empty h, take_empty hn]
  | groupThen e j rest ih _ =>
    simp only [alone, gather_groupThen, h, merge_empty, if_false, ih]
    rfl

@[simp] lemma alone_atom : (atom a).alone val = val a := by rw [alone, gather_atom, take_empty (by simp)]

@[simp] lemma alone_group : (group e).alone val = e.alone val := by simp [alone, gather_group]

@[simp] lemma alone_atomThen : (atomThen a j rest).alone val = rest.gather val j.op (val a) := by
  rw [alone, gather_atomThen, take_empty (by simp)]

@[simp] lemma alone_groupThen : (groupThen e j rest).alone val = rest.gather val j.op (e.alone val) := by
  simp [alone, gather_groupThen]

lemma gather_group_and : (group e).gather val .binAnd D = e.gather val .binAnd D := by simp [gather_group]

lemma gather_group_or : (group e).gather val .binOr D = D ∪ e.alone val := by
  simp [gather_group, gather_start (show Op.binOr ≠ .binAnd by simp)]

lemma gather_groupThen_and : (groupThen e j rest).gather val .binAnd D = rest.gather val j.op (e.gather val .binAnd D) := by
  simp [gather_groupThen]

lemma mem_take_mono {S : Finset Text} (h : k ∈ D → k ∈ D') (hk : k ∈ take j.op D S) : k ∈ take j.op D' S := by
  cases j with
  | and =>
    simp only [Joiner.op, take_and, mem_inter] at hk ⊢
    exact hk.imp_left h
  | or =>
    simp only [Joiner.op, take_or, mem_union] at hk ⊢
    exact hk.imp_left h

lemma mem_group_mono (he : k ∈ e.gather val .binAnd D → k ∈ e.gather val .binAnd D') (h : k ∈ D → k ∈ D')
    (hk : k ∈ (group e).gather val j.op D) : k ∈ (group e).gather val j.op D' := by
  cases j with
  | and =>
    rw [Joiner.op, gather_group_and] at hk ⊢
    exact he hk
  | or =>
    simp only [Joiner.op, gather_group_or, mem_union] at hk ⊢
    exact hk.imp_left h

lemma mem_gather_mono (h : k ∈ D → k ∈ D') (hk : k ∈ f.gather val j.op D) : k ∈ f.gather val j.op D' := by
  induction f generalizing j D D' with
  | atom a => exact mem_take_mono h hk
  | group e ih => exact mem_group_mono (ih (j := .and) h) h hk
  | atomThen a j' rest ih => exact ih (mem_take_mono h) hk
  | groupThen e j' rest ih ih' => exact ih' (mem_group_mono (ih (j := .and) h) h) hk

lemma mem_gather_congr (h : k ∈ D ↔ k ∈ D') : k ∈ f.gather val j.op D ↔ k ∈ f.gather val j.op D' :=
  ⟨mem_gather_mono h.mp, mem_gather_mono h.mpr⟩

lemma mem_gather_and_of_mem (h : k ∈ D) : k ∈ f.gather val .binAnd D ↔ k ∈ f.alone val := by
  induction f generalizing D with
  | atom a => simp [gather_atom, h]
  | group e ih =>
    rw [gather_group_and, alone_group]
    exact ih h
  | atomThen a j rest _ =>
    rw [alone_atomThen, gather_atomThen, take_and]
    exact mem_gather_congr (by simp [h])
  | groupThen e j rest ih _ =>
    rw [gather_groupThen_and, alone_groupThen]
    exact mem_gather_congr (ih h)

lemma mem_gather_and_of_not_mem (h : k ∉ D) : k ∈ f.gather val .binAnd D ↔ k ∈ f.gather val .binAnd ∅ :=
  mem_gather_congr (j := .and) (by simp [h])

lemma gather_and_eq_inter_iff : f.gather val .binAnd D = D ∩ f.alone val ↔ f.gather val .binAnd ∅ ⊆ D := by
  constructor
  · intro h k hk
    by_contra hD
    rw [← mem_gather_and_of_not_mem hD, h] at hk
    exact hD (mem_inter.mp hk).1
  · intro h
    ext k
    rw [mem_inter]
    by_cases hD : k ∈ D
    · rw [mem_gather_and_of_mem hD]
      exact ⟨fun hk => ⟨hD, hk⟩, fun hk => hk.2⟩
    · rw [mem_gather_and_of_not_mem hD]
      exact ⟨fun hk => absurd (h hk) hD, fun hk => absurd hk.1 hD⟩

def orFree : Formula α → Bool
  | atom _ => true
  | group e => e.orFree
  | atomThen _ j rest => j = .and && rest.orFree
  | groupThen e j rest => e.orFree && (j = .and && rest.orFree)

lemma gather_and_empty_of_orFree (h : f.orFree = true) : f.gather val .binAnd ∅ = ∅ := by
  induction f with
  | atom a => simp [gather_atom]
  | group e ih =>
    rw [gather_group_and]
    exact ih h
  | atomThen a j rest ih =>
    simp only [orFree, Bool.and_eq_true, decide_eq_true_eq] at h
    obtain ⟨rfl, hr⟩ := h
    rw [gather_atomThen, take_and, empty_inter]
    exact ih hr
  | groupThen e j rest ih ih' =>
    simp only [orFree, Bool.and_eq_true, decide_eq_true_eq] at h
    obtain ⟨he, rfl, hr⟩ := h
    rw [gather_groupThen_and, ih he]
    exact ih' hr

end Formula

section

def Queryable.Finds (U : Finset Text) (q : Queryable) (S : Finset Text) : Prop :=
  S ⊆ U ∧ ∃ searchResults, q.kind = .query (.ok S) searchResults ∧ ∀ d ⊆ U, searchResults d = .ok (d ∩ S)

inductive Realises {α : Type} (U : Finset Text) (val : α → Finset Text) : Formula α → Op → List Queryable → Prop
  | atom {a : α} {ns : List Queryable} {q : Queryable} (hn : ∀ n ∈ ns, n.kind = .notQuery) (hq : q.Finds U (val a)) :
      Realises U val (.atom a) q.op (ns ++ [q])
  | group {e : Formula α} {s c : Queryable} {op : Op} {xs : List Queryable} (hs : s.kind = .subQuery true)
      (hc : c.kind = .subQuery false) (h : Realises U val e op xs) : Realises U val (.group e) c.op (s :: (xs ++ [c]))
  | atomThen {a : α} {j : Joiner} {rest : Formula α} {ns ys : List Queryable} {q : Queryable} {op : Op}
      (hn : ∀ n ∈ ns, n.kind = .notQuery) (hq : q.Finds U (val a)) (hj : q.op = j.op) (h : Realises U val rest op ys) :
      Realises U val (.atomThen a j rest) op (ns ++ q :: ys)
  | groupThen {e rest : Formula α} {j : Joiner} {s c : Queryable} {op op' : Op} {xs ys : List Queryable}
      (hs : s.kind = .subQuery true) (hc : c.kind = .subQuery false) (hj : c.op = j.op) (h : Realises U val e op xs)
      (h' : Realises U val rest op' ys) : Realises U val (.groupThen e j rest) op' (s :: (xs ++ c :: ys))

variable {α : Type} {U : Finset Text} {val : α → Finset Text} {f : Formula α} {op : Op} {qs : List Queryable}

lemma Realises.ne_nil (h : Realises U val f op qs) : qs ≠ [] := by
  cases h <;> simp

lemma Queryable.Finds.not_marker {q : Queryable} {S : Finset Text} (h : q.Finds U S) (b : Bool) :
    q.kind ≠ .subQuery b := by
  obtain ⟨-, sr, hk, -⟩ := h
  simp [hk]

lemma nested_nots {ns : List Queryable} (hn : ∀ n ∈ ns, n.kind = .notQuery) (h : Nested qs) : Nested (ns ++ qs) := by
  induction ns with
  | nil => exact h
  | cons n ns ih =>
    have hk := hn n (.head _)
    exact .leaf (fun b => by simp [hk]) (ih fun m hm => hn m (.tail _ hm))

lemma Realises.nested (h : Realises U val f op qs) : Nested qs := by
  induction h with
  | atom hn hq => exact nested_nots hn (.leaf hq.not_marker .nil)
  | group hs hc h ih => exact .group hs hc h.ne_nil ih .nil
  | atomThen hn hq _ _ ih => exact nested_nots hn (.leaf hq.not_marker ih)
  | groupThen hs hc _ h _ ih ih' => exact .group hs hc h.ne_nil ih ih'

lemma walk_nots {ns : List Queryable} (hn : ∀ n ∈ ns, n.kind = .notQuery) (g : Frame) (fs : List Frame) :
    walk (ns ++ qs) g fs = walk qs g fs := by
  induction ns with
  | nil => rfl
  | cons n ns ih =>
    rw [List.cons_append, walk_notQuery (hn n (.head _))]
    exact ih fun m hm => hn m (.tail _ hm)

lemma walk_finds {q : Queryable} {S : Finset Text} (h : q.Finds U S) (g : Frame) (hg : g.docs ⊆ U) (fs : List Frame) :
    walk (q :: qs) g fs = walk qs ⟨q.op, take g.curOp g.docs S⟩ fs := by
  obtain ⟨-, sr, hk, hsr⟩ := h
  have hs : searched g.curOp g.docs (.ok S) sr = .ok (if g.curOp = .binAnd then g.docs ∩ S else S) := by
    rw [searched]
    split
    · exact hsr g.docs hg
    · rfl
  rw [walk_query hk, hs, ok_bind]
  rfl

lemma Frame.enter_subset {g : Frame} (hg : g.docs ⊆ U) : g.enter.docs ⊆ U := by
  rw [Frame.enter]
  dsimp only
  split
  · exact hg
  · exact empty_subset U

lemma Realises.gather_subset (h : Realises U val f op qs) (g : Frame) (hg : g.docs ⊆ U) :
    f.gather val g.curOp g.docs ⊆ U := by
  induction h generalizing g with
  | atom _ hq => exact take_subset hg hq.1
  | group _ _ _ ih => exact merge_subset hg (ih g.enter (Frame.enter_subset hg))
  | @atomThen a j _ _ _ _ _ _ hq _ _ ih => exact ih ⟨j.op, _⟩ (take_subset hg hq.1)
  | @groupThen _ _ j _ _ _ _ _ _ _ _ _ _ _ ih ih' =>
    exact ih' ⟨j.op, _⟩ (merge_subset hg (ih g.enter (Frame.enter_subset hg)))

theorem Realises.walk (h : Realises U val f op qs) (g : Frame) (hg : g.docs ⊆ U) (fs : List Frame) :
    walk qs g fs = .ok (⟨op, f.gather val g.curOp g.docs⟩, fs) := by
  induction h generalizing g fs with
  | atom hn hq =>
    rw [walk_nots hn, walk_finds hq g hg]
    rfl
  | group hs hc _ ih =>
    rw [walk_start hs, walk_append, ih g.enter (Frame.enter_subset hg), ok_bind, walk_end hc]
    rfl
  | atomThen hn hq hj _ ih =>
    rw [walk_nots hn, walk_finds hq g hg, ih _ (take_subset hg hq.1), hj]
    rfl
  | groupThen hs hc hj h _ ih ih' =>
    have he := Frame.enter_subset hg
    rw [walk_start hs, walk_append, ih g.enter he, ok_bind, walk_end hc,
      ih' _ (merge_subset hg (h.gather_subset g.enter he)), Frame.absorb, hj]
    rfl

lemma Realises.lastFrame (h : Realises U val f op qs) (g : Frame) (hg : g.docs ⊆ U) :
    lastFrame qs g = .ok ⟨op, f.gather val g.curOp g.docs⟩ := by
  rw [Search.lastFrame, h.walk g hg]
  rfl

end

end Goiardi.Search
