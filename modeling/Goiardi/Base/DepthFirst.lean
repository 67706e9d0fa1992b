import Goiardi.Base.Machine

/-! Depth-first traversal with a frontier and a list of the nodes seen so far. -/

namespace Goiardi.DepthFirst

open Machine List

variable {α : Type} (edges : α → List α)

def step [DecidableEq α] : List α × List α → List α ⊕ (List α × List α)
  | ([], seen) => .inl seen
  | (x :: frontier, seen) =>
    if x ∈ seen then .inr (frontier, seen) else .inr (edges x ++ frontier, seen ++ [x])

def depthFirstWalk [DecidableEq α] (n : ℕ) (root : α) : Option (List α) := run (step edges) n ([root], [])

def Reachable (root : α) : α → Prop := Relation.ReflTransGen (fun a b => b ∈ edges a) root

structure Inv (root : α) (c : List α × List α) : Prop where
  frontier_reachable : ∀ x ∈ c.1, Reachable edges root x
  seen_reachable : ∀ x ∈ c.2, Reachable edges root x
  root_mem : root ∈ c.2 ∨ root ∈ c.1
  closed : ∀ x ∈ c.2, ∀ y ∈ edges x, y ∈ c.2 ∨ y ∈ c.1

variable {edges} {root : α}

lemma inv_initial : Inv edges root ([root], []) where
  frontier_reachable x hx := by
    rw [mem_singleton.mp hx]
    exact Relation.ReflTransGen.refl
  seen_reachable x hx := by simp at hx
  root_mem := Or.inr (by simp)
  closed x hx := by simp at hx

lemma inv_step [DecidableEq α] (c d : List α × List α) (h : Inv edges root c) (he : step edges c = .inr d) :
    Inv edges root d := by
  obtain ⟨frontier, seen⟩ := c
  cases frontier with
  | nil => simp [step] at he
  | cons x frontier =>
    have hx : Reachable edges root x := h.frontier_reachable x (by simp)
    by_cases hs : x ∈ seen
    · simp only [step, hs, if_true, Sum.inr.injEq] at he
      subst he
      refine ⟨fun y hy => h.frontier_reachable y (by simp [hy]), h.seen_reachable, ?_, ?_⟩
      · rcases h.root_mem with hr | hr
        · exact Or.inl hr
        · rcases mem_cons.mp hr with rfl | hr
          · exact Or.inl hs
          · exact Or.inr hr
      · intro y hy z hz
        rcases h.closed y hy z hz with hz | hz
        · exact Or.inl hz
        · rcases mem_cons.mp hz with rfl | hz
          · exact Or.inl hs
          · exact Or.inr hz
    · simp only [step, hs, if_false, Sum.inr.injEq] at he
      subst he
      refine ⟨?_, ?_, ?_, ?_⟩
      · intro y hy
        rcases mem_append.mp hy with hy | hy
        · exact Relation.ReflTransGen.tail hx hy
        · exact h.frontier_reachable y (by simp [hy])
      · intro y hy
        rcases mem_append.mp hy with hy | hy
        · exact h.seen_reachable y hy
        · rw [mem_singleton.mp hy]
          exact hx
      · rcases h.root_mem with hr | hr
        · exact Or.inl (by simp [hr])
        · rcases mem_cons.mp hr with rfl | hr
          · exact Or.inl (by simp)
          · exact Or.inr (by simp [hr])
      · intro y hy z hz
        rcases mem_append.mp hy with hy | hy
        · rcases h.closed y hy z hz with hz | hz
          · exact Or.inl (by simp [hz])
          · rcases mem_cons.mp hz with rfl | hz
            · exact Or.inl (by simp)
            · exact Or.inr (by simp [hz])
        · rw [mem_singleton.mp hy] at hz
          exact Or.inr (by simp [hz])

lemma mem_iff_reachable_of_closed {seen : List α} (h : Inv edges root ([], seen)) (x : α) :
    x ∈ seen ↔ Reachable edges root x := by
  constructor
  · exact h.seen_reachable x
  · intro hx
    induction hx with
    | refl => simpa using h.root_mem
    | tail _ he ih => simpa using h.closed _ ih _ he

section

variable [DecidableEq α]

theorem mem_depthFirstWalk {n : ℕ} {seen : List α} (h : depthFirstWalk edges n root = some seen) (x : α) :
    x ∈ seen ↔ Reachable edges root x := by
  refine run_post (P := Inv edges root) (Q := fun seen => x ∈ seen ↔ Reachable edges root x)
    inv_step ?_ inv_initial h
  rintro ⟨frontier, seen⟩ r hi hr
  cases frontier with
  | nil =>
    simp only [step, Sum.inl.injEq] at hr
    exact hr ▸ mem_iff_reachable_of_closed hi x
  | cons x frontier => by_cases hs : x ∈ seen <;> simp [step, hs] at hr

lemma finishes (S : Finset α) (hS : ∀ x ∈ S, ∀ y ∈ edges x, y ∈ S) (frontier seen : List α)
    (hf : ∀ x ∈ frontier, x ∈ S) : ∃ n r, run (step edges) n (frontier, seen) = some r := by
  -- A new node shrinks the unseen part of `S`; a node met again shrinks the frontier.
  induction hk : (S \ seen.toFinset).card using Nat.strong_induction_on generalizing frontier seen with
  | _ k ih =>
    induction frontier with
    | nil => exact ⟨1, seen, rfl⟩
    | cons x frontier ihf =>
      by_cases hs : x ∈ seen
      · obtain ⟨n, r, hn⟩ := ihf (fun y hy => hf y (by simp [hy]))
        exact ⟨n + 1, r, by simpa [run, step, hs] using hn⟩
      · have hlt : (S \ (seen ++ [x]).toFinset).card < k := by
          rw [← hk]
          apply Finset.card_lt_card
          rw [Finset.ssubset_iff_of_subset]
          · exact ⟨x, by simp [hs, hf x], by simp⟩
          · intro y hy
            simp only [Finset.mem_sdiff, mem_toFinset, mem_append, not_or] at hy ⊢
            exact ⟨hy.1, hy.2.1⟩
        obtain ⟨n, r, hn⟩ := ih _ hlt (edges x ++ frontier) (seen ++ [x]) (by
          intro y hy
          rcases mem_append.mp hy with hy | hy
          · exact hS x (hf x (by simp)) y hy
          · exact hf y (by simp [hy])) rfl
        exact ⟨n + 1, r, by simpa [run, step, hs] using hn⟩

theorem depthFirstWalk_finishes (S : Finset α) (hr : root ∈ S) (hS : ∀ x ∈ S, ∀ y ∈ edges x, y ∈ S) :
    ∃ n seen, depthFirstWalk edges n root = some seen :=
  finishes S hS [root] [] (by simpa using hr)

end

theorem wellFounded_of_acyclic {R : α → α → Prop} (S : Finset α) (hS : ∀ a b, R a b → a ∈ S)
    (hR : ∀ a, ¬ Relation.TransGen R a a) : WellFounded (Function.swap R) := by
  let Q : S → S → Prop := fun b a => R a b
  have hwf : WellFounded Q := by
    have hl : ∀ a b, Relation.TransGen Q b a → Relation.TransGen R a.1 b.1 := by
      intro a b h
      induction h with
      | single h => exact .single h
      | tail _ h ih => exact .head h ih
    have : Std.Irrefl (Relation.TransGen Q) := ⟨fun a h => hR a.1 (hl a a h)⟩
    have : IsTrans S (Relation.TransGen Q) := ⟨fun _ _ _ => Relation.TransGen.trans⟩
    exact Subrelation.wf (fun h => Relation.TransGen.single h)
      (Finite.wellFounded_of_trans_of_irrefl (Relation.TransGen Q))
  have hin : ∀ a : S, Acc (Function.swap R) a.1 := by
    intro a
    induction a using hwf.induction with
    | _ a ih =>
      refine Acc.intro _ fun b hb => ?_
      by_cases hbS : b ∈ S
      · exact ih ⟨b, hbS⟩ hb
      · exact Acc.intro _ fun c hc => absurd (hS b c hc) hbS
  refine ⟨fun a => ?_⟩
  by_cases ha : a ∈ S
  · exact hin ⟨a, ha⟩
  · exact Acc.intro _ fun b hb => absurd (hS a b hb) ha

end Goiardi.DepthFirst
