import Goiardi.Cookbooks.Agreement

/-! When the constraints of the environment bind the versions returned. -/

namespace Goiardi.Cookbooks

open GVersion Validation Machine List

variable {store : Store} {ord : MapOrder} {runList : List Text} {env : List (Text × Text)} {n : ℕ}
  {deps : List (Text × CookbookVersion)}

def EnvDecides (store : Store) (runList : List Text) (env : List (Text × Text)) : Prop :=
  ∀ k t cb o V, (k, t) ∈ env → store.get k = some cb → First store runList env ∅ k o →
    o ≠ (constraints t).head? → cb.choose o = .ok (some V) → ∀ x ∈ constraints t, Passes V x

def Honours (env : List (Text × Text)) (deps : List (Text × CookbookVersion)) : Prop :=
  ∀ k V t, (k, V) ∈ deps → (k, t) ∈ env → ∀ x ∈ constraints t, Passes V x

def exactlyOne : Constraint := ⟨.equal, ⟨[], [], [1, 0, 0], 3⟩, "= 1.0.0"⟩

lemma first_onlyA {k : Text} {R : Set Text} {o : Option Constraint}
    (h : First conflictStore ["a"] [("a", "= 1.0.0")] R k o) : k = "a" ∧ o = some exactlyOne := by
  have hs : ∀ {k r t : Text} {o : Option Constraint} {cb : Cookbook} {v : CookbookVersion} {l : JsonMap},
      (k = "a" ∧ o = some exactlyOne) → conflictStore.get k = some cb →
      cb.choose o = .ok (some v) → v.depList = .ok l → (r, .str t) ∈ l → False := by
    rintro k r t o cb v l ⟨rfl, rfl⟩ hg hc hl ht
    obtain rfl : pairA = cb := Option.some.inj hg
    obtain rfl := Option.some.inj (Except.ok.inj hc)
    obtain rfl := Except.ok.inj hl
    simp at ht
  induction h with
  | item h =>
    obtain rfl := mem_singleton.mp h
    exact ⟨rfl, by decide⟩
  | dependency _ hg hc hl ht _ _ _ ih => exact (hs ih hg hc hl ht).elim
  | unreadable _ hg hc hl ht _ _ ih => exact (hs ih hg hc hl ht).elim

end Goiardi.Cookbooks
