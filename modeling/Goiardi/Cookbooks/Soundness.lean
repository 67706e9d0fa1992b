import Goiardi.Cookbooks.Result

/-! When the versions returned satisfy the pins of the run list and each other's dependencies. -/

namespace Goiardi.Cookbooks

open GVersion Validation Machine List Option

variable {store : Store} {ord : MapOrder} {runList : List Text} {env : List (Text × Text)} {k : Text}
  {deps : List (Text × CookbookVersion)} {s : State} {n : ℕ} {V : CookbookVersion}

namespace Returned

lemma inv (h : Returned store ord runList env deps s n) : Inv store runList env ⟨s, n, []⟩ :=
  inv_reaches h.reaches

lemma not_selecting {s : State} {n : ℕ} : ¬ Selecting ⟨s, n, []⟩ k := by
  simp [Selecting]

lemma settled (h : Returned store ord runList env deps s n) (hV : Chosen s k V) :
    ∃ m depList, s.info k = some m ∧ ¬ m.Flagged ∧ m.version = V.version ∧ V.depList = .ok depList ∧
      ∀ p ∈ depList, Processed s p := by
  obtain ⟨cb, m, hs, hm, hc⟩ := hV
  obtain ⟨m', hm', hnf⟩ := h.inv.basic.shelf_info k cb hs
  obtain rfl := some.inj (hm.symm.trans hm')
  rcases h.inv.settled k cb m hs hm not_selecting with ⟨-, hc'⟩ | ⟨hn, v, depList, hc', hv, hd, hp⟩
  · rw [hc] at hc'
    simp at hc'
  · obtain rfl := some.inj (Except.ok.inj (hc.symm.trans hc'))
    refine ⟨m, depList, hm, by simp [DepMeta.Flagged, hn, hnf], hv, hd, fun p hpd => ?_⟩
    rcases hp p hpd with hpr | ⟨rest, hr, -⟩
    · exact hpr
    · simp at hr

end Returned

def FirstDecides (cb : Cookbook) (l : List Constraint) : Prop := ∀ v ∈ cb.newest l, ∀ x ∈ l, Passes v x

def FirstDecidesAt (c : Config) : Prop := ∀ p ∈ c.selection, FirstDecides p.1 p.2.constraint

instance (cb : Cookbook) (l : List Constraint) : Decidable (FirstDecides cb l) :=
  inferInstanceAs (Decidable (∀ v ∈ cb.newest l, ∀ x ∈ l, Passes v x))

instance (c : Config) : Decidable (FirstDecidesAt c) :=
  inferInstanceAs (Decidable (∀ p ∈ c.selection, FirstDecides p.1 p.2.constraint))

def PinsAgree (store : Store) (runList : List Text) : Prop :=
  ∀ cbV ∈ runList, ∀ last ∈ lastItem runList (parseItem cbV).1, ∀ cb ∈ store.get (parseItem cbV).1,
    ∀ v ∈ cb.versions, (∀ x ∈ itemConstraint last, Passes v x) → ∀ x ∈ itemConstraint cbV, Passes v x

instance (store : Store) (runList : List Text) : Decidable (PinsAgree store runList) :=
  inferInstanceAs (Decidable (∀ cbV ∈ runList, ∀ last ∈ lastItem runList (parseItem cbV).1,
    ∀ cb ∈ store.get (parseItem cbV).1, ∀ v ∈ cb.versions, (∀ x ∈ itemConstraint last, Passes v x) →
      ∀ x ∈ itemConstraint cbV, Passes v x))

structure Sound (runList : List Text) (deps : List (Text × CookbookVersion)) : Prop where
  pins : ∀ k V, (k, V) ∈ deps → ∀ cbV ∈ runList, (parseItem cbV).1 = k → ∀ x ∈ itemConstraint cbV, Passes V x
  dependencies : ∀ k V w W, (k, V) ∈ deps → (w, W) ∈ deps → ∀ depList, W.depList = .ok depList →
    ∀ c, (k, .str c) ∈ depList → ∀ x ∈ constraints c, Passes V x

lemma Select.constraint_eq {cb : Cookbook} {o : Option CookbookVersion} {s' : State} {m : DepMeta}
    (h : Select s k cb s' o) (hm : s'.info k = some m) : ∃ m₀, s.info k = some m₀ ∧ m₀.constraint = m.constraint := by
  cases h with
  | noVersion hm₀ hc hi =>
    obtain rfl := some.inj (hi.symm.trans hm)
    exact ⟨_, hm₀, rfl⟩
  | version hm₀ hc hi =>
    obtain rfl := some.inj (hi.symm.trans hm)
    exact ⟨_, hm₀, rfl⟩

lemma firstDecides_reaches {c : Config} (hf : ∀ c, Reaches (step store ord) (start runList env) c → FirstDecidesAt c)
    (h : Reaches (step store ord) (start runList env) c) :
    ∀ k cb m, c.state.onShelf k = some cb → c.state.info k = some m → ¬ Selecting c k →
      FirstDecides cb m.constraint := by
  induction h with
  | refl =>
    intro k cb m hs
    simp [State.onShelf, start, startState] at hs
  | @tail c d hc he ih =>
    intro k cb m hs hm hk
    have hi : Inv store runList env c := inv_reaches hc
    obtain ⟨hs₀, ⟨hk₀, hm₀⟩ | ⟨hk₀, o, hsl, -⟩⟩ := hi.step_old (steps_of_step he) hs hm hk
    · exact ih k cb m hs₀ hm₀ hk₀
    · obtain ⟨m₀, hm₀, hcs⟩ := hsl.constraint_eq hm
      rw [← hcs]
      exact hf c hc _ (hi.selection_eq hk₀ hs₀ hm₀)

lemma envConstraint_front (env : List (Text × Text)) (k : Text) (l : List Constraint) :
    l <+: envConstraint env k l := by
  unfold envConstraint
  induction env.filter (·.1 = k) generalizing l with
  | nil => exact prefix_rfl
  | cons e env ih =>
    obtain ⟨l', he, -⟩ := appendConstraint_eq l e.2
    exact (he ▸ prefix_append l l').trans (ih _)

lemma Inv.item_front {c : Config} (hi : Inv store runList env c) {cbV : Text} {m : DepMeta}
    (hl : lastItem runList k = some cbV) (hm : c.state.info k = some m) :
    startConstraint env k cbV <+: m.constraint := by
  have hs := start_info runList env k
  rw [hl, map_some] at hs
  obtain ⟨m', hm', hp, -⟩ := hi.start.info k _ hs
  obtain rfl := some.inj (hm.symm.trans hm')
  exact hp

def pairA : Cookbook where
  name := "a"
  name_valid := validateName_a
  versions := [.plain "a" "1.0.0" [], .plain "a" "2.0.0" []]
  cookbookName_eq := by decide
  versions_nodup := by decide

def loose : Cookbook where
  name := "x"
  name_valid := by decide
  versions := [.plain "x" "1.0.0" [("a", ">= 1.0.0")]]
  cookbookName_eq := by decide
  versions_nodup := by decide

def strict : Cookbook where
  name := "y"
  name_valid := by decide
  versions := [.plain "y" "1.0.0" [("a", "= 1.0.0")]]
  cookbookName_eq := by decide
  versions_nodup := by decide

def conflictStore : Store where
  cookbooks := [pairA, loose, strict]
  names_nodup := by decide

lemma conflictStore_accepted : conflictStore.Accepted := by
  refine Store.accepted_of_versions fun v hv => ?_
  fin_cases hv <;> exact ⟨⟨_, rfl⟩, rfl⟩

end Goiardi.Cookbooks
