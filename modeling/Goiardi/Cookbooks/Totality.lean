import Goiardi.Cookbooks.Closure
import Goiardi.Cookbooks.Termination

/-! For which stores `DependsCookbooks` returns without a panic, whatever it is asked. -/

namespace Goiardi.Cookbooks

open GVersion Validation Machine List

variable {store : Store} {ord : MapOrder} {runList : List Text} {env : List (Text × Text)} {k r : Text}
  {s s' : State} {n : ℕ} {c d : Config}

lemma targets_storeNames (h : Reaches (step store ord) (start runList env) c) {w t : Text}
    (ht : t ∈ c.state.targets w) : t ∈ storeNames store := by
  induction h with
  | refl => simp [start, start_targets] at ht
  | @tail c d hc he ih =>
    rcases (steps_of_step he).mem_targets ht with ht | ⟨v, c2, rest, control, hcn, -⟩
    · exact ih ht
    · obtain ⟨s, n, control'⟩ := c
      subst hcn
      exact mem_storeNames_of_pair (inv_reaches hc).names_of_frame.2

def outcome (store : Store) (ord : MapOrder) (runList : List Text) (env : List (Text × Text)) (s : State)
    (seen : List (Option Text)) : Except Failure (List (Text × CookbookVersion)) :=
  match violations store (rootDeps ord runList env) s seen with
  | .error p => .error (.panic p)
  | .ok (verr :: verrs) => .error (.dependsError (verr :: verrs))
  | .ok [] => cookbookDeps s (ord.shelf s.cbShelf)

lemma dependsCookbooks_of_reaches (h : Reaches (step store ord) (start runList env) ⟨s, n, []⟩) :
    ∃ m seen, (∀ x, x ∈ seen ↔ DepthFirst.Reachable (nounEdges (rootDeps ord runList env) s) none x) ∧
      dependsCookbooks store ord runList env m = some (outcome store ord runList env s seen) := by
  obtain ⟨m₁, hm₁⟩ := run_of_reaches h (r := .ok s) rfl
  have hf : ∃ m seen, DepthFirst.depthFirstWalk (nounEdges (rootDeps ord runList env) s) m none = some seen := by
    apply DepthFirst.depthFirstWalk_finishes
      (insert none (((runListRef runList).toFinset ∪ storeNames store).image some)) (by simp)
    intro x _ y hy
    obtain ⟨d, -, rfl⟩ := mem_map.mp hy
    simp only [Finset.mem_insert, Finset.mem_image, Finset.mem_union, mem_toFinset]
    refine Or.inr ⟨d.target, ?_, rfl⟩
    cases x with
    | none => exact Or.inl (mem_rootDeps.mp hy)
    | some w => exact Or.inr (targets_storeNames h (mem_nounEdges.mp hy))
  obtain ⟨m₂, seen, hm₂⟩ := hf
  refine ⟨max m₁ m₂, seen, DepthFirst.mem_depthFirstWalk hm₂, ?_⟩
  have hr := run_mono (Nat.le_max_left m₁ m₂) hm₁
  have hw : DepthFirst.depthFirstWalk (nounEdges (rootDeps ord runList env) s) (max m₁ m₂) none = some seen :=
    run_mono (Nat.le_max_right m₁ m₂) hm₂
  simp only [dependsCookbooks, hr, checkConstraints, hw, Option.map_some, outcome]
  cases violations store (rootDeps ord runList env) s seen with
  | error p => rfl
  | ok l => cases l <;> rfl

lemma satisfied_ok {head : Option Text} {dep : Dependency} (ht : (s.info dep.target).isSome)
    (hr : ∀ cb, store.get dep.target = some cb → ∀ v ∈ cb.versions, Readable v) :
    ∃ o, satisfied store s head dep = .ok o := by
  obtain ⟨m, hm⟩ := Option.isSome_iff_exists.mp ht
  obtain ⟨nd, hn, rfl⟩ := nodes_of_info hm
  simp only [satisfied, hn]
  split
  · exact ⟨_, rfl⟩
  · split
    · cases hg : store.get dep.target with
      | none => exact ⟨_, rfl⟩
      | some cb =>
        obtain ⟨bad, hb⟩ := Cookbook.badConstraints_ok (hr cb hg) dep.constraint
        exact ⟨_, by simp only [hb]; rfl⟩
    · exact ⟨_, rfl⟩

lemma violationsOf_ok {head : Option Text} {deps : List Dependency}
    (h : ∀ d ∈ deps, ∃ o, satisfied store s head d = .ok o) : ∃ l, violationsOf store s head deps = .ok l := by
  induction deps with
  | nil => exact ⟨[], rfl⟩
  | cons d deps ih =>
    obtain ⟨o, ho⟩ := h d (by simp)
    obtain ⟨l, hl⟩ := ih fun d' hd' => h d' (by simp [hd'])
    exact ⟨o.toList ++ l, by simp only [violationsOf, ho, hl]; rfl⟩

lemma violations_ok {rds : List Dependency} {he : List (Option Text)}
    (h : ∀ head ∈ he, ∃ l, violationsOf store s head (nounDeps rds s head) = .ok l) :
    ∃ l, violations store rds s he = .ok l := by
  induction he with
  | nil => exact ⟨[], rfl⟩
  | cons head he ih =>
    obtain ⟨l, hl⟩ := h head (by simp)
    obtain ⟨l', hl'⟩ := ih fun he' hh => h he' (by simp [hh])
    exact ⟨l ++ l', by simp only [violations, hl, hl']; rfl⟩

lemma cookbookDeps_no_panic {l : List (Text × Cookbook)}
    (h : ∀ p ∈ l, ∃ m o, s.info p.1 = some m ∧ p.2.choose m.constraint.head? = .ok o) (p : Panic) :
    cookbookDeps s l ≠ .error (.panic p) := by
  induction l with
  | nil => simp [cookbookDeps]
  | cons q l ih =>
    obtain ⟨k, cb⟩ := q
    obtain ⟨m, o, hm, hc⟩ := h _ mem_cons_self
    obtain ⟨nd, hn, rfl⟩ := nodes_of_info hm
    have hl := ih fun q' hq' => h q' (by simp [hq'])
    simp only [cookbookDeps, hn, Cookbook.latestMultiConstraint_eq_choose, hc]
    cases o with
    | none => simp
    | some v =>
      cases hd : cookbookDeps s l with
      | error f =>
        intro he
        exact hl (hd.trans he)
      | ok deps => simp [bind, Except.bind, pure, Except.pure]

lemma outcome_no_panic (h : Reaches (step store ord) (start runList env) ⟨s, n, []⟩)
    (hr : ∀ cb ∈ store.cookbooks, ∀ v ∈ cb.versions, Readable v) (seen : List (Option Text)) (p : Panic) :
    outcome store ord runList env s seen ≠ .error (.panic p) := by
  have hi := inv_reaches h
  have ht : ∀ head, ∀ d ∈ nounDeps (rootDeps ord runList env) s head, (s.info d.target).isSome := by
    intro head d hd
    have hmm : some d.target ∈ nounEdges (rootDeps ord runList env) s head := mem_map_of_mem hd
    cases head with
    | none =>
      refine hi.start.isSome ?_
      simpa [start_info] using lastItem_isSome.mpr (mem_rootDeps.mp hmm)
    | some w =>
      obtain ⟨m, hm, -⟩ := hi.basic.targets_ok w _ (mem_nounEdges.mp hmm)
      simp [show s.info d.target = some m from hm]
  have hv : ∃ l, violations store (rootDeps ord runList env) s seen = .ok l := by
    refine violations_ok fun head _ => violationsOf_ok fun d hd => ?_
    exact satisfied_ok (ht head d hd) fun cb hg => hr cb (Store.get_mem hg).1
  obtain ⟨l, hl⟩ := hv
  unfold outcome
  rw [hl]
  cases l with
  | cons verr verrs => simp
  | nil =>
    refine cookbookDeps_no_panic (fun q hq => ?_) p
    have hs := (lookup_eq_some_iff hi.basic.shelf_nodup q.1 q.2).mpr ((ord.shelf_perm _).mem_iff.mp hq)
    obtain ⟨m, hm, -⟩ := hi.basic.shelf_info q.1 q.2 hs
    rcases hi.settled q.1 q.2 m hs hm Returned.not_selecting with ⟨-, hc⟩ | ⟨-, v, -, hc, -⟩
    · exact ⟨m, _, hm, hc⟩
    · exact ⟨m, _, hm, hc⟩

structure Returning (store : Store) : Prop where
  versions : ∀ cb ∈ store.cookbooks, cb.versions ≠ []
  readable : ∀ cb ∈ store.cookbooks, ∀ v ∈ cb.versions, Readable v
  acyclic : ∀ h : Text → Option Constraint, (∀ k, ∀ x ∈ h k, newConstraint x.original = some [x]) →
    ∀ k, ¬ Relation.TransGen (BadStep store h) k k

def Store.WellFormed (store : Store) : Prop := ∀ p ∈ depTexts store, GoodText p.2

instance (store : Store) : Decidable store.WellFormed :=
  inferInstanceAs (Decidable (∀ p ∈ depTexts store, GoodText p.2))

lemma returning_of_good (hv : ∀ cb ∈ store.cookbooks, cb.versions ≠ [])
    (hr : ∀ cb ∈ store.cookbooks, ∀ v ∈ cb.versions, Readable v) (hg : store.WellFormed) : Returning store := by
  refine ⟨hv, hr, fun h _ k hk => ?_⟩
  obtain ⟨r, ⟨cb, v, l, t, hgt, hc, hl, ht, hb⟩, -⟩ := Relation.TransGen.head'_iff.mp hk
  have hm := mem_depPairs (Store.get_mem hgt).1 (Cookbook.choose_mem hc) hl ht
  exact hb (hg _ (mem_depTexts hm))

lemma Inv.selection_spec (hi : Inv store runList env c) {p : Cookbook × DepMeta} (hp : p ∈ c.selection) :
    ∃ r, store.get r = some p.1 ∧ c.state.info r = some p.2 := by
  obtain ⟨s, n, control⟩ := c
  have hg : ∀ r cb, s.onShelf r = some cb → p ∈ (s.info r).map (cb, ·) →
      ∃ r, store.get r = some p.1 ∧ s.info r = some p.2 := by
    intro r cb hs hp
    obtain ⟨m, hm, rfl⟩ := Option.map_eq_some_iff.mp hp
    exact ⟨r, hi.basic.shelf_get r cb hs, hm⟩
  cases control with
  | nil => simp [Config.selection] at hp
  | cons t control =>
    have ht := hi.tasks t (by simp)
    cases t with
    | runList names => simp [Config.selection] at hp
    | dependencies v rest => simp [Config.selection] at hp
    | selectRunList r cb => exact hg r cb ht hp
    | selectDependency r cb => exact hg r cb ht hp

lemma Inv.selection_mem (hi : Inv store runList env c) {p : Cookbook × DepMeta} (hp : p ∈ c.selection) :
    p.1 ∈ store.cookbooks := by
  obtain ⟨r, hg, -⟩ := hi.selection_spec hp
  exact (Store.get_mem hg).1

lemma Basic.head_ok (hb : Basic store s) (k : Text) : ∀ x ∈ s.head k, newConstraint x.original = some [x] := by
  intro x hx
  cases hm : s.info k with
  | none => simp [State.head, State.constraintsOf, hm] at hx
  | some m =>
    rw [State.head, constraintsOf_eq hm] at hx
    exact hb.constraint_ok k m hm x (mem_of_head? hx)

lemma Returning.terminating (hr : Returning store) (ha : store.Accepted) (ord : MapOrder) (runList : List Text)
    (env : List (Text × Text)) : Terminating store ord runList env (Inv store runList env) where
  accepted := ha
  inv _ hi := hi
  preserved _ _ hi hs := hi.preserved hs
  choice c hi p hp := by
    have hcb := hi.selection_mem hp
    exact Cookbook.choose_ok (hr.versions _ hcb) (hr.readable _ hcb) _
  acyclic c hi := hr.acyclic _ hi.basic.head_ok

/-- Whatever is asked of it over this store, `DependsCookbooks` returns, and not by a panic. -/
def AlwaysReturns (store : Store) : Prop :=
  ∀ (ord : MapOrder) (runList : List Text) (env : List (Text × Text)), (env.map Prod.fst).Nodup →
    ∃ n o, dependsCookbooks store ord runList env n = some o ∧ ∀ p, o ≠ .error (.panic p)

lemma Returning.alwaysReturns (hr : Returning store) (ha : store.Accepted) : AlwaysReturns store := by
  intro ord runList env _
  obtain ⟨⟨s, n, control⟩, hd, -, hc⟩ :=
    (hr.terminating ha ord runList env).runList_done (inv_start store runList env)
  subst hc
  obtain ⟨m, seen, -, hm⟩ := dependsCookbooks_of_reaches hd
  exact ⟨m, _, hm, outcome_no_panic hd hr.readable seen⟩

end Goiardi.Cookbooks
