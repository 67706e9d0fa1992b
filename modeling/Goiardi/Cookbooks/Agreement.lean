import Goiardi.Cookbooks.Stuck

/-! When the order of the run list and of the maps does not matter. -/

namespace Goiardi.Cookbooks

open GVersion Validation Machine List Option Except

variable {store : Store} {ord : MapOrder} {runList : List Text} {env : List (Text × Text)} {k r : Text}
  {s s' : State} {n : ℕ} {c d : Config}

def Unconstrained (runList : List Text) (env : List (Text × Text)) (r : Text) : Prop :=
  r ∈ runListRef runList → ∃ cbV ∈ runList, (parseItem cbV).1 = r ∧ startConstraint env r cbV = []

inductive First (store : Store) (runList : List Text) (env : List (Text × Text)) :
    Set Text → Text → Option Constraint → Prop
  | item {R : Set Text} {cbV : Text} (h : cbV ∈ runList) :
      First store runList env R (parseItem cbV).1 (startConstraint env (parseItem cbV).1 cbV).head?
  | dependency {R : Set Text} {k r t : Text} {o : Option Constraint} {cb : Cookbook} {v : CookbookVersion}
      {l : JsonMap} {x : Constraint} {xs : List Constraint} (hk : First store runList env (insert r R) k o)
      (hg : store.get k = some cb) (hc : cb.choose o = .ok (some v)) (hl : v.depList = .ok l)
      (ht : (r, .str t) ∈ l) (hx : constraints t = x :: xs) (hR : r ∉ R) (hr : Unconstrained runList env r) :
      First store runList env R r (some x)
  | unreadable {R : Set Text} {k r t : Text} {o : Option Constraint} {cb : Cookbook} {v : CookbookVersion}
      {l : JsonMap} (hk : First store runList env R k o) (hg : store.get k = some cb)
      (hc : cb.choose o = .ok (some v)) (hl : v.depList = .ok l) (ht : (r, .str t) ∈ l)
      (hx : constraints t = []) (hr : Unconstrained runList env r) : First store runList env R r none

variable {o : Option Constraint} {R : Set Text} {k' : Text} {m' : DepMeta} {cb : Cookbook} {v : CookbookVersion}
  {env' : List (Text × Text)}

lemma First.anti {R R' : Set Text} (hR : R ⊆ R') (h : First store runList env R' k o) :
    First store runList env R k o := by
  induction h generalizing R with
  | item h => exact .item h
  | dependency _ hg hc hl ht hx hn hr ih =>
    exact .dependency (ih (Set.insert_subset_insert hR)) hg hc hl ht hx (fun hm => hn (hR hm)) hr
  | unreadable _ hg hc hl ht hx hr ih => exact .unreadable (ih hR) hg hc hl ht hx hr

def Agree (store : Store) (runList : List Text) (env : List (Text × Text)) : Prop :=
  ∀ k cb o o', store.get k = some cb → First store runList env ∅ k o → First store runList env ∅ k o' →
    cb.choose o = cb.choose o'

def Selected (store : Store) (runList : List Text) (env : List (Text × Text)) (R : Set Text) (k : Text)
    (V : CookbookVersion) : Prop :=
  ∃ cb o, store.get k = some cb ∧ First store runList env R k o ∧ cb.choose o = .ok (some V)

def State.Free (s : State) (R : Set Text) : Prop := ∀ r ∈ R, s.constraintsOf r = []

structure FirstInv (store : Store) (runList : List Text) (env : List (Text × Text)) (c : Config) : Prop where
  head : ∀ R, c.state.Free R → ∀ k m, c.state.info k = some m → First store runList env R k m.constraint.head?
  version : ∀ k m, c.state.info k = some m → m.version ≠ [] →
    ∃ v, Selected store runList env ∅ k v ∧ m.version = v.version
  frame : ∀ R, c.state.Free R → ∀ v rest, .dependencies v rest ∈ c.control →
    Selected store runList env R v.cookbookName v

lemma Le.free (h : Le s s') (hR : s'.Free R) : s.Free R := fun r hr =>
  prefix_nil.mp (hR r hr ▸ h.constraintsOf r)

lemma free_empty (s : State) : s.Free ∅ := fun _ h => absurd h (Set.notMem_empty _)

lemma VisitItem.info_eq {o : Option Cookbook} (h : VisitItem store s k s' o) (hm' : s'.info k' = some m') :
    ∃ m, s.info k' = some m ∧ m'.constraint = m.constraint ∧ m'.version = m.version := by
  cases h with
  | skipped => exact ⟨m', hm', rfl, rfl⟩
  | placed => exact ⟨m', by rwa [info_shelve] at hm', rfl, rfl⟩
  | notFound hm _ _ hi ho =>
    by_cases hk : k' = k
    · subst hk
      obtain rfl := some.inj (hi.symm.trans hm')
      exact ⟨_, hm, rfl, rfl⟩
    · exact ⟨m', by rwa [ho k' hk] at hm', rfl, rfl⟩

lemma Select.info_eq (h : Select s r cb s' none) (hm' : s'.info k' = some m') :
    ∃ m, s.info k' = some m ∧ m'.constraint = m.constraint ∧ m'.version = m.version := by
  by_cases hk : k' = r
  · subst hk
    cases h with
    | noVersion hm _ hi =>
      obtain rfl := some.inj (hi.symm.trans hm')
      exact ⟨_, hm, rfl, rfl⟩
  · exact ⟨m', by rwa [h.other hk] at hm', rfl, rfl⟩

lemma Visit.info_cases {c2 : Json} {o : Option Cookbook} (hb : Basic store s) (h : Visit store s k r c2 s' o) (hm' : s'.info k' = some m') : s.info k' = some m' ∨
      (k' = r ∧ ∃ c m, c2 = .str c ∧ m = (s.info r).getD DepMeta.new ∧ m'.version = m.version ∧
        m'.constraint = appendConstraint m.constraint c) := by
  by_cases hk : k' = r
  · subst hk
    cases h with
    | flagged => exact Or.inl hm'
    | notFound hc hm _ _ _ _ hi =>
      obtain rfl := some.inj (hi.symm.trans hm')
      exact Or.inr ⟨rfl, _, _, hc, hm, rfl, rfl⟩
    | present hc hm _ _ hs _ _ hi =>
      obtain ⟨m, hm₀, -⟩ := hb.shelf_info _ _ hs
      rw [hm₀, getD_some] at hm
      rw [hm₀, ← hm, ← hi, hm']
      exact Or.inl rfl
    | placed hc hm _ _ _ _ hi =>
      obtain rfl := some.inj (hi.symm.trans hm')
      exact Or.inr ⟨rfl, _, _, hc, hm, rfl, rfl⟩
  · refine Or.inl ?_
    cases h with
    | flagged => exact hm'
    | notFound _ _ _ _ _ _ _ ho => rwa [← ho k' hk]
    | present _ _ _ _ _ _ _ _ ho => rwa [← ho k' hk]
    | placed _ _ _ _ _ _ _ ho => rwa [← ho k' hk]

lemma Inv.unconstrained (hi : Inv store runList env c)
    (hr : ((c.state.info r).getD DepMeta.new).constraint = []) : Unconstrained runList env r := by
  intro hmm
  obtain ⟨cbV, hl⟩ := isSome_iff_exists.mp (lastItem_isSome.mpr hmm)
  obtain ⟨hc, hn⟩ := lastItem_name hl
  have hs := start_info runList env r
  rw [hl, map_some] at hs
  obtain ⟨m, hm, hp, -⟩ := hi.start.info r _ hs
  rw [hm, getD_some] at hr
  rw [hr] at hp
  exact ⟨cbV, hc, hn, prefix_nil.mp hp⟩

lemma FirstInv.visit_head (hi : Inv store runList env c) (hf : FirstInv store runList env c)
    {t : Text} {l : JsonMap} {rest : JsonMap} (hv : .dependencies v rest ∈ c.control) (hl : v.depList = .ok l)
    (ht : (r, .str t) ∈ l) {m : DepMeta} (hm : m = (c.state.info r).getD DepMeta.new) (hfr : c.state.Free R) (hR : r ∈ R → appendConstraint m.constraint t = []) :
    First store runList env R r (appendConstraint m.constraint t).head? := by
  have hcs : c.state.constraintsOf r = m.constraint := by
    rw [hm, State.constraintsOf]
    cases c.state.info r <;> rfl
  cases hmc : m.constraint with
  | nil =>
    have hun := hi.unconstrained (hm ▸ hmc)
    have hap : appendConstraint [] t = constraints t := by simp [appendConstraint, constraintPresent]
    rw [hmc, hap] at hR
    rw [hap]
    cases hx : constraints t with
    | nil =>
      obtain ⟨cb, o, hg, ho, hc⟩ := hf.frame R hfr v rest hv
      exact .unreadable ho hg hc hl ht hx hun
    | cons x xs =>
      -- While `r` has no constraint, the frame's own choice did not rest on one either.
      obtain ⟨cb, o, hg, ho, hc⟩ := hf.frame (insert r R) (by
        intro r' hr'
        rcases hr' with rfl | hr'
        · rw [hcs, hmc]
        · exact hfr r' hr') v rest hv
      exact .dependency ho hg hc hl ht hx (fun hr => by simp [hx] at hR; exact hR hr) hun
  | cons y ys =>
    obtain ⟨l', hl', -⟩ := appendConstraint_eq (y :: ys) t
    rw [hl']
    cases hr : c.state.info r with
    | none => simp [hm, hr, DepMeta.new, Noun.new] at hmc
    | some m₀ =>
      obtain rfl : m = m₀ := by rw [hm, hr]; rfl
      have hh := hf.head R hfr r m hr
      rwa [hmc] at hh

lemma Select.first (h : Select s r cb s' (some v))
    (hg : store.get r = some cb) (hh : ∀ m, s.info r = some m → First store runList env R r m.constraint.head?) :
    Selected store runList env R r v := by
  cases h with
  | version hm hc => exact ⟨cb, _, hg, hh _ hm, hc⟩

lemma FirstInv.of_info_eq (hf : FirstInv store runList env c) (hle : Le c.state d.state)
    (hi : ∀ k m', d.state.info k = some m' →
      ∃ m, c.state.info k = some m ∧ m'.constraint = m.constraint ∧ m'.version = m.version)
    (hcn : ∀ v rest, .dependencies v rest ∈ d.control → .dependencies v rest ∈ c.control) :
    FirstInv store runList env d where
  head R hR k m' hm' := by
    obtain ⟨m, hm, hc, -⟩ := hi k m' hm'
    rw [hc]
    exact hf.head R (hle.free hR) k m hm
  version k m' hm' hne := by
    obtain ⟨m, hm, -, hv⟩ := hi k m' hm'
    rw [hv] at hne ⊢
    exact hf.version k m hm hne
  frame R hR v rest hm := hf.frame R (hle.free hR) v rest (hcn v rest hm)

theorem FirstInv.preserved (hi : Inv store runList env c)
    (hf : FirstInv store runList env c) (h : Steps store ord c d) : FirstInv store runList env d := by
  have hle := hi.le h
  cases h with
  | runListDone =>
    exact hf.of_info_eq hle (fun k m hm => ⟨m, hm, rfl, rfl⟩) fun v rest => mem_cons_of_mem _
  | dependenciesDone =>
    exact hf.of_info_eq hle (fun k m hm => ⟨m, hm, rfl, rfl⟩) fun v rest => mem_cons_of_mem _
  | @runListVisit s s' n k names control o h =>
    refine hf.of_info_eq hle (fun k m => h.info_eq) fun v rest hm => mem_cons_of_mem _ ?_
    cases o <;> simpa using hm
  | selectNone ht h => exact hf.of_info_eq hle (fun k m => h.info_eq) fun v rest => mem_cons_of_mem _
  | @dependencyVisit s s' n v r c2 rest control o h =>
    obtain ⟨-, -, l, hl, hsb⟩ := hi.tasks _ mem_cons_self
    have hp : (r, c2) ∈ l := hsb _ mem_cons_self
    refine ⟨fun R hR k' m' hm' => ?_, fun k' m' hm' hne => ?_, fun R hR w rest' hm => ?_⟩
    · rcases h.info_cases hi.basic hm' with hm | ⟨rfl, t, m, rfl, hm, -, hc⟩
      · exact hf.head R (hle.free hR) k' m' hm
      · rw [hc]
        refine hf.visit_head hi mem_cons_self hl hp hm (hle.free hR) fun hr => ?_
        rw [← hc, ← constraintsOf_eq hm']
        exact hR k' hr
    · rcases h.info_cases hi.basic hm' with hm | ⟨rfl, t, m, -, hm, hv, -⟩
      · exact hf.version k' m' hm hne
      · rw [hv] at hne ⊢
        cases hr : s.info k' with
        | none => simp [hm, hr, DepMeta.new, Noun.new] at hne
        | some m₀ =>
          obtain rfl : m = m₀ := by rw [hm, hr]; rfl
          exact hf.version k' m hr hne
    · have hw : Task.dependencies w rest' ∈ Task.dependencies v rest :: control := by
        cases o <;> simpa using hm
      rcases mem_cons.mp hw with he | hw
      · obtain ⟨rfl, -⟩ := Task.dependencies.inj he
        exact hf.frame R (hle.free hR) w _ mem_cons_self
      · exact hf.frame R (hle.free hR) w rest' (mem_cons_of_mem _ hw)
  | @selectSome s s' n r cb v l task control ht h hd =>
    have hg := hi.basic.shelf_get r cb (taskOk_select ht (hi.tasks task (by simp)))
    refine ⟨fun R hR k' m' hm' => ?_, fun k' m' hm' hne => ?_, fun R hR w rest hm => ?_⟩
    · by_cases hk : k' = r
      · subst hk
        obtain ⟨m, hm, hc⟩ := h.constraint_eq hm'
        rw [← hc]
        exact hf.head R (hle.free hR) k' m hm
      · rw [h.other hk] at hm'
        exact hf.head R (hle.free hR) k' m' hm'
    · by_cases hk : k' = r
      · subst hk
        have hs := h.first hg (hf.head ∅ (free_empty s) k')
        cases h with
        | version hm hc hin =>
          obtain rfl := some.inj (hin.symm.trans hm')
          exact ⟨v, hs, rfl⟩
      · rw [h.other hk] at hm'
        exact hf.version k' m' hm' hne
    · rcases mem_cons.mp hm with he | hm
      · obtain ⟨rfl, -⟩ := Task.dependencies.inj he
        have hs := h.first hg (hf.head R (hle.free hR) r)
        cases h with
        | version _ hc => exact (choose_spec hg hc).2.symm ▸ hs
      · exact hf.frame R (hle.free hR) w rest (mem_cons_of_mem _ hm)

lemma firstInv_start (store : Store) (runList : List Text) (env : List (Text × Text)) :
    FirstInv store runList env (start runList env) := by
  have hi : ∀ k m, (startState runList env).info k = some m →
      (∀ R, First store runList env R k m.constraint.head?) ∧ m.version = [] := by
    intro k m hm
    rw [start_info, map_eq_some_iff] at hm
    obtain ⟨cbV, hl, rfl⟩ := hm
    obtain ⟨hmm, rfl⟩ := lastItem_name hl
    exact ⟨fun R => .item hmm, rfl⟩
  refine ⟨fun R _ k m hm => (hi k m hm).1 R, fun k m hm hne => absurd (hi k m hm).2 hne, ?_⟩
  intro R _ v rest hm
  simp [start] at hm

lemma firstInv_reaches (h : Reaches (step store ord) (start runList env) c) : FirstInv store runList env c := by
  induction h with
  | refl => exact firstInv_start store runList env
  | tail hc he ih => exact ih.preserved (inv_reaches hc) (steps_of_step he)

lemma FirstInv.notReplacing (hi : Inv store runList env c) (hf : FirstInv store runList env c)
    (hagree : Agree store runList env) : NotReplacing c := by
  intro p hp hne v hv
  obtain ⟨r, hg, hm⟩ := hi.selection_spec hp
  obtain ⟨w, ⟨cb, o, hg', ho, hc⟩, hw⟩ := hf.version r p.2 hm hne
  obtain rfl := some.inj (hg.symm.trans hg')
  rw [← hagree r p.1 _ o hg (hf.head ∅ (free_empty _) r p.2 hm) ho] at hc
  rw [Cookbook.choose_newest hc] at hv
  rw [hw, some.inj hv]

def Resolvable (store : Store) (runList : List Text) (env : List (Text × Text)) : Prop :=
  ∀ k o, First store runList env ∅ k o → ∃ V cb, store.get k = some cb ∧ cb.choose o = .ok (some V)

section

variable {deps : List (Text × CookbookVersion)} (ha : store.Accepted) (hagree : Agree store runList env)
  (h : Returned store ord runList env deps s n)

include ha hagree h

lemma Returned.chosen_of_first {R : Set Text} {o : Option Constraint} (ho : First store runList env R k o) :
    ∃ V cb, Chosen s k V ∧ store.get k = some cb ∧ cb.choose o = .ok (some V) := by
  have hf := firstInv_reaches h.reaches
  have hcl : ClosureInv runList ⟨s, n, []⟩ := closureInv_reaches ha
    (fun c hc => (firstInv_reaches hc).notReplacing (inv_reaches hc) hagree) h.reaches
  have hlf : ∀ R k o, First store runList env R k o → (∃ V, Chosen s k V) →
      ∃ V cb, Chosen s k V ∧ store.get k = some cb ∧ cb.choose o = .ok (some V) := by
    rintro R k o ho ⟨V, cb, m, hs, hm, hc⟩
    have hg := h.inv.basic.shelf_get k cb hs
    refine ⟨V, cb, ⟨cb, m, hs, hm, hc⟩, hg, ?_⟩
    rw [hagree k cb o _ hg (ho.anti (Set.empty_subset R)) (hf.head ∅ (free_empty s) k m hm), hc]
  have hst : ∀ {k r t : Text} {o : Option Constraint} {cb : Cookbook} {v : CookbookVersion} {l : JsonMap},
      store.get k = some cb → cb.choose o = .ok (some v) → v.depList = .ok l → (r, .str t) ∈ l →
      (∃ V cb, Chosen s k V ∧ store.get k = some cb ∧ cb.choose o = .ok (some V)) → ∃ V, Chosen s r V := by
    rintro k r t o cb v l hg hc hl ht ⟨V, cb', hV, hg', hc'⟩
    obtain rfl := some.inj (hg.symm.trans hg')
    obtain rfl := some.inj (ok.inj (hc.symm.trans hc'))
    obtain ⟨-, l', -, -, -, hl', hp⟩ := h.settled hV
    obtain rfl := ok.inj (hl.symm.trans hl')
    exact h.chosen_of_processed hcl (hp _ ht)
  induction ho with
  | item hmm => exact hlf ∅ _ _ (.item hmm) (h.item_chosen (mem_map_of_mem hmm))
  | dependency hk hg hc hl ht hx hR hr ih =>
    exact hlf _ _ _ (.dependency hk hg hc hl ht hx hR hr) (hst hg hc hl ht ih)
  | unreadable hk hg hc hl ht hx hr ih =>
    exact hlf _ _ _ (.unreadable hk hg hc hl ht hx hr) (hst hg hc hl ht ih)

lemma Returned.resolvable : Resolvable store runList env := by
  intro k o ho
  obtain ⟨V, cb, -, hg, hc⟩ := h.chosen_of_first ha hagree ho
  exact ⟨V, cb, hg, hc⟩

lemma Returned.mem_iff_selected (V : CookbookVersion) : (k, V) ∈ deps ↔ Selected store runList env ∅ k V := by
  rw [h.mem_iff]
  constructor
  · rintro ⟨cb, m, hs, hm, hc⟩
    exact ⟨cb, _, h.inv.basic.shelf_get k cb hs, (firstInv_reaches h.reaches).head ∅ (free_empty s) k m hm, hc⟩
  · rintro ⟨cb, o, hg, ho, hc⟩
    obtain ⟨V', cb', hV', hg', hc'⟩ := h.chosen_of_first ha hagree ho
    obtain rfl := some.inj (hg.symm.trans hg')
    obtain rfl := some.inj (ok.inj (hc.symm.trans hc'))
    exact hV'

end

lemma cookbookDeps_ok {l : List (Text × Cookbook)}
    (h : ∀ p ∈ l, ∃ m V, s.info p.1 = some m ∧ p.2.choose m.constraint.head? = .ok (some V)) :
    ∃ deps, cookbookDeps s l = .ok deps := by
  induction l with
  | nil => exact ⟨[], rfl⟩
  | cons q l ih =>
    obtain ⟨k, cb⟩ := q
    obtain ⟨m, V, hm, hc⟩ := h _ mem_cons_self
    obtain ⟨nd, hn, rfl⟩ := nodes_of_info hm
    obtain ⟨deps, hd⟩ := ih fun q' hq' => h q' (by simp [hq'])
    exact ⟨(V.cookbookName, V) :: deps, by
      simp only [cookbookDeps, hn, Cookbook.latestMultiConstraint_eq_choose, hc, hd]
      rfl⟩

section

variable (ha : store.Accepted) (hgood : store.WellFormed)
  (hres : Resolvable store runList env)

include ha hgood hres

lemma Resolvable.terminating (ord : MapOrder) : Terminating store ord runList env
    (fun c => Inv store runList env c ∧ FirstInv store runList env c) where
  accepted := ha
  inv _ hJ := hJ.1
  preserved _ _ hJ hs := ⟨hJ.1.preserved hs, hJ.2.preserved hJ.1 hs⟩
  choice c hJ p hp := by
    obtain ⟨r, hg, hm⟩ := hJ.1.selection_spec hp
    obtain ⟨V, cb, hg', hc⟩ := hres r _ (hJ.2.head ∅ (free_empty _) r p.2 hm)
    obtain rfl := some.inj (hg.symm.trans hg')
    exact ⟨_, hc⟩
  acyclic c hJ k hk := by
    obtain ⟨r, ⟨cb, v, l, t, hg, hc, hl, ht, hb⟩, -⟩ := Relation.TransGen.head'_iff.mp hk
    have hmm := mem_depPairs (Store.get_mem hg).1 (Cookbook.choose_mem hc) hl ht
    exact hb (hgood _ (mem_depTexts hmm))

omit ha hgood in
lemma Resolvable.not_notFound (hi : Inv store runList env c) (hf : FirstInv store runList env c) {m : DepMeta}
    (hm : c.state.info k = some m) : m.notFound = false := by
  obtain ⟨V, cb, hg, -⟩ := hres k _ (hf.head ∅ (free_empty _) k m hm)
  by_contra hn
  simp [hi.basic.notFound_get k m hm (by simpa using hn)] at hg

omit hgood in
lemma Resolvable.version_ne_nil (hi : Inv store runList env ⟨s, n, []⟩)
    (hf : FirstInv store runList env ⟨s, n, []⟩) {cb : Cookbook} {m : DepMeta} (hs : s.onShelf k = some cb)
    (hm : s.info k = some m) : m.version ≠ [] ∧ ∃ V, cb.choose m.constraint.head? = .ok (some V) := by
  have hg := hi.basic.shelf_get k cb hs
  obtain ⟨V, cb', hg', hc⟩ := hres k _ (hf.head ∅ (free_empty _) k m hm)
  obtain rfl := some.inj (hg.symm.trans hg')
  refine ⟨?_, V, hc⟩
  rcases hi.settled k cb m hs hm Returned.not_selecting with ⟨-, hc'⟩ | ⟨-, v, l, hc', hv, -⟩
  · simp [hc] at hc'
  · rw [hv]
    exact Cookbooks.version_ne_nil ha hg (Cookbook.choose_mem hc')

theorem Resolvable.returns (ord : MapOrder) : ∃ n deps, dependsCookbooks store ord runList env n = some (.ok deps) := by
  have T := hres.terminating ha hgood ord
  obtain ⟨⟨s, n, control⟩, hd, ⟨hi, hf⟩, hcn⟩ :=
    T.runList_done ⟨inv_start store runList env, firstInv_start store runList env⟩
  subst hcn
  obtain ⟨m, seen, -, hm⟩ := dependsCookbooks_of_reaches hd
  have hsh : ∀ head, ∀ dep ∈ nounDeps (rootDeps ord runList env) s head,
      ∃ m, s.info dep.target = some m ∧ (s.onShelf dep.target).isSome := by
    intro head dep hde
    have hmm : some dep.target ∈ nounEdges (rootDeps ord runList env) s head := mem_map_of_mem hde
    have hcs : ∃ m, s.info dep.target = some m ∧ ((s.onShelf dep.target).isSome ∨ m.notFound = true) := by
      cases head with
      | some w => exact hi.basic.targets_ok w _ (mem_nounEdges.mp hmm)
      | none =>
        rcases hi.items _ (mem_rootDeps.mp hmm) with ⟨names, hn, -⟩ | hs | ⟨m, hm, hn⟩
        · simp at hn
        · obtain ⟨cb, hcb⟩ := isSome_iff_exists.mp hs
          obtain ⟨m, hm, -⟩ := hi.basic.shelf_info _ cb hcb
          exact ⟨m, hm, Or.inl hs⟩
        · exact ⟨m, hm, Or.inr hn⟩
    obtain ⟨m, hm, hs | hn⟩ := hcs
    · exact ⟨m, hm, hs⟩
    · simp [hres.not_notFound hi hf hm] at hn
  have hv : violations store (rootDeps ord runList env) s seen = .ok [] := by
    refine violations_eq_nil_iff.mpr fun head _ => violationsOf_eq_nil_iff.mpr fun dep hde => ?_
    obtain ⟨m, hm, hs⟩ := hsh head dep hde
    obtain ⟨cb, hcb⟩ := isSome_iff_exists.mp hs
    exact satisfied_eq_none_iff.mpr
      ⟨m, hm, hres.not_notFound hi hf hm, (hres.version_ne_nil ha hi hf hcb hm).1⟩
  have hdp : ∃ deps, cookbookDeps s (ord.shelf s.cbShelf) = .ok deps := by
    refine cookbookDeps_ok fun q hq => ?_
    have hs := (lookup_eq_some_iff hi.basic.shelf_nodup q.1 q.2).mpr ((ord.shelf_perm _).mem_iff.mp hq)
    obtain ⟨m, hm, -⟩ := hi.basic.shelf_info q.1 q.2 hs
    obtain ⟨-, V, hc⟩ := hres.version_ne_nil ha hi hf hs hm
    exact ⟨m, V, hm, hc⟩
  obtain ⟨deps, hdp⟩ := hdp
  exact ⟨m, deps, by rw [hm, outcome, hv]; exact congrArg some hdp⟩

end

lemma lookup_perm (h : env.Perm env') (hn : (env.map Prod.fst).Nodup) (k : Text) : env.lookup k = env'.lookup k := by
  have hn' : (env'.map Prod.fst).Nodup := (h.map Prod.fst).nodup_iff.mp hn
  have hp := h.filter (fun e => decide (e.1 = k))
  rw [filter_eq_lookup hn, filter_eq_lookup hn'] at hp
  cases hl : env.lookup k <;> cases hl' : env'.lookup k <;> simp_all

lemma startConstraint_perm (h : env.Perm env') (hn : (env.map Prod.fst).Nodup)
    (k cbV : Text) : startConstraint env k cbV = startConstraint env' k cbV := by
  have hn' : (env'.map Prod.fst).Nodup := (h.map Prod.fst).nodup_iff.mp hn
  rw [startConstraint, startConstraint, envConstraint, envConstraint, filter_eq_lookup hn, filter_eq_lookup hn',
    lookup_perm h hn]

lemma First.perm {runList' : List Text} (hr : runList.Perm runList')
    (he : env.Perm env') (hn : (env.map Prod.fst).Nodup)
    (h : First store runList env R k o) : First store runList' env' R k o := by
  have hs := startConstraint_perm he hn
  have hun : ∀ r, Unconstrained runList env r → Unconstrained runList' env' r := by
    intro r hu hm
    obtain ⟨cbV, hcv, hnm, hem⟩ := hu (((hr.map fun cbV => (parseItem cbV).1).mem_iff).mpr hm)
    exact ⟨cbV, hr.mem_iff.mp hcv, hnm, hs _ _ ▸ hem⟩
  induction h with
  | item hm =>
    rw [hs]
    exact .item (hr.mem_iff.mp hm)
  | dependency hk hg hc hl ht hx hR hu ih => exact .dependency ih hg hc hl ht hx hR (hun _ hu)
  | unreadable hk hg hc hl ht hx hu ih => exact .unreadable ih hg hc hl ht hx (hun _ hu)

def atLeastOne : Constraint := ⟨.greaterThanEqual, ⟨[], [], [1, 0, 0], 3⟩, ">= 1.0.0"⟩

lemma constraints_atLeastOne : constraints ">= 1.0.0" = [atLeastOne] := by decide

lemma first_looseA {R : Set Text} {o : Option Constraint} (h : First conflictStore ["x", "a"] [] R k o) :
    (k = "x" ∧ o = none) ∨ (k = "a" ∧ (o = none ∨ o = some atLeastOne)) := by
  have hs : ∀ {k r t : Text} {o : Option Constraint} {cb : Cookbook} {v : CookbookVersion} {l : JsonMap},
      ((k = "x" ∧ o = none) ∨ (k = "a" ∧ (o = none ∨ o = some atLeastOne))) →
      conflictStore.get k = some cb → cb.choose o = .ok (some v) → v.depList = .ok l → (r, .str t) ∈ l →
      r = "a" ∧ t = ">= 1.0.0" := by
    rintro k r t o cb v l (⟨rfl, rfl⟩ | ⟨rfl, ho⟩) hg hc hl ht
    · obtain rfl : loose = cb := some.inj hg
      obtain rfl := some.inj (ok.inj hc)
      obtain rfl := ok.inj hl
      obtain ⟨rfl, hj⟩ := Prod.mk.inj (mem_singleton.mp ht)
      exact ⟨rfl, Json.str.inj hj⟩
    · obtain rfl : pairA = cb := some.inj hg
      have hv : v = .plain "a" "2.0.0" [] := by
        rcases ho with rfl | rfl <;> exact (some.inj (ok.inj hc)).symm
      obtain rfl := ok.inj (hv ▸ hl : (CookbookVersion.plain _ _ []).depList = .ok l)
      simp at ht
  induction h with
  | item h =>
    simp only [mem_cons, not_mem_nil, or_false] at h
    rcases h with rfl | rfl
    · exact Or.inl ⟨rfl, rfl⟩
    · exact Or.inr ⟨rfl, Or.inl rfl⟩
  | dependency _ hg hc hl ht hx _ _ ih =>
    obtain ⟨rfl, rfl⟩ := hs ih hg hc hl ht
    rw [constraints_atLeastOne] at hx
    exact Or.inr ⟨rfl, Or.inr (congrArg some (List.cons.inj hx).1.symm)⟩
  | unreadable _ hg hc hl ht hx _ ih =>
    obtain ⟨rfl, rfl⟩ := hs ih hg hc hl ht
    exact absurd (constraints_atLeastOne.symm.trans hx) (by simp)

lemma agree_looseA : Agree conflictStore ["x", "a"] [] := by
  intro k cb o o' hg ho ho'
  rcases first_looseA ho with ⟨rfl, rfl⟩ | ⟨rfl, h⟩
  · rcases first_looseA ho' with ⟨-, rfl⟩ | ⟨hk, -⟩
    · rfl
    · exact absurd hk (by decide)
  · obtain rfl : pairA = cb := some.inj hg
    have hp : ∀ o, o = none ∨ o = some atLeastOne →
        pairA.choose o = .ok (some (.plain "a" "2.0.0" [])) := by
      rintro o (rfl | rfl) <;> rfl
    rcases first_looseA ho' with ⟨hk, -⟩ | ⟨-, h'⟩
    · exact absurd hk (by decide)
    · rw [hp o h, hp o' h']

end Goiardi.Cookbooks
