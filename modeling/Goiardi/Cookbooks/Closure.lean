import Goiardi.Cookbooks.Soundness

/-! When the cookbooks returned are exactly the dependency closure of the run list. -/

namespace Goiardi.Cookbooks

open GVersion Validation Machine List Option

variable {store : Store} {ord : MapOrder} {runList : List Text} {env : List (Text × Text)} {k : Text}
  {deps : List (Text × CookbookVersion)} {s s' : State} {n : ℕ} {c d : Config}

inductive Required (runList : List Text) (deps : List (Text × CookbookVersion)) : Text → Prop
  | item {k : Text} (h : k ∈ runListRef runList) : Required runList deps k
  | dependency {w r : Text} {W : CookbookVersion} (hw : Required runList deps w) (hW : (w, W) ∈ deps)
      (hr : r ∈ W.depNames) : Required runList deps r

lemma Required.subset {S : List Text} (hi : ∀ k ∈ runListRef runList, k ∈ S)
    (hd : ∀ p ∈ deps, p.1 ∈ S → ∀ r ∈ p.2.depNames, r ∈ S) (h : Required runList deps k) : k ∈ S := by
  induction h with
  | item h => exact hi _ h
  | dependency _ hW hr ih => exact hd _ hW ih _ hr

def NotReplacing (c : Config) : Prop :=
  ∀ p ∈ c.selection, p.2.version ≠ [] → ∀ v ∈ p.1.newest p.2.constraint, v.version = p.2.version

instance (c : Config) : Decidable (NotReplacing c) :=
  inferInstanceAs (Decidable (∀ p ∈ c.selection, p.2.version ≠ [] →
    ∀ v ∈ p.1.newest p.2.constraint, v.version = p.2.version))

inductive Linked (runList : List Text) (s : State) : Text → Prop
  | item {k : Text} (h : k ∈ runListRef runList) : Linked runList s k
  | edge {w k : Text} (hw : Linked runList s w) (h : k ∈ s.targets w) : Linked runList s k

lemma Linked.mono (ht : ∀ w t, t ∈ s.targets w → t ∈ s'.targets w) (h : Linked runList s k) : Linked runList s' k := by
  induction h with
  | item h => exact .item h
  | edge _ h ih => exact .edge ih (ht _ _ h)

def Current (s : State) (v : CookbookVersion) : Prop :=
  ∃ m cb, s.info v.cookbookName = some m ∧ s.onShelf v.cookbookName = some cb ∧ v ∈ cb.versions ∧
    m.version = v.version

structure ClosureInv (runList : List Text) (c : Config) : Prop where
  linked : ∀ k, (c.state.info k).isSome → Linked runList c.state k
  edge : ∀ w t, t ∈ c.state.targets w → ∃ v, v.cookbookName = w ∧ Current c.state v ∧ t ∈ v.depNames
  frame : ∀ v rest, .dependencies v rest ∈ c.control → Current c.state v

variable {cb : Cookbook} {v : CookbookVersion} {r : Text} {k' : Text} {m : DepMeta} {o : Option CookbookVersion}
  {w t : Text}

lemma version_ne_nil (ha : store.Accepted) (hg : store.get k = some cb) (hv : v ∈ cb.versions) : v.version ≠ [] :=
  AcceptedVersion.ne_nil (ha cb (Store.get_mem hg).1 v hv).version

lemma Visit.version_eq {c2 : Json} {o : Option Cookbook} (h : Visit store s k r c2 s' o) (hm : s.info k' = some m) :
    ∃ m', s'.info k' = some m' ∧ m'.version = m.version := by
  by_cases hk : k' = r
  · subst hk
    cases h with
    | flagged => exact ⟨m, hm, rfl⟩
    | notFound _ hm₀ _ _ _ _ hi => exact ⟨_, hi, by rw [hm₀, hm]; rfl⟩
    | present _ hm₀ _ _ _ _ _ hi => exact ⟨_, hi, by rw [hm₀, hm]; rfl⟩
    | placed _ hm₀ _ _ _ _ hi => exact ⟨_, hi, by rw [hm₀, hm]; rfl⟩
  · refine ⟨m, ?_, rfl⟩
    cases h with
    | flagged => exact hm
    | notFound _ _ _ _ _ _ _ ho => rw [ho k' hk, hm]
    | present _ _ _ _ _ _ _ _ ho => rw [ho k' hk, hm]
    | placed _ _ _ _ _ _ _ ho => rw [ho k' hk, hm]

lemma VisitItem.version_eq {o : Option Cookbook} (h : VisitItem store s k s' o)
    (hm : s.info k' = some m) : ∃ m', s'.info k' = some m' ∧ m'.version = m.version := by
  cases h with
  | skipped => exact ⟨m, hm, rfl⟩
  | placed => exact ⟨m, by rw [info_shelve, hm], rfl⟩
  | notFound hm₀ _ _ hi ho =>
    by_cases hk : k' = k
    · subst hk
      obtain rfl := some.inj (hm₀.symm.trans hm)
      exact ⟨_, hi, rfl⟩
    · exact ⟨m, by rw [ho k' hk, hm], rfl⟩

lemma Select.version_eq (h : Select s r cb s' o) (hm : s.info k = some m) (hv : m.version ≠ [])
    (hno : k = r → ∀ v ∈ cb.newest m.constraint, v.version = m.version) :
    ∃ m', s'.info k = some m' ∧ m'.version = m.version := by
  by_cases hk : k = r
  · subst hk
    cases h with
    | noVersion hm₀ _ hi =>
      obtain rfl := some.inj (hm₀.symm.trans hm)
      exact ⟨_, hi, rfl⟩
    | version hm₀ hc hi =>
      obtain rfl := some.inj (hm₀.symm.trans hm)
      exact ⟨_, hi, hno rfl _ (Cookbook.choose_newest hc)⟩
  · exact ⟨m, by rw [h.other hk, hm], rfl⟩

lemma Inv.notReplacing_select (hi : Inv store runList env c) (hno : NotReplacing c) (hr : Selecting c r) (hs : c.state.onShelf r = some cb) (hm : c.state.info r = some m)
    (hv : m.version ≠ []) : ∀ v ∈ cb.newest m.constraint, v.version = m.version :=
  hno _ (hi.selection_eq hr hs hm) hv

lemma Inv.step_current (ha : store.Accepted) (hi : Inv store runList env c) (hno : NotReplacing c)
    (h : Steps store ord c d) (hv : Current c.state v) : Current d.state v := by
  obtain ⟨m, cb, hm, hs, hmm, hvr⟩ := hv
  have hne : m.version ≠ [] := hvr ▸ version_ne_nil ha (hi.basic.shelf_get _ cb hs) hmm
  have hs' := (hi.le h).shelf _ cb hs
  suffices ∃ m', d.state.info v.cookbookName = some m' ∧ m'.version = m.version by
    obtain ⟨m', hm', hv'⟩ := this
    exact ⟨m', cb, hm', hs', hmm, hv'.trans hvr⟩
  cases h with
  | runListDone => exact ⟨m, hm, rfl⟩
  | dependenciesDone => exact ⟨m, hm, rfl⟩
  | runListVisit h => exact h.version_eq hm
  | dependencyVisit h => exact h.version_eq hm
  | @selectNone s s' n r cb₀ task control ht h =>
    refine h.version_eq hm hne ?_
    rintro rfl
    obtain rfl := some.inj (hs.symm.trans (taskOk_select ht (hi.tasks task (by simp))))
    exact hi.notReplacing_select hno (selecting_cons.mpr (selects_of_task ht)) hs hm hne
  | @selectSome s s' n r cb₀ w depList task control ht h hd =>
    refine h.version_eq hm hne ?_
    rintro rfl
    obtain rfl := some.inj (hs.symm.trans (taskOk_select ht (hi.tasks task (by simp))))
    exact hi.notReplacing_select hno (selecting_cons.mpr (selects_of_task ht)) hs hm hne

lemma Select.targets_subset (h : Select s r cb s' o)
    (hno : ∀ m ∈ s.info r, m.version ≠ [] → ∀ v ∈ cb.newest m.constraint, v.version = m.version)
    (w : Text) : s'.targets w = s.targets w := by
  cases h with
  | noVersion _ _ _ _ ht => exact ht w
  | @version m v hm hc _ _ ht hr =>
    by_cases hw : w = r
    · subst hw
      rcases hr with hr | ⟨hne, hv, -⟩
      · exact hr
      · exact absurd (hno m hm hne v (Cookbook.choose_newest hc)).symm hv
    · exact ht w hw

lemma Inv.step_targets (hi : Inv store runList env c) (hno : NotReplacing c) (h : Steps store ord c d)
    (hw : t ∈ c.state.targets w) : t ∈ d.state.targets w := by
  have hs : ∀ {s s' : State} {n : ℕ} {r : Text} {cb : Cookbook} {task : Task} {control : List Task}
      {o : Option CookbookVersion}, c = ⟨s, n, task :: control⟩ →
      (task = .selectRunList r cb ∨ task = .selectDependency r cb) → Select s r cb s' o →
      s'.targets w = s.targets w := by
    rintro s s' n r cb task control o rfl ht h
    refine h.targets_subset (fun m hm hne => ?_) w
    exact hi.notReplacing_select hno (selecting_cons.mpr (selects_of_task ht))
      (taskOk_select ht (hi.tasks task (by simp))) hm hne
  cases h with
  | runListDone => exact hw
  | dependenciesDone => exact hw
  | selectNone ht h => exact (hs rfl ht h).symm ▸ hw
  | selectSome ht h => exact (hs rfl ht h).symm ▸ hw
  | runListVisit h =>
    cases h with
    | skipped => exact hw
    | notFound _ _ _ _ _ ht => exact (ht w).symm ▸ hw
    | placed => simpa using hw
  | dependencyVisit h =>
    cases h with
    | flagged => exact hw
    | notFound _ _ _ _ _ _ _ _ ht => exact (ht w t).mpr (Or.inl hw)
    | present _ _ _ _ _ _ _ _ _ ht => exact (ht w t).mpr hw
    | placed _ _ _ _ _ _ _ _ ht => exact (ht w t).mpr (Or.inl hw)

lemma Select.info_isSome (h : Select s r cb s' o) (hk : (s'.info k).isSome) : (s.info k).isSome := by
  by_cases hkr : k = r
  · subst hkr
    cases h with
    | noVersion hm => simp [hm]
    | version hm => simp [hm]
  · rwa [h.other hkr] at hk

lemma Inv.step_info (hi : Inv store runList env c) (h : Steps store ord c d) (hk : (d.state.info k).isSome) :
    (c.state.info k).isSome ∨ ∃ w, (c.state.info w).isSome ∧ k ∈ d.state.targets w := by
  cases h with
  | runListDone => exact Or.inl hk
  | dependenciesDone => exact Or.inl hk
  | selectNone _ h => exact Or.inl (h.info_isSome hk)
  | selectSome _ h => exact Or.inl (h.info_isSome hk)
  | @runListVisit s s' n k₀ names control o h =>
    refine Or.inl ?_
    by_cases hkk : k = k₀
    · subst hkk
      exact hi.tasks _ mem_cons_self k mem_cons_self
    · cases h with
      | skipped => exact hk
      | notFound _ _ _ _ ho => exact ho k hkk ▸ hk
      | placed => exact info_shelve s k₀ k _ ▸ hk
  | @dependencyVisit s s' n v r c2 rest control o h =>
    have hv : (s.info v.cookbookName).isSome := (hi.tasks _ mem_cons_self).1
    by_cases hkr : k = r
    · subst hkr
      cases h with
      | flagged => exact Or.inl hk
      | notFound _ _ _ _ _ _ _ _ ht => exact Or.inr ⟨_, hv, (ht _ _).mpr (Or.inr ⟨rfl, rfl⟩)⟩
      | present _ _ _ _ hs =>
        obtain ⟨m, hm, -⟩ := hi.basic.shelf_info k _ hs
        exact Or.inl (by simp [hm])
      | placed _ _ _ _ _ _ _ _ ht => exact Or.inr ⟨_, hv, (ht _ _).mpr (Or.inr ⟨rfl, rfl⟩)⟩
    · refine Or.inl ?_
      cases h with
      | flagged => exact hk
      | notFound _ _ _ _ _ _ _ ho => exact ho k hkr ▸ hk
      | present _ _ _ _ _ _ _ _ ho => exact ho k hkr ▸ hk
      | placed _ _ _ _ _ _ _ ho => exact ho k hkr ▸ hk

lemma Inv.step_frame (hi : Inv store runList env c) (h : Steps store ord c d) {rest : JsonMap}
    (hf : .dependencies v rest ∈ d.control) : (∃ rest', .dependencies v rest' ∈ c.control) ∨ Current d.state v := by
  cases h with
  | runListDone => exact Or.inl ⟨rest, by simpa using hf⟩
  | dependenciesDone => exact Or.inl ⟨rest, mem_cons_of_mem _ hf⟩
  | selectNone => exact Or.inl ⟨rest, mem_cons_of_mem _ hf⟩
  | @runListVisit s s' n k₀ names control o h =>
    refine Or.inl ⟨rest, ?_⟩
    cases o <;> simpa using hf
  | @dependencyVisit s s' n w r c2 rest' control o h =>
    have hmm : Task.dependencies v rest ∈ Task.dependencies w rest' :: control := by
      cases o <;> simpa using hf
    rcases mem_cons.mp hmm with he | hmm
    · obtain ⟨rfl, -⟩ := Task.dependencies.inj he
      exact Or.inl ⟨_, mem_cons_self⟩
    · exact Or.inl ⟨rest, mem_cons_of_mem _ hmm⟩
  | @selectSome s s' n r cb w depList task control ht h hd =>
    rcases mem_cons.mp hf with he | hf
    · obtain ⟨rfl, -⟩ := Task.dependencies.inj he
      have hs := taskOk_select ht (hi.tasks task (by simp))
      cases h with
      | version hm hc hin ho htr hr hsh =>
        obtain ⟨hv, hn⟩ := choose_spec (hi.basic.shelf_get r cb hs) hc
        refine Or.inr ⟨_, cb, hn ▸ hin, ?_, hv, rfl⟩
        rw [hn]
        exact (onShelf_of_cbShelf hsh r).trans hs
    · exact Or.inl ⟨rest, mem_cons_of_mem _ hf⟩

lemma ClosureInv.preserved (ha : store.Accepted) (hi : Inv store runList env c) (hno : NotReplacing c)
    (hc : ClosureInv runList c) (h : Steps store ord c d) : ClosureInv runList d := by
  have hg : ∀ w t, t ∈ c.state.targets w → t ∈ d.state.targets w := fun w t => hi.step_targets hno h
  have hcr : ∀ v, Current c.state v → Current d.state v := fun v => hi.step_current ha hno h
  refine ⟨fun k hk => ?_, fun w t ht => ?_, fun v rest hf => ?_⟩
  · rcases hi.step_info h hk with hk | ⟨w, hw, ht⟩
    · exact (hc.linked k hk).mono hg
    · exact .edge ((hc.linked w hw).mono hg) ht
  · rcases h.mem_targets ht with ht | ⟨v, c2, rest, control, he, rfl⟩
    · obtain ⟨v, hv, hv', hd⟩ := hc.edge w t ht
      exact ⟨v, hv, hcr v hv', hd⟩
    · have hm : .dependencies v ((t, c2) :: rest) ∈ c.control := by simp [he]
      obtain ⟨-, -, l, hl, hs⟩ := hi.tasks _ hm
      exact ⟨v, rfl, hcr v (hc.frame v _ hm),
        CookbookVersion.mem_depNames.mpr ⟨l, c2, hl, hs _ mem_cons_self⟩⟩
  · rcases hi.step_frame h hf with ⟨rest', hf⟩ | hv
    · exact hcr v (hc.frame v rest' hf)
    · exact hv

lemma closureInv_start (runList : List Text) (env : List (Text × Text)) : ClosureInv runList (start runList env) where
  linked k hk := by
    refine .item (lastItem_isSome.mp ?_)
    simpa [start, start_info] using hk
  edge w t ht := by simp [start, start_targets] at ht
  frame v rest hf := by simp [start] at hf

lemma closureInv_reaches (ha : store.Accepted)
    (hno : ∀ c, Reaches (step store ord) (start runList env) c → NotReplacing c)
    (h : Reaches (step store ord) (start runList env) c) : ClosureInv runList c := by
  induction h with
  | refl => exact closureInv_start runList env
  | tail hc he ih => exact ih.preserved ha (inv_reaches hc) (hno _ hc) (steps_of_step he)

lemma mem_rootDeps : some k ∈ nounEdges (rootDeps ord runList env) s none ↔ k ∈ runListRef runList := by
  simp only [nounEdges, nounDeps, rootDeps, List.map_map, Function.comp_def, List.mem_map, Option.some.injEq,
    exists_eq_right]
  rw [(ord.nodes_perm _).mem_iff, List.mem_dedup]

lemma mem_nounEdges {rds : List Dependency} : some t ∈ nounEdges rds s (some w) ↔ t ∈ s.targets w := by
  cases h : s.nodes w <;> simp [nounEdges, nounDeps, State.targets, h]

lemma Linked.reachable (ord : MapOrder) (env : List (Text × Text)) (h : Linked runList s k) :
    ∃ head, DepthFirst.Reachable (nounEdges (rootDeps ord runList env) s) none head ∧
      some k ∈ nounEdges (rootDeps ord runList env) s head := by
  induction h with
  | item h => exact ⟨none, Relation.ReflTransGen.refl, mem_rootDeps.mpr h⟩
  | @edge w k _ h ih =>
    obtain ⟨head, hr, he⟩ := ih
    exact ⟨some w, hr.tail he, mem_nounEdges.mpr h⟩

lemma Returned.item_chosen (h : Returned store ord runList env deps s n) (hk : k ∈ runListRef runList) :
    ∃ V, Chosen s k V := by
  rcases h.inv.items k hk with ⟨names, hm, -⟩ | hs | ⟨m, hm, hn⟩
  · simp at hm
  · obtain ⟨cb, hcb⟩ := isSome_iff_exists.mp hs
    exact h.chosen k cb hcb
  · obtain ⟨m', hm', hn', -⟩ := h.satisfied none Relation.ReflTransGen.refl k (mem_rootDeps.mpr hk)
    obtain rfl := some.inj (hm.symm.trans hm')
    simp [hn] at hn'

lemma Returned.current_chosen (h : Returned store ord runList env deps s n)
    (hv : Current s v) : Chosen s v.cookbookName v := by
  obtain ⟨m, cb, hm, hs, hmm, hvr⟩ := hv
  obtain ⟨V, hV⟩ := h.chosen _ cb hs
  obtain ⟨m', -, hm', -, hv', -⟩ := h.settled hV
  obtain rfl := some.inj (hm.symm.trans hm')
  obtain ⟨cb', m', hs', hm'', hc⟩ := id hV
  obtain rfl := some.inj (hs.symm.trans hs')
  have he := inj_on_of_nodup_map cb.versions_nodup hmm (Cookbook.choose_mem hc) (hvr.symm.trans hv')
  rwa [← he] at hV

lemma Returned.required_of_linked (h : Returned store ord runList env deps s n)
    (hc : ClosureInv runList ⟨s, n, []⟩) (hk : Linked runList s k) : Required runList deps k := by
  induction hk with
  | item h => exact .item h
  | @edge w t _ ht ih =>
    obtain ⟨v, rfl, hv, hd⟩ := hc.edge w t ht
    exact .dependency ih ((h.mem_iff _ v).mpr (h.current_chosen hv)) hd

lemma Returned.chosen_of_processed (h : Returned store ord runList env deps s n)
    (hc : ClosureInv runList ⟨s, n, []⟩) {p : Text × Json} (hp : Processed s p) : ∃ V, Chosen s p.1 V := by
  obtain ⟨m, hm, hcs⟩ := hp
  cases hs : s.onShelf p.1 with
  | some cb => exact h.chosen _ cb hs
  | none =>
    have hv := (h.inv.basic.offShelf _ m hm hs).2
    rcases hcs with (hn | hn) | ⟨hsm, -⟩
    · simp [hv] at hn
    · -- A missing cookbook is a violation at the end of an edge that the check reaches.
      have hl := hc.linked p.1 (by simp [show s.info p.1 = some m from hm])
      obtain ⟨head, hr, he⟩ := hl.reachable ord env
      obtain ⟨m', hm', hn', -⟩ := h.satisfied head hr p.1 he
      obtain rfl := some.inj (hm.symm.trans hm')
      simp [hn] at hn'
    · simp [hs] at hsm

def replaced : Cookbook where
  name := "a"
  name_valid := validateName_a
  versions := [.plain "a" "1.0.0" [], .plain "a" "2.0.0" [("p", ">= 1.0.0")]]
  cookbookName_eq := by decide
  versions_nodup := by decide

def leftover : Cookbook where
  name := "p"
  name_valid := by decide
  versions := [.plain "p" "1.0.0" []]
  cookbookName_eq := by decide
  versions_nodup := by decide

def replacing : Cookbook where
  name := "b"
  name_valid := validateName_b
  versions := [.plain "b" "1.0.0" [("a", "= 1.0.0")]]
  cookbookName_eq := by decide
  versions_nodup := by decide

def replaceStore : Store where
  cookbooks := [replaced, leftover, replacing]
  names_nodup := by decide

lemma replaceStore_accepted : replaceStore.Accepted := by
  refine Store.accepted_of_versions fun v hv => ?_
  fin_cases hv <;> exact ⟨⟨_, rfl⟩, rfl⟩

def replacedDeps : List (Text × CookbookVersion) :=
  [("a", .plain "a" "1.0.0" []), ("p", .plain "p" "1.0.0" []),
    ("b", .plain "b" "1.0.0" [("a", "= 1.0.0")])]

def reversedDeps : List (Text × CookbookVersion) :=
  [("b", .plain "b" "1.0.0" [("a", "= 1.0.0")]),
    ("a", .plain "a" "1.0.0" [])]

end Goiardi.Cookbooks
