import Goiardi.Cookbooks.Depends

/-! What each step of the walk does to the nodes, to the edges and to the shelf. -/

namespace Goiardi.Cookbooks

open GVersion Validation Machine List Except State DepMeta

def State.info (s : State) (k : Text) : Option DepMeta := (s.nodes k).map Noun.info

def State.targets (s : State) (k : Text) : List Text :=
  ((s.nodes k).map fun n => n.deps.map Dependency.target).getD []

def State.onShelf (s : State) (k : Text) : Option Cookbook := s.cbShelf.lookup k

def DepMeta.new : DepMeta := (Noun.new []).info

def DepMeta.addConstraint (c : Text) (m : DepMeta) : DepMeta :=
  { m with constraint := appendConstraint m.constraint c }

def DepMeta.Flagged (m : DepMeta) : Prop := m.noVersion = true ∨ m.notFound = true

lemma info_modify_self (s : State) (k : Text) (f : Noun → Noun) :
    (s.modify k f).info k = (s.nodes k).map fun n => (f n).info := by
  simp [State.info, State.modify, Function.comp_def]

lemma info_modify_ne (s : State) {k k' : Text} (f : Noun → Noun) (h : k' ≠ k) : (s.modify k f).info k' = s.info k' := by
  simp [State.info, State.modify, Function.update_of_ne h]

variable {f : Noun → Noun} {n : Noun} {cbv : CookbookVersion} {depCb : Cookbook} {cb : Cookbook} {m : DepMeta}
  {o : Option CookbookVersion} {d : Config} {w t : Text}

lemma info_modify_of_keeps (s : State) (k k' : Text) (hf : ∀ n, (f n).info = n.info) :
    (s.modify k f).info k' = s.info k' := by
  by_cases h : k' = k
  · subst h
    rw [info_modify_self]
    simp only [hf, info]
  · exact info_modify_ne s f h

lemma targets_modify_ne (s : State) {k k' : Text} (f : Noun → Noun) (h : k' ≠ k) :
    (s.modify k f).targets k' = s.targets k' := by
  simp [State.targets, State.modify, Function.update_of_ne h]

lemma targets_modify_of_keeps (s : State) (k k' : Text) (hf : ∀ n, (f n).deps = n.deps) :
    (s.modify k f).targets k' = s.targets k' := by
  by_cases h : k' = k
  · subst h
    simp [State.targets, State.modify, hf, Function.comp_def]
  · exact targets_modify_ne s f h

@[simp] lemma info_shelve (s : State) (k k' : Text) (c : Cookbook) : (s.shelve k c).info k' = s.info k' := by
  unfold shelve
  split <;> rfl

@[simp] lemma targets_shelve (s : State) (k k' : Text) (c : Cookbook) : (s.shelve k c).targets k' = s.targets k' := by
  unfold shelve
  split <;> rfl

lemma onShelf_shelve_self (s : State) (k : Text) (c : Cookbook) :
    (s.shelve k c).onShelf k = some ((s.onShelf k).getD c) := by
  unfold shelve onShelf
  cases h : s.cbShelf.lookup k with
  | none => simp [lookup_append, h]
  | some d => simp [h]

lemma onShelf_shelve_ne (s : State) {k k' : Text} (c : Cookbook) (h : k' ≠ k) :
    (s.shelve k c).onShelf k' = s.onShelf k' := by
  have hk : (k' == k) = false := by simpa using h
  unfold shelve onShelf
  split
  · rfl
  · simp [lookup_append, lookup_cons, hk]

lemma lookup_eq_some_iff {l : List (Text × Cookbook)} (h : (l.map Prod.fst).Nodup) (k : Text) (c : Cookbook) :
    l.lookup k = some c ↔ (k, c) ∈ l := by
  induction l with
  | nil => simp
  | cons p l ih =>
    obtain ⟨k', c'⟩ := p
    rw [map_cons, nodup_cons] at h
    by_cases hk : k = k'
    · subst hk
      have hn : (k, c) ∉ l := fun hm => h.1 (mem_map.mpr ⟨_, hm, rfl⟩)
      simp [hn, eq_comm]
    · have hb : (k == k') = false := by simpa using hk
      simp [lookup_cons, hb, ih h.2, hk]

lemma nodup_shelve {s : State} (h : (s.cbShelf.map Prod.fst).Nodup) (k : Text) (c : Cookbook) :
    ((s.shelve k c).cbShelf.map Prod.fst).Nodup := by
  unfold shelve
  split
  · exact h
  next hk =>
    simp only [map_append, map_cons, map_nil]
    refine nodup_append.mpr ⟨h, by simp, ?_⟩
    rintro a ha b hb rfl
    obtain rfl : a = k := by simpa using hb
    obtain ⟨⟨a, d⟩, hm, rfl⟩ := mem_map.mp ha
    exact hk (by simp [(lookup_eq_some_iff h a d).mpr hm])

lemma info_ensureNode_self (s : State) (k : Text) : (s.ensureNode k).info k = some ((s.info k).getD new) := by
  unfold ensureNode info
  cases h : s.nodes k with
  | none => simp [new]
  | some n => simp [h]

lemma info_ensureNode_ne (s : State) {k k' : Text} (h : k' ≠ k) : (s.ensureNode k).info k' = s.info k' := by
  unfold ensureNode info
  split
  · rfl
  · simp [Function.update_of_ne h]

@[simp] lemma targets_ensureNode (s : State) (k k' : Text) : (s.ensureNode k).targets k' = s.targets k' := by
  by_cases h : k' = k
  · subst h
    unfold ensureNode targets
    cases hn : s.nodes k' with
    | none => simp [Noun.new]
    | some n => simp [hn]
  · unfold ensureNode targets
    split
    · rfl
    · simp [Function.update_of_ne h]

@[simp] lemma onShelf_ensureNode (s : State) (k k' : Text) : (s.ensureNode k).onShelf k' = s.onShelf k' := by
  unfold ensureNode
  split <;> rfl

lemma mem_putDependency {dep : Dependency} {ds : List Dependency} {t : Text} :
    t ∈ (putDependency dep ds).map Dependency.target ↔ t ∈ ds.map Dependency.target ∨ t = dep.target := by
  induction ds with
  | nil => simp [putDependency]
  | cons d ds ih =>
    by_cases h : d.target = dep.target
    · simp only [putDependency, h, if_true, map_cons, mem_cons]
      tauto
    · simp only [putDependency, h, if_false, map_cons, mem_cons, ih]
      tauto

lemma mem_targets_put {s : State} {k k' r c t : Text} (hk : (s.info k).isSome) :
    t ∈ (s.modify k (Noun.putDependency r c)).targets k' ↔ t ∈ s.targets k' ∨ (k' = k ∧ t = r) := by
  by_cases h : k' = k
  · subst h
    cases hn : s.nodes k' with
    | none => simp [State.info, hn] at hk
    | some n => simp [State.targets, State.modify, hn, Noun.putDependency, mem_putDependency]
  · rw [targets_modify_ne s _ h]
    simp [h]

inductive Visit (store : Store) (s : State) (k r : Text) (c2 : Json) : State → Option Cookbook → Prop
  | flagged {m : DepMeta} (hm : s.info r = some m) (hf : m.Flagged) : Visit store s k r c2 s none
  | notFound {s' : State} {c : Text} {m : DepMeta} (hc : c2 = .str c) (hm : m = (s.info r).getD DepMeta.new)
      (hf : ¬ m.Flagged) (hk : (s.info k).isSome ∨ k = r) (hs : s.onShelf r = none) (hg : store.get r = none)
      (hinfo : s'.info r = some { m.addConstraint c with notFound := true })
      (hother : ∀ k', k' ≠ r → s'.info k' = s.info k')
      (htargets : ∀ k' t, t ∈ s'.targets k' ↔ t ∈ s.targets k' ∨ (k' = k ∧ t = r))
      (hshelf : s'.cbShelf = s.cbShelf) : Visit store s k r c2 s' none
  | present {s' : State} {c : Text} {m : DepMeta} {cb : Cookbook} (hc : c2 = .str c)
      (hm : m = (s.info r).getD DepMeta.new) (hf : ¬ m.Flagged) (hk : (s.info k).isSome ∨ k = r)
      (hs : s.onShelf r = some cb) (ht : r ∈ s.targets k) (hp : constraintPresent m.constraint c = true)
      (hinfo : s'.info r = some m) (hother : ∀ k', k' ≠ r → s'.info k' = s.info k')
      (htargets : ∀ k' t, t ∈ s'.targets k' ↔ t ∈ s.targets k') (hshelf : s'.cbShelf = s.cbShelf) :
      Visit store s k r c2 s' none
  | placed {s' : State} {c : Text} {m : DepMeta} {cb : Cookbook} (hc : c2 = .str c)
      (hm : m = (s.info r).getD DepMeta.new) (hf : ¬ m.Flagged) (hk : (s.info k).isSome ∨ k = r)
      (hs : s.onShelf r = some cb ∨ (s.onShelf r = none ∧ store.get r = some cb))
      (hp : s.onShelf r = some cb → ¬ (r ∈ s.targets k ∧ constraintPresent m.constraint c = true))
      (hinfo : s'.info r = some (m.addConstraint c)) (hother : ∀ k', k' ≠ r → s'.info k' = s.info k')
      (htargets : ∀ k' t, t ∈ s'.targets k' ↔ t ∈ s.targets k' ∨ (k' = k ∧ t = r))
      (hshelf : s'.cbShelf = (s.shelve r cb).cbShelf) : Visit store s k r c2 s' (some cb)

variable {store : Store} {ord : MapOrder} {s s' : State} {k r c : Text}

def State.edged (s : State) (k r c : Text) : State :=
  (s.ensureNode r).modify k (Noun.putDependency r c)

lemma info_edged_self : (s.edged k r c).info r = some ((s.info r).getD new) := by
  rw [edged, info_modify_of_keeps (f := Noun.putDependency r c) _ _ _ (fun _ => rfl), info_ensureNode_self]

lemma info_edged_ne {k' : Text} (h : k' ≠ r) : (s.edged k r c).info k' = s.info k' := by
  rw [edged, info_modify_of_keeps (f := Noun.putDependency r c) _ _ _ (fun _ => rfl), info_ensureNode_ne s h]

lemma mem_targets_edged (hk : ((s.ensureNode r).info k).isSome) (k' t : Text) :
    t ∈ (s.edged k r c).targets k' ↔ t ∈ s.targets k' ∨ (k' = k ∧ t = r) := by
  rw [edged, mem_targets_put hk, targets_ensureNode]

lemma cbShelf_edged (s : State) (k r c : Text) : (s.edged k r c).cbShelf = s.cbShelf := by
  show (s.ensureNode r).cbShelf = s.cbShelf
  unfold ensureNode
  split <;> rfl

lemma isSome_of_ensureNode (hk : ((s.ensureNode r).info k).isSome) : (s.info k).isSome ∨ k = r := by
  by_cases h : k = r
  · exact Or.inr h
  · exact Or.inl (by rwa [info_ensureNode_ne s h] at hk)

lemma info_modify_edit (s : State) (k : Text) {g : DepMeta → DepMeta}
    (hf : ∀ n, (f n).info = g n.info) : (s.modify k f).info k = (s.info k).map g := by
  rw [info_modify_self]
  cases h : s.nodes k with
  | none => simp [info, h]
  | some n => simp [info, h, hf]

lemma visit_placed {r c : Text}
    (hf : ¬ ((s.info r).getD new).Flagged) (hk : ((s.ensureNode r).info cbv.cookbookName).isSome)
    (hs : s.onShelf r = some depCb ∨ (s.onShelf r = none ∧ store.get r = some depCb))
    (hp : s.onShelf r = some depCb → ¬ (r ∈ s.targets cbv.cookbookName ∧
      constraintPresent ((s.info r).getD new).constraint c = true)) : Visit store s cbv.cookbookName r (.str c)
      (((s.edged cbv.cookbookName r c).modify r (Noun.addConstraint c)).shelve r depCb) (some depCb) := by
  refine Visit.placed rfl rfl hf (isSome_of_ensureNode hk) hs hp ?_ ?_ ?_ ?_
  · rw [info_shelve, info_modify_edit (g := addConstraint c) _ _ (fun _ => rfl), info_edged_self]
    rfl
  · intro k' hk'
    rw [info_shelve, info_modify_ne _ _ hk', info_edged_ne hk']
  · intro k' t
    rw [targets_shelve, targets_modify_of_keeps (f := Noun.addConstraint c) _ _ _ (fun _ => rfl),
      mem_targets_edged hk]
  · have he : ((s.edged cbv.cookbookName r c).modify r (Noun.addConstraint c)).cbShelf = s.cbShelf :=
      cbShelf_edged s cbv.cookbookName r c
    unfold shelve
    rw [he]
    split <;> simp [he]

lemma visit_notFound (hf : ¬ ((s.info r).getD new).Flagged)
    (hk : ((s.ensureNode r).info cbv.cookbookName).isSome) (hs : s.onShelf r = none) (hg : store.get r = none) :
    Visit store s cbv.cookbookName r (.str c)
      ((s.edged cbv.cookbookName r c).modify r (fun n => n.markNotFound.addConstraint c)) none := by
  refine Visit.notFound rfl rfl hf (isSome_of_ensureNode hk) hs hg ?_ ?_ ?_
    (cbShelf_edged s cbv.cookbookName r c)
  · rw [info_modify_edit (g := fun m => { m.addConstraint c with notFound := true }) _ _ (fun _ => rfl),
      info_edged_self]
    rfl
  · intro k' hk'
    rw [info_modify_ne _ _ hk', info_edged_ne hk']
  · intro k' t
    rw [targets_modify_of_keeps (f := fun n => n.markNotFound.addConstraint c) _ _ _ (fun _ => rfl),
      mem_targets_edged hk]

lemma visit_present (hf : ¬ ((s.info r).getD new).Flagged) (hk : ((s.ensureNode r).info cbv.cookbookName).isSome)
    (hs : s.onShelf r = some depCb) (ht : r ∈ s.targets cbv.cookbookName)
    (hp : constraintPresent ((s.info r).getD new).constraint c = true) :
    Visit store s cbv.cookbookName r (.str c) (s.edged cbv.cookbookName r c) none := by
  refine Visit.present rfl rfl hf (isSome_of_ensureNode hk) hs ht hp info_edged_self
    (fun k' hk' => info_edged_ne hk') ?_ (cbShelf_edged s cbv.cookbookName r c)
  intro k' t
  rw [mem_targets_edged hk, or_iff_left_of_imp]
  rintro ⟨rfl, rfl⟩
  exact ht

lemma flagged_of_any (h : (s.nodes r).any (fun n => n.info.noVersion || n.info.notFound) = true) :
    ∃ m, s.info r = some m ∧ m.Flagged := by
  cases hn : s.nodes r with
  | none => simp [hn] at h
  | some n => exact ⟨n.info, by simp [info, hn], by simpa [hn, DepMeta.Flagged] using h⟩

lemma not_flagged_of_any (h : ¬ (s.nodes r).any (fun n => n.info.noVersion || n.info.notFound) = true) :
    ¬ ((s.info r).getD new).Flagged := by
  cases hn : s.nodes r with
  | none => simp [info, hn, new, Noun.new, DepMeta.Flagged]
  | some n => simpa [info, hn, DepMeta.Flagged] using h

lemma visitDependency_spec {c2 : Json} {o : Option Cookbook}
    (h : visitDependency store s cbv r c2 = .ok (s', o)) : Visit store s cbv.cookbookName r c2 s' o := by
  unfold visitDependency at h
  split at h
  next hfl =>
    obtain ⟨rfl, rfl⟩ := Prod.mk.inj (ok.inj h)
    obtain ⟨m, hm, hf⟩ := flagged_of_any hfl
    exact Visit.flagged hm hf
  next hfl =>
    have hf := not_flagged_of_any hfl
    cases c2 with
    | str c =>
      simp only [] at h
      split at h
      next head tail hh htl =>
        have hk : ((s.ensureNode r).info cbv.cookbookName).isSome := by simp [info, hh]
        have ht : tail.info = (s.info r).getD new := by
          have hr := info_ensureNode_self s r
          rwa [info, htl, Option.map_some, Option.some.injEq] at hr
        have hdt : head.checkDependency r = true ↔ r ∈ s.targets cbv.cookbookName := by
          rw [← targets_ensureNode s r]
          simp [Noun.checkDependency, targets, hh]
        split at h
        next hl =>
          have hs : s.onShelf r = none := (onShelf_ensureNode s r r).symm.trans hl
          split at h
          next hg =>
            obtain ⟨rfl, rfl⟩ := Prod.mk.inj (ok.inj h)
            exact visit_notFound hf hk hs hg
          next depCb hg =>
            obtain ⟨rfl, rfl⟩ := Prod.mk.inj (ok.inj h)
            exact visit_placed hf hk (Or.inr ⟨hs, hg⟩) (by simp [hs])
        next depCb hl =>
          have hs : s.onShelf r = some depCb := (onShelf_ensureNode s r r).symm.trans hl
          split at h
          next hp =>
            obtain ⟨rfl, rfl⟩ := Prod.mk.inj (ok.inj h)
            rw [hdt, ht] at hp
            exact visit_present hf hk hs hp.1 hp.2
          next hp =>
            obtain ⟨rfl, rfl⟩ := Prod.mk.inj (ok.inj h)
            exact visit_placed hf hk (Or.inl hs) (fun _ => by rwa [← hdt, ← ht])
      next => simp at h
    | _ => simp at h

inductive VisitItem (store : Store) (s : State) (k : Text) : State → Option Cookbook → Prop
  | skipped {m : DepMeta} (hm : s.info k = some m) (hs : (s.onShelf k).isSome ∨ m.notFound = true) :
      VisitItem store s k s none
  | notFound {s' : State} {m : DepMeta} (hm : s.info k = some m) (hs : s.onShelf k = none)
      (hg : store.get k = none) (hinfo : s'.info k = some { m with notFound := true })
      (hother : ∀ k', k' ≠ k → s'.info k' = s.info k') (htargets : ∀ k', s'.targets k' = s.targets k')
      (hshelf : s'.cbShelf = s.cbShelf) : VisitItem store s k s' none
  | placed {m : DepMeta} {cb : Cookbook} (hm : s.info k = some m) (hn : m.notFound = false)
      (hs : s.onShelf k = none) (hg : store.get k = some cb) : VisitItem store s k (s.shelve k cb) (some cb)

lemma info_eq_some (h : s.nodes k = some n) : s.info k = some n.info := by
  simp [info, h]

lemma visitRunList_spec {o : Option Cookbook} (h : visitRunList store s k = .ok (s', o)) :
    VisitItem store s k s' o := by
  unfold visitRunList at h
  split at h
  · simp at h
  next n hn =>
    have hm := info_eq_some hn
    split at h
    next hs =>
      obtain ⟨rfl, rfl⟩ := Prod.mk.inj (ok.inj h)
      exact VisitItem.skipped hm hs
    next hs =>
      obtain ⟨hs, hnf⟩ := not_or.mp hs
      have hs' : s.onShelf k = none := Option.not_isSome_iff_eq_none.mp hs
      split at h
      next hg =>
        obtain ⟨rfl, rfl⟩ := Prod.mk.inj (ok.inj h)
        refine VisitItem.notFound hm hs' hg ?_ (fun k' hk' => info_modify_ne _ _ hk') ?_ rfl
        · rw [info_modify_edit (g := fun m => { m with notFound := true }) _ _ (fun _ => rfl), hm]
          rfl
        · exact fun k' => targets_modify_of_keeps (f := Noun.markNotFound) _ _ _ (fun _ => rfl)
      next cb hg =>
        obtain ⟨rfl, rfl⟩ := Prod.mk.inj (ok.inj h)
        exact VisitItem.placed hm (by simpa using hnf) hs' hg

inductive Select (s : State) (r : Text) (cb : Cookbook) : State → Option CookbookVersion → Prop
  | noVersion {s' : State} {m : DepMeta} (hm : s.info r = some m) (hc : cb.choose m.constraint.head? = .ok none)
      (hinfo : s'.info r = some { m with noVersion := true }) (hother : ∀ k', k' ≠ r → s'.info k' = s.info k')
      (htargets : ∀ k', s'.targets k' = s.targets k') (hshelf : s'.cbShelf = s.cbShelf) :
      Select s r cb s' none
  | version {s' : State} {m : DepMeta} {v : CookbookVersion} (hm : s.info r = some m)
      (hc : cb.choose m.constraint.head? = .ok (some v)) (hinfo : s'.info r = some { m with version := v.version })
      (hother : ∀ k', k' ≠ r → s'.info k' = s.info k')
      (htargets : ∀ k', k' ≠ r → s'.targets k' = s.targets k')
      (hr : s'.targets r = s.targets r ∨ (m.version ≠ [] ∧ m.version ≠ v.version ∧ s'.targets r = []))
      (hshelf : s'.cbShelf = s.cbShelf) : Select s r cb s' (some v)

lemma select_none (hm : s.info r = some m)
    (hc : cb.choose m.constraint.head? = .ok none) : Select s r cb (s.modify r Noun.markNoVersion) none := by
  refine Select.noVersion hm hc ?_ (fun k' hk' => info_modify_ne _ _ hk') ?_ rfl
  · rw [info_modify_edit (g := fun m => { m with noVersion := true }) _ _ (fun _ => rfl), hm]
    rfl
  · exact fun k' => targets_modify_of_keeps (f := Noun.markNoVersion) _ _ _ (fun _ => rfl)

lemma select_some {v : CookbookVersion} (hm : s.info r = some m) (hc : cb.choose m.constraint.head? = .ok (some v)) :
    Select s r cb (s.modify r (Noun.setVersion v.version)) (some v) := by
  have ht : ∀ k', (s.modify r (Noun.setVersion v.version)).targets k' = s.targets k' :=
    fun k' => targets_modify_of_keeps (f := Noun.setVersion v.version) _ _ _ (fun _ => rfl)
  refine Select.version hm hc ?_ (fun k' hk' => info_modify_ne _ _ hk') (fun k' _ => ht k') (Or.inl (ht r)) rfl
  rw [info_modify_edit (g := fun m => { m with version := v.version }) _ _ (fun _ => rfl), hm]
  rfl

lemma selectRunList_spec (h : selectRunList s k cb = .ok (s', o)) : Select s k cb s' o := by
  unfold selectRunList at h
  split at h
  · simp at h
  next n hn =>
    have hm := info_eq_some hn
    rw [Cookbook.latestMultiConstraint_eq_choose] at h
    split at h
    · simp at h
    next hc =>
      obtain ⟨rfl, rfl⟩ := Prod.mk.inj (ok.inj h)
      exact select_none hm hc
    next v hc =>
      obtain ⟨rfl, rfl⟩ := Prod.mk.inj (ok.inj h)
      exact select_some hm hc

lemma targets_modify_clear (s : State) (r : Text) : (s.modify r Noun.clearDeps).targets r = [] := by
  cases h : s.nodes r <;> simp [State.targets, State.modify, h, Noun.clearDeps]

lemma selectDependency_spec (h : selectDependency s r cb = .ok (s', o)) : Select s r cb s' o := by
  unfold selectDependency at h
  split at h
  · simp at h
  next n hn =>
    have hm := info_eq_some hn
    rw [Cookbook.latestMultiConstraint_eq_choose] at h
    split at h
    · simp at h
    next hc =>
      obtain ⟨rfl, rfl⟩ := Prod.mk.inj (ok.inj h)
      exact select_none hm hc
    next v hc =>
      obtain ⟨rfl, rfl⟩ := Prod.mk.inj (ok.inj h)
      split
      next hv =>
        have hm' : (s.modify r Noun.clearDeps).info r = some n.info := by
          rw [info_modify_of_keeps (f := Noun.clearDeps) _ _ _ (fun _ => rfl), hm]
        cases select_some hm' hc with
        | version _ _ hi ho ht _ hs =>
          refine Select.version hm hc ?_ ?_ ?_ (Or.inr ⟨hv.1, hv.2, ?_⟩) hs
          · rw [info_modify_edit (g := fun m => { m with version := v.version }) _ _ (fun _ => rfl), hm']
            rfl
          · intro k' hk'
            rw [ho k' hk', info_modify_ne _ _ hk']
          · intro k' hk'
            rw [ht k' hk', targets_modify_ne _ _ hk']
          · rw [targets_modify_of_keeps (f := Noun.setVersion v.version) _ _ _ (fun _ => rfl),
              targets_modify_clear]
      next => exact select_some hm hc

inductive Steps (store : Store) (ord : MapOrder) : Config → Config → Prop
  | runListDone {s : State} {n : ℕ} {control : List Task} :
      Steps store ord ⟨s, n, .runList [] :: control⟩ ⟨s, n, control⟩
  | runListVisit {s s' : State} {n : ℕ} {k : Text} {names : List Text} {control : List Task}
      {o : Option Cookbook} (h : VisitItem store s k s' o) :
      Steps store ord ⟨s, n, .runList (k :: names) :: control⟩
        ⟨s', n, (o.map (Task.selectRunList k)).toList ++ .runList names :: control⟩
  | dependenciesDone {s : State} {n : ℕ} {v : CookbookVersion} {control : List Task} :
      Steps store ord ⟨s, n, .dependencies v [] :: control⟩ ⟨s, n, control⟩
  | dependencyVisit {s s' : State} {n : ℕ} {v : CookbookVersion} {r : Text} {c2 : Json} {rest : JsonMap}
      {control : List Task} {o : Option Cookbook} (h : Visit store s v.cookbookName r c2 s' o) :
      Steps store ord ⟨s, n, .dependencies v ((r, c2) :: rest) :: control⟩
        ⟨s', n, (o.map (Task.selectDependency r)).toList ++ .dependencies v rest :: control⟩
  | selectNone {s s' : State} {n : ℕ} {r : Text} {cb : Cookbook} {task : Task} {control : List Task}
      (ht : task = .selectRunList r cb ∨ task = .selectDependency r cb) (h : Select s r cb s' none) :
      Steps store ord ⟨s, n, task :: control⟩ ⟨s', n, control⟩
  | selectSome {s s' : State} {n : ℕ} {r : Text} {cb : Cookbook} {v : CookbookVersion} {depList : JsonMap}
      {task : Task} {control : List Task} (ht : task = .selectRunList r cb ∨ task = .selectDependency r cb)
      (h : Select s r cb s' (some v)) (hd : v.depList = .ok depList) :
      Steps store ord ⟨s, n, task :: control⟩
        ⟨s', n + 1, .dependencies v (ord.deps n depList) :: control⟩

lemma next_eq_inr {x : Except Panic Config} (h : next x = .inr d) : x = .ok d := by
  cases x with
  | error p => simp [next] at h
  | ok c => simpa [next] using h

lemma steps_of_select {n : ℕ} {task : Task} {control : List Task} (ht : task = .selectRunList r cb ∨ task = .selectDependency r cb)
    (h : Select s r cb s' o) (hd : getDependencies ord n control (s', o) = .ok d) :
    Steps store ord ⟨s, n, task :: control⟩ d := by
  cases o with
  | none =>
    obtain rfl := ok.inj hd
    exact Steps.selectNone ht h
  | some v =>
    simp only [getDependencies] at hd
    split at hd
    · simp at hd
    next depList hl =>
      obtain rfl := ok.inj hd
      exact Steps.selectSome ht h hl

theorem steps_of_step {c d : Config} (h : step store ord c = .inr d) : Steps store ord c d := by
  obtain ⟨s, n, control⟩ := c
  cases control with
  | nil => simp [step] at h
  | cons task control =>
    cases task with
    | runList names =>
      cases names with
      | nil =>
        obtain rfl := Sum.inr.inj h
        exact Steps.runListDone
      | cons k names =>
        obtain ⟨⟨s', o⟩, hv, rfl⟩ := map_eq_ok (next_eq_inr h)
        cases o <;> exact Steps.runListVisit (visitRunList_spec hv)
    | selectRunList k cb =>
      obtain ⟨⟨s', o⟩, hs, hd⟩ := bind_eq_ok (next_eq_inr h)
      exact steps_of_select (Or.inl rfl) (selectRunList_spec hs) hd
    | dependencies v rest =>
      cases rest with
      | nil =>
        obtain rfl := Sum.inr.inj h
        exact Steps.dependenciesDone
      | cons p rest =>
        obtain ⟨r, c2⟩ := p
        obtain ⟨⟨s', o⟩, hv, rfl⟩ := map_eq_ok (next_eq_inr h)
        cases o <;> exact Steps.dependencyVisit (visitDependency_spec hv)
    | selectDependency r cb =>
      obtain ⟨⟨s', o⟩, hs, hd⟩ := bind_eq_ok (next_eq_inr h)
      exact steps_of_select (Or.inr rfl) (selectDependency_spec hs) hd

lemma Select.mem_targets (h : Select s r cb s' o) (ht : t ∈ s'.targets w) : t ∈ s.targets w := by
  cases h with
  | noVersion _ _ _ _ htr => exact htr w ▸ ht
  | version _ _ _ _ htr hr =>
    by_cases hw : w = r
    · subst hw
      rcases hr with hr | ⟨-, -, hr⟩
      · exact hr ▸ ht
      · simp [hr] at ht
    · exact htr w hw ▸ ht

lemma Steps.mem_targets {c d : Config} (h : Steps store ord c d) (ht : t ∈ d.state.targets w) : t ∈ c.state.targets w ∨
      ∃ v c2 rest control, c.control = .dependencies v ((t, c2) :: rest) :: control ∧ v.cookbookName = w := by
  cases h with
  | runListDone => exact Or.inl ht
  | dependenciesDone => exact Or.inl ht
  | selectNone _ h => exact Or.inl (h.mem_targets ht)
  | selectSome _ h => exact Or.inl (h.mem_targets ht)
  | runListVisit h =>
    cases h with
    | skipped => exact Or.inl ht
    | notFound _ _ _ _ _ htr => exact Or.inl (htr w ▸ ht)
    | placed => exact Or.inl (by simpa using ht)
  | @dependencyVisit s s' n v r c2 rest control o h =>
    have hn : w = v.cookbookName ∧ t = r → ∃ v' c2' rest' control',
        Task.dependencies v ((r, c2) :: rest) :: control = .dependencies v' ((t, c2') :: rest') :: control' ∧
          v'.cookbookName = w := by
      rintro ⟨rfl, rfl⟩
      exact ⟨v, c2, rest, control, rfl, rfl⟩
    cases h with
    | flagged => exact Or.inl ht
    | notFound _ _ _ _ _ _ _ _ htr => exact ((htr w t).mp ht).imp_right hn
    | present _ _ _ _ _ _ _ _ _ htr => exact Or.inl ((htr w t).mp ht)
    | placed _ _ _ _ _ _ _ _ htr => exact ((htr w t).mp ht).imp_right hn

end Goiardi.Cookbooks
