import Goiardi.Cookbooks.Soundness

/-! The walk does not stop before its control is empty, and a measure bounds what it can still do. -/

namespace Goiardi.Cookbooks

open GVersion Validation Machine List Finset

variable {store : Store} {ord : MapOrder} {runList : List Text} {env : List (Text × Text)} {k r : Text}
  {s s' : State} {n : ℕ} {c d : Config}

variable {m : DepMeta} {cb : Cookbook} {o : Option CookbookVersion}

lemma nodes_of_info (h : s.info k = some m) : ∃ nd, s.nodes k = some nd ∧ nd.info = m := by
  simpa [State.info] using h

lemma visitRunList_ok (store : Store) (h : (s.info k).isSome) : ∃ p, visitRunList store s k = .ok p := by
  obtain ⟨m, hm⟩ := Option.isSome_iff_exists.mp h
  obtain ⟨nd, hn, -⟩ := nodes_of_info hm
  simp only [visitRunList, hn]
  split
  · exact ⟨_, rfl⟩
  · split <;> exact ⟨_, rfl⟩

lemma visitDependency_ok (store : Store) (r t : Text) {v : CookbookVersion} (h : (s.info v.cookbookName).isSome) :
    ∃ p, visitDependency store s v r (.str t) = .ok p := by
  have hh : ((s.ensureNode r).info v.cookbookName).isSome := by
    by_cases hk : v.cookbookName = r
    · rw [hk, info_ensureNode_self]
      rfl
    · rwa [info_ensureNode_ne s hk]
  obtain ⟨m, hm⟩ := Option.isSome_iff_exists.mp hh
  obtain ⟨head, hn, -⟩ := nodes_of_info hm
  obtain ⟨tail, ht, -⟩ := nodes_of_info (info_ensureNode_self s r)
  simp only [visitDependency, hn, ht]
  split
  · exact ⟨_, rfl⟩
  · split
    · split <;> exact ⟨_, rfl⟩
    · split <;> exact ⟨_, rfl⟩

lemma selectRunList_ok (hm : s.info k = some m)
    (hc : cb.choose m.constraint.head? = .ok o) : ∃ s', selectRunList s k cb = .ok (s', o) := by
  obtain ⟨nd, hn, rfl⟩ := nodes_of_info hm
  cases o <;> simp [selectRunList, hn, Cookbook.latestMultiConstraint_eq_choose, hc]

lemma selectDependency_ok (hm : s.info r = some m)
    (hc : cb.choose m.constraint.head? = .ok o) : ∃ s', selectDependency s r cb = .ok (s', o) := by
  obtain ⟨nd, hn, rfl⟩ := nodes_of_info hm
  cases o <;> simp [selectDependency, hn, Cookbook.latestMultiConstraint_eq_choose, hc]

def ChoiceOk (c : Config) : Prop := ∀ p ∈ c.selection, ∃ o, p.1.choose p.2.constraint.head? = .ok o

lemma getDependencies_ok (ord : MapOrder) (n : ℕ) (control : List Task) (s : State) (ha : store.Accepted) {x : Option Constraint} (hcb : cb ∈ store.cookbooks)
    (hc : cb.choose x = .ok o) : ∃ d, getDependencies ord n control (s, o) = .ok d := by
  cases o with
  | none => exact ⟨_, rfl⟩
  | some v =>
    obtain ⟨depList, hd, -⟩ := (ha cb hcb v (Cookbook.choose_mem hc)).depList
    simp [getDependencies, hd]

theorem Inv.progress (ha : store.Accepted) (hi : Inv store runList env c) (hc : ChoiceOk c)
    (hcn : c.control ≠ []) : ∃ d, step store ord c = .inr d := by
  obtain ⟨s, n, control⟩ := c
  cases control with
  | nil => exact absurd rfl hcn
  | cons t control =>
    have ht := hi.tasks t (by simp)
    cases t with
    | runList names =>
      cases names with
      | nil => exact ⟨_, rfl⟩
      | cons k names =>
        obtain ⟨p, hp⟩ := visitRunList_ok store (ht k (by simp))
        simp [step, hp, next, Except.map]
    | dependencies v rest =>
      cases rest with
      | nil => exact ⟨_, rfl⟩
      | cons q rest =>
        obtain ⟨r, c2⟩ := q
        obtain ⟨hk, ⟨cb, hg, hv⟩, depList, hd, hs⟩ := ht
        obtain ⟨depList', hd', hst⟩ := (ha cb (Store.get_mem hg).1 v hv).depList
        obtain rfl := Except.ok.inj (hd.symm.trans hd')
        obtain ⟨t, ht, -⟩ := hst (r, c2) (hs _ mem_cons_self)
        obtain rfl : c2 = .str t := ht
        obtain ⟨p, hp⟩ := visitDependency_ok store r t hk
        simp [step, hp, next, Except.map]
    | selectRunList k cb =>
      obtain ⟨m, hm, -⟩ := hi.selecting k (selecting_cons.mpr rfl)
      obtain ⟨o, ho⟩ := hc _ (hi.selection_eq (selecting_cons.mpr rfl) ht hm)
      obtain ⟨s', hs'⟩ := selectRunList_ok hm ho
      obtain ⟨d, hd⟩ := getDependencies_ok ord n control s' ha
        (Store.get_mem (hi.basic.shelf_get k cb ht)).1 ho
      exact ⟨d, by simp [step, hs', hd, next, bind, Except.bind]⟩
    | selectDependency r cb =>
      obtain ⟨m, hm, -⟩ := hi.selecting r (selecting_cons.mpr rfl)
      obtain ⟨o, ho⟩ := hc _ (hi.selection_eq (selecting_cons.mpr rfl) ht hm)
      obtain ⟨s', hs'⟩ := selectDependency_ok hm ho
      obtain ⟨d, hd⟩ := getDependencies_ok ord n control s' ha
        (Store.get_mem (hi.basic.shelf_get r cb ht)).1 ho
      exact ⟨d, by simp [step, hs', hd, next, bind, Except.bind]⟩

section

def depPairs (store : Store) : List (Text × Json) :=
  store.cookbooks.flatMap fun cb => cb.versions.flatMap fun v =>
    match v.depList with
    | .ok l => l
    | .error _ => []

def storeNames (store : Store) : Finset Text :=
  (store.cookbooks.map Cookbook.name ++ (depPairs store).map Prod.fst).toFinset

def depTexts (store : Store) : Finset (Text × Text) :=
  ((depPairs store).filterMap fun p =>
    match p.2 with
    | .str t => some (p.1, t)
    | _ => none).toFinset

variable {cb : Cookbook} {p : Text × Json} {t : Text} {l l' : List Constraint}

lemma mem_depPairs {v : CookbookVersion} {l : JsonMap}
    (hcb : cb ∈ store.cookbooks) (hv : v ∈ cb.versions) (hl : v.depList = .ok l) (hp : p ∈ l) : p ∈ depPairs store := by
  simp only [depPairs, mem_flatMap]
  exact ⟨cb, hcb, v, hv, by simpa [hl] using hp⟩

lemma mem_storeNames_of_get (h : store.get k = some cb) : k ∈ storeNames store := by
  obtain ⟨hm, rfl⟩ := Store.get_mem h
  simp only [storeNames, mem_toFinset, mem_append]
  exact Or.inl (mem_map_of_mem hm)

lemma mem_storeNames_of_pair (h : p ∈ depPairs store) : p.1 ∈ storeNames store := by
  simp only [storeNames, mem_toFinset, mem_append]
  exact Or.inr (mem_map_of_mem h)

lemma mem_depTexts (h : (r, .str t) ∈ depPairs store) : (r, t) ∈ depTexts store := by
  simp only [depTexts, List.mem_toFinset, List.mem_filterMap]
  exact ⟨_, h, rfl⟩

def State.constraintsOf (s : State) (k : Text) : List Constraint := ((s.info k).map DepMeta.constraint).getD []

def missingTexts (store : Store) (s : State) : ℕ :=
  ((depTexts store).filter fun p => ¬ constraintPresent (s.constraintsOf p.1) p.2).card +
    ((storeNames store).filter fun k => s.constraintsOf k = []).card

def missingEdges (store : Store) (s : State) : ℕ :=
  ((storeNames store ×ˢ storeNames store).filter fun p => p.2 ∉ s.targets p.1).card

def measure (store : Store) (s : State) : ℕ :=
  missingTexts store s * ((storeNames store ×ˢ storeNames store).card + 1) + missingEdges store s

lemma measure_lt_of_texts (h : missingTexts store s' < missingTexts store s) : measure store s' < measure store s := by
  have hb : missingEdges store s' ≤ (storeNames store ×ˢ storeNames store).card := card_filter_le _ _
  have hm : (missingTexts store s' + 1) * ((storeNames store ×ˢ storeNames store).card + 1) ≤
      missingTexts store s * ((storeNames store ×ˢ storeNames store).card + 1) := Nat.mul_le_mul_right _ h
  unfold measure
  rw [Nat.add_mul] at hm
  omega

lemma measure_lt_of_edges (h : missingTexts store s' ≤ missingTexts store s)
    (h' : missingEdges store s' < missingEdges store s) : measure store s' < measure store s := by
  have hm := Nat.mul_le_mul_right ((storeNames store ×ˢ storeNames store).card + 1) h
  unfold measure
  omega

lemma measure_le (h : missingTexts store s' ≤ missingTexts store s)
    (h' : missingEdges store s' ≤ missingEdges store s) : measure store s' ≤ measure store s := by
  have hm := Nat.mul_le_mul_right ((storeNames store ×ˢ storeNames store).card + 1) h
  unfold measure
  omega

lemma Le.constraintsOf (h : Le s s') (k : Text) : s.constraintsOf k <+: s'.constraintsOf k := by
  unfold State.constraintsOf
  cases hm : s.info k with
  | none => exact nil_prefix
  | some m =>
    obtain ⟨m', hm', hp, -⟩ := h.info k m hm
    simpa [hm'] using hp

lemma constraintPresent_mono (h : l <+: l') (hp : constraintPresent l t = true) : constraintPresent l' t = true := by
  obtain ⟨x, hx, ho⟩ := any_eq_true.mp hp
  exact any_eq_true.mpr ⟨x, h.subset hx, ho⟩

lemma Le.absent_subset (h : Le s s') (store : Store) :
    ((depTexts store).filter fun p => ¬ constraintPresent (s'.constraintsOf p.1) p.2) ⊆
      (depTexts store).filter fun p => ¬ constraintPresent (s.constraintsOf p.1) p.2 :=
  Finset.monotone_filter_right _ fun p _ hp hpr => hp (constraintPresent_mono (h.constraintsOf p.1) hpr)

lemma Le.free_subset (h : Le s s') (store : Store) : ((storeNames store).filter fun k => s'.constraintsOf k = []) ⊆
    (storeNames store).filter fun k => s.constraintsOf k = [] :=
  Finset.monotone_filter_right _ fun k _ hk => prefix_nil.mp (hk ▸ h.constraintsOf k)

lemma Le.missingTexts_le (h : Le s s') (store : Store) : missingTexts store s' ≤ missingTexts store s :=
  Nat.add_le_add (card_le_card (h.absent_subset store)) (card_le_card (h.free_subset store))

lemma Le.missingTexts_lt_of_present (h : Le s s') (hm : (r, t) ∈ depTexts store)
    (hs : ¬ constraintPresent (s.constraintsOf r) t = true) (hs' : constraintPresent (s'.constraintsOf r) t = true) :
    missingTexts store s' < missingTexts store s := by
  refine Nat.add_lt_add_of_lt_of_le (card_lt_card ?_) (card_le_card (h.free_subset store))
  rw [ssubset_iff_of_subset (h.absent_subset store)]
  exact ⟨(r, t), by simpa [hm] using hs, by simp [hs']⟩

lemma Le.missingTexts_lt_of_first (h : Le s s') (hm : k ∈ storeNames store) (hs : s.constraintsOf k = [])
    (hs' : s'.constraintsOf k ≠ []) : missingTexts store s' < missingTexts store s := by
  refine Nat.add_lt_add_of_le_of_lt (card_le_card (h.absent_subset store)) (card_lt_card ?_)
  rw [ssubset_iff_of_subset (h.free_subset store)]
  exact ⟨k, by simp [hm, hs], by simp [hs']⟩

lemma Le.head_eq (h : Le s s') (hm : missingTexts store s ≤ missingTexts store s') (hk : k ∈ storeNames store) :
    (s'.constraintsOf k).head? = (s.constraintsOf k).head? := by
  obtain ⟨l, hl⟩ := h.constraintsOf k
  cases hs : s.constraintsOf k with
  | nil =>
    by_contra hne
    have hs' : s'.constraintsOf k ≠ [] := fun he => hne (by rw [he])
    exact absurd (h.missingTexts_lt_of_first hk hs hs') (Nat.not_lt.mpr hm)
  | cons x xs => simp [← hl, hs]

lemma missingEdges_le_of_subset (h : ∀ w t, t ∈ s.targets w → t ∈ s'.targets w) :
    missingEdges store s' ≤ missingEdges store s := by
  apply card_le_card
  intro p hp
  simp only [Finset.mem_filter] at hp ⊢
  exact ⟨hp.1, fun ht => hp.2 (h _ _ ht)⟩

lemma missingEdges_lt_of_new (h : ∀ w t, t ∈ s.targets w → t ∈ s'.targets w) (hk : k ∈ storeNames store)
    (hr : r ∈ storeNames store) (hs : r ∉ s.targets k) (hs' : r ∈ s'.targets k) :
    missingEdges store s' < missingEdges store s := by
  apply card_lt_card
  rw [ssubset_iff_of_subset]
  · exact ⟨(k, r), by simp [hk, hr, hs], by simp [hs']⟩
  · intro p hp
    simp only [Finset.mem_filter] at hp ⊢
    exact ⟨hp.1, fun ht => hp.2 (h _ _ ht)⟩

end

end Goiardi.Cookbooks
