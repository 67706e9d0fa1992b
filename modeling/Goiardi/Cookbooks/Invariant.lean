import Goiardi.Cookbooks.Walk

/-! Invariants of the walk over every store, run list and environment. -/

namespace Goiardi.Cookbooks

open GVersion Validation Machine List Option

variable {store : Store} {ord : MapOrder} {s s' : State} {k r : Text}

structure Edit (store : Store) (s : State) (r : Text) (m m' : DepMeta) (s' : State) : Prop where
  old : m = (s.info r).getD DepMeta.new
  info : s'.info r = some m'
  other : ∀ k, k ≠ r → s'.info k = s.info k
  constraint : ∃ l, m'.constraint = m.constraint ++ l ∧ ∀ x ∈ l, newConstraint x.original = some [x]
  noVersion : m.noVersion = true → m'.noVersion = true
  notFound : m.notFound = true → m'.notFound = true
  notFound_get : m'.notFound = true → m.notFound = true ∨ store.get r = none
  shelf : ∀ k cb, s'.onShelf k = some cb →
    s.onShelf k = some cb ∨ (k = r ∧ store.get r = some cb ∧ m'.notFound = false)
  shelf_mono : ∀ k cb, s.onShelf k = some cb → s'.onShelf k = some cb
  shelf_nodup : (s.cbShelf.map Prod.fst).Nodup → (s'.cbShelf.map Prod.fst).Nodup
  offShelf : s'.onShelf r = none → m'.version = m.version ∧ m'.noVersion = m.noVersion
  targets : ∀ k t, t ∈ s'.targets k → t ∈ s.targets k ∨ (t = r ∧ ((s'.onShelf r).isSome ∨ m'.notFound = true))

lemma appendConstraint_eq (l : List Constraint) (c : Text) :
    ∃ l', appendConstraint l c = l ++ l' ∧ ∀ x ∈ l', newConstraint x.original = some [x] := by
  unfold appendConstraint
  split
  · exact ⟨[], by simp⟩
  · exact ⟨constraints c, rfl, fun x hx => constraints_original hx⟩

lemma onShelf_of_cbShelf (h : s'.cbShelf = s.cbShelf) (k : Text) : s'.onShelf k = s.onShelf k := by
  rw [State.onShelf, h]
  rfl

variable {cb : Cookbook} {o : Option Cookbook} {l : List Constraint}

lemma onShelf_of_shelve (h : s'.cbShelf = (s.shelve r cb).cbShelf) (k : Text) :
    s'.onShelf k = (s.shelve r cb).onShelf k := by
  rw [State.onShelf, h]
  rfl

lemma Visit.edit {c2 : Json} (h : Visit store s k r c2 s' o)
    (hi : ∀ cb, s.onShelf r = some cb → store.get r = some cb) : s' = s ∨ ∃ m m', Edit store s r m m' s' := by
  cases h with
  | flagged => exact Or.inl rfl
  | @notFound _ c m hc hm hf hk hs hg hin ho htr hsh =>
    refine Or.inr ⟨m, _, hm, hin, ho, appendConstraint_eq _ c, id, fun _ => rfl, fun _ => Or.inr hg,
      ?_, ?_, fun h => hsh ▸ h, fun _ => ⟨rfl, rfl⟩, ?_⟩
    · exact fun k cb h => Or.inl (by rwa [onShelf_of_cbShelf hsh] at h)
    · exact fun k cb h => by rwa [onShelf_of_cbShelf hsh]
    · intro k' t ht
      rcases (htr k' t).mp ht with ht | ⟨-, rfl⟩
      · exact Or.inl ht
      · exact Or.inr ⟨rfl, Or.inr rfl⟩
  | @present _ c m cb hc hm hf hk hs ht hp hin ho htr hsh =>
    refine Or.inr ⟨m, m, hm, hin, ho, ⟨[], by simp⟩, id, id, Or.inl, ?_, ?_, fun h => hsh ▸ h,
      fun _ => ⟨rfl, rfl⟩, ?_⟩
    · exact fun k cb h => Or.inl (by rwa [onShelf_of_cbShelf hsh] at h)
    · exact fun k cb h => by rwa [onShelf_of_cbShelf hsh]
    · exact fun k' t ht => Or.inl ((htr k' t).mp ht)
  | @placed _ c m cb hc hm hf hk hs hp hin ho htr hsh =>
    have hgt : store.get r = some cb := hs.elim (hi cb) And.right
    have hsl : s'.onShelf r = some cb := by
      rw [onShelf_of_shelve hsh, onShelf_shelve_self]
      rcases hs with hs | hs
      · rw [hs]
        rfl
      · rw [hs.1]
        rfl
    refine Or.inr ⟨m, _, hm, hin, ho, appendConstraint_eq _ c, id, id, Or.inl, ?_, ?_,
      fun h => hsh ▸ nodup_shelve h r cb, ?_, ?_⟩
    · intro k' cb' h'
      by_cases hk' : k' = r
      · subst hk'
        rw [hsl] at h'
        exact Or.inr ⟨rfl, by rwa [← h'], Bool.eq_false_iff.mpr fun hn => hf (Or.inr hn)⟩
      · rw [onShelf_of_shelve hsh, onShelf_shelve_ne s cb hk'] at h'
        exact Or.inl h'
    · intro k' cb' h'
      by_cases hk' : k' = r
      · subst hk'
        rw [hsl, ← hgt]
        exact hi cb' h'
      · rwa [onShelf_of_shelve hsh, onShelf_shelve_ne s cb hk']
    · simp [hsl]
    · intro k' t ht
      rcases (htr k' t).mp ht with ht | ⟨-, rfl⟩
      · exact Or.inl ht
      · exact Or.inr ⟨rfl, Or.inl (by simp [hsl])⟩

lemma VisitItem.edit (h : VisitItem store s k s' o) : s' = s ∨ ∃ m m', Edit store s k m m' s' := by
  cases h with
  | skipped => exact Or.inl rfl
  | @notFound _ m hm hs hg hi ho htr hsh =>
    refine Or.inr ⟨m, _, by rw [hm]; rfl, hi, ho, ⟨[], by simp⟩, id, fun _ => rfl, fun _ => Or.inr hg,
      ?_, ?_, fun h => hsh ▸ h, fun _ => ⟨rfl, rfl⟩, fun k' t ht => Or.inl (htr k' ▸ ht)⟩
    · exact fun k cb h => Or.inl (by rwa [onShelf_of_cbShelf hsh] at h)
    · exact fun k cb h => by rwa [onShelf_of_cbShelf hsh]
  | @placed m cb hm hn hs hg =>
    have hsl : (s.shelve k cb).onShelf k = some cb := by
      rw [onShelf_shelve_self, hs]
      rfl
    refine Or.inr ⟨m, m, by rw [hm]; rfl, by rw [info_shelve, hm], fun k' _ => info_shelve _ _ _ _,
      ⟨[], by simp⟩, id, id, Or.inl, ?_, ?_, fun h => nodup_shelve h k cb, by simp [hsl], fun k' t ht => Or.inl (by simpa using ht)⟩
    · intro k' cb' h'
      by_cases hk : k' = k
      · subst hk
        rw [hsl] at h'
        exact Or.inr ⟨rfl, by rwa [← h'], hn⟩
      · rw [onShelf_shelve_ne s cb hk] at h'
        exact Or.inl h'
    · intro k' cb' h'
      by_cases hk : k' = k
      · subst hk
        simp [hs] at h'
      · rwa [onShelf_shelve_ne s cb hk]

lemma Select.edit (store : Store) {o : Option CookbookVersion} (h : Select s r cb s' o)
    (hr : (s.onShelf r).isSome) : ∃ m m', Edit store s r m m' s' := by
  cases h with
  | @noVersion m hm hc hi ho htr hs =>
    refine ⟨m, _, by rw [hm]; rfl, hi, ho, ⟨[], by simp⟩, fun _ => rfl, id, Or.inl, ?_, ?_,
      fun h => hs ▸ h, ?_, fun k' t ht => Or.inl (htr k' ▸ ht)⟩
    · exact fun k cb h => Or.inl (by rwa [onShelf_of_cbShelf hs] at h)
    · exact fun k cb h => by rwa [onShelf_of_cbShelf hs]
    · simp only [onShelf_of_cbShelf hs]
      exact fun hn => by simp [hn] at hr
  | @version m v hm hc hi ho htr ht hs =>
    refine ⟨m, _, by rw [hm]; rfl, hi, ho, ⟨[], by simp⟩, id, id, Or.inl, ?_, ?_,
      fun h => hs ▸ h, ?_, ?_⟩
    · exact fun k cb h => Or.inl (by rwa [onShelf_of_cbShelf hs] at h)
    · exact fun k cb h => by rwa [onShelf_of_cbShelf hs]
    · simp only [onShelf_of_cbShelf hs]
      exact fun hn => by simp [hn] at hr
    · intro k' t hk'
      by_cases hkr : k' = r
      · subst hkr
        rcases ht with ht | ⟨-, -, ht⟩
        · exact Or.inl (ht ▸ hk')
        · simp [ht] at hk'
      · exact Or.inl (htr k' hkr ▸ hk')

structure Basic (store : Store) (s : State) : Prop where
  shelf_nodup : (s.cbShelf.map Prod.fst).Nodup
  shelf_get : ∀ k cb, s.onShelf k = some cb → store.get k = some cb
  shelf_info : ∀ k cb, s.onShelf k = some cb → ∃ m, s.info k = some m ∧ m.notFound = false
  notFound_get : ∀ k m, s.info k = some m → m.notFound = true → store.get k = none
  offShelf : ∀ k m, s.info k = some m → s.onShelf k = none → m.version = [] ∧ m.noVersion = false
  constraint_ok : ∀ k m, s.info k = some m → ∀ x ∈ m.constraint, newConstraint x.original = some [x]
  targets_ok : ∀ k t, t ∈ s.targets k → ∃ m, s.info t = some m ∧ ((s.onShelf t).isSome ∨ m.notFound = true)

structure Le (s s' : State) : Prop where
  info : ∀ k m, s.info k = some m → ∃ m', s'.info k = some m' ∧ m.constraint <+: m'.constraint ∧
    (m.noVersion = true → m'.noVersion = true) ∧ (m.notFound = true → m'.notFound = true)
  shelf : ∀ k cb, s.onShelf k = some cb → s'.onShelf k = some cb

lemma Le.refl (s : State) : Le s s := ⟨fun _ m h => ⟨m, h, prefix_rfl, id, id⟩, fun _ _ h => h⟩

namespace Edit

variable {m m' : DepMeta} (h : Edit store s r m m' s')

include h

lemma old_some {m₀ : DepMeta} (hm : s.info r = some m₀) : m₀ = m := by
  rw [h.old, hm]
  rfl

lemma le : Le s s' := by
  refine ⟨fun k m₀ hm => ?_, h.shelf_mono⟩
  by_cases hk : k = r
  · subst hk
    obtain rfl := h.old_some hm
    obtain ⟨l, hl, -⟩ := h.constraint
    exact ⟨m', h.info, hl ▸ prefix_append _ _, h.noVersion, h.notFound⟩
  · exact ⟨m₀, by rw [h.other k hk, hm], prefix_rfl, id, id⟩

lemma cases_info {m₁ : DepMeta} (hm : s'.info k = some m₁) : (k = r ∧ m₁ = m') ∨ (k ≠ r ∧ s.info k = some m₁) := by
  by_cases hk : k = r
  · subst hk
    exact Or.inl ⟨rfl, some.inj (hm.symm.trans h.info)⟩
  · exact Or.inr ⟨hk, by rwa [h.other k hk] at hm⟩

lemma old_cases : s.info r = some m ∨ (s.info r = none ∧ m = DepMeta.new) := by
  cases hr : s.info r with
  | none => exact Or.inr ⟨rfl, by rw [h.old, hr]; rfl⟩
  | some m₀ => exact Or.inl (by rw [h.old_some hr])

lemma basic (hb : Basic store s) : Basic store s' where
  shelf_nodup := h.shelf_nodup hb.shelf_nodup
  shelf_get k cb hk := by
    rcases h.shelf k cb hk with hk | ⟨rfl, hg, -⟩
    · exact hb.shelf_get k cb hk
    · exact hg
  shelf_info k cb hk := by
    rcases h.shelf k cb hk with hk | ⟨rfl, -, hn⟩
    · obtain ⟨m₀, hm₀, hn⟩ := hb.shelf_info k cb hk
      by_cases hkr : k = r
      · subst hkr
        obtain rfl := h.old_some hm₀
        refine ⟨m', h.info, ?_⟩
        by_contra hn'
        rcases h.notFound_get (by simpa using hn') with hf | hg
        · simp [hn] at hf
        · simp [hb.shelf_get k cb hk] at hg
      · exact ⟨m₀, by rw [h.other k hkr, hm₀], hn⟩
    · exact ⟨m', h.info, hn⟩
  notFound_get k m₁ hm₁ hn := by
    rcases h.cases_info hm₁ with ⟨rfl, rfl⟩ | ⟨-, hm₁⟩
    · rcases h.notFound_get hn with hf | hg
      · rcases h.old_cases with ho | ⟨-, rfl⟩
        · exact hb.notFound_get _ _ ho hf
        · simp [DepMeta.new, Noun.new] at hf
      · exact hg
    · exact hb.notFound_get k m₁ hm₁ hn
  offShelf k m₁ hm₁ hs := by
    have hol : s.onShelf k = none := by
      cases hk : s.onShelf k with
      | none => rfl
      | some cb => simp [h.shelf_mono k cb hk] at hs
    rcases h.cases_info hm₁ with ⟨rfl, rfl⟩ | ⟨-, hm₁⟩
    · obtain ⟨hv, hn⟩ := h.offShelf hs
      rw [hv, hn]
      rcases h.old_cases with ho | ⟨-, rfl⟩
      · exact hb.offShelf _ _ ho hol
      · exact ⟨rfl, rfl⟩
    · exact hb.offShelf k m₁ hm₁ hol
  constraint_ok k m₁ hm₁ x hx := by
    rcases h.cases_info hm₁ with ⟨rfl, rfl⟩ | ⟨-, hm₁⟩
    · obtain ⟨l, hl, hok⟩ := h.constraint
      rw [hl] at hx
      rcases mem_append.mp hx with hx | hx
      · rcases h.old_cases with ho | ⟨-, rfl⟩
        · exact hb.constraint_ok _ _ ho x hx
        · simp [DepMeta.new, Noun.new] at hx
      · exact hok x hx
    · exact hb.constraint_ok k m₁ hm₁ x hx
  targets_ok k t ht := by
    rcases h.targets k t ht with ht | ⟨rfl, ht⟩
    · obtain ⟨m₀, hm₀, hs⟩ := hb.targets_ok k t ht
      obtain ⟨m₁, hm₁, -, -, hn⟩ := h.le.info t m₀ hm₀
      refine ⟨m₁, hm₁, hs.imp (fun hs => ?_) hn⟩
      obtain ⟨cb, hcb⟩ := isSome_iff_exists.mp hs
      simp [h.shelf_mono t cb hcb]
    · exact ⟨m', h.info, ht⟩

end Edit

lemma Le.trans {s'' : State} (h : Le s s') (h' : Le s' s'') : Le s s'' := by
  refine ⟨fun k m hm => ?_, fun k cb hk => h'.shelf k cb (h.shelf k cb hk)⟩
  obtain ⟨m₁, hm₁, hp, hv, hn⟩ := h.info k m hm
  obtain ⟨m₂, hm₂, hp', hv', hn'⟩ := h'.info k m₁ hm₁
  exact ⟨m₂, hm₂, hp.trans hp', hv' ∘ hv, hn' ∘ hn⟩

lemma Le.isSome (h : Le s s') (hk : (s.info k).isSome) : (s'.info k).isSome := by
  obtain ⟨m, hm⟩ := isSome_iff_exists.mp hk
  obtain ⟨m', hm', -⟩ := h.info k m hm
  simp [hm']

lemma Le.onShelf_isSome (h : Le s s') (hk : (s.onShelf k).isSome) : (s'.onShelf k).isSome := by
  obtain ⟨cb, hcb⟩ := isSome_iff_exists.mp hk
  simp [h.shelf k cb hcb]

def TaskOk (store : Store) (s : State) : Task → Prop
  | .runList names => ∀ k ∈ names, (s.info k).isSome
  | .selectRunList k cb => s.onShelf k = some cb
  | .dependencies v rest => (s.info v.cookbookName).isSome ∧
      (∃ cb, store.get v.cookbookName = some cb ∧ v ∈ cb.versions) ∧
      ∃ depList, v.depList = .ok depList ∧ ∀ p ∈ rest, p ∈ depList
  | .selectDependency r cb => s.onShelf r = some cb

lemma TaskOk.mono {t : Task} (h : TaskOk store s t) (hle : Le s s') : TaskOk store s' t := by
  cases t with
  | runList names => exact fun k hk => hle.isSome (h k hk)
  | selectRunList k cb => exact hle.shelf k cb h
  | dependencies v rest => exact ⟨hle.isSome h.1, h.2⟩
  | selectDependency r cb => exact hle.shelf r cb h

def Task.Selects (k : Text) : Task → Prop
  | .selectRunList k' _ => k' = k
  | .selectDependency k' _ => k' = k
  | _ => False

def Selecting (c : Config) (k : Text) : Prop := ∃ t ∈ c.control.head?, t.Selects k

def Config.selection (c : Config) : Option (Cookbook × DepMeta) :=
  match c.control with
  | .selectRunList r cb :: _ => (c.state.info r).map (cb, ·)
  | .selectDependency r cb :: _ => (c.state.info r).map (cb, ·)
  | _ => none

def Processed (s : State) (p : Text × Json) : Prop :=
  ∃ m, s.info p.1 = some m ∧ (m.Flagged ∨
    ((s.onShelf p.1).isSome ∧ ∃ c, p.2 = .str c ∧ ∀ x ∈ constraints c, x ∈ m.constraint))

def Pending (control : List Task) (v : CookbookVersion) (p : Text × Json) : Prop :=
  ∃ rest, .dependencies v rest ∈ control ∧ p ∈ rest

lemma Processed.mono {p : Text × Json} (h : Processed s p) (hle : Le s s') : Processed s' p := by
  obtain ⟨m, hm, hc⟩ := h
  obtain ⟨m', hm', hp, hv, hn⟩ := hle.info _ m hm
  refine ⟨m', hm', ?_⟩
  rcases hc with hf | ⟨hs, c, hc, hx⟩
  · exact Or.inl (hf.imp hv hn)
  · exact Or.inr ⟨hle.onShelf_isSome hs, c, hc, fun x hxc => hp.subset (hx x hxc)⟩

def Settled (s : State) (control : List Task) (m : DepMeta) (cb : Cookbook) : Prop :=
  (m.noVersion = true ∧ cb.choose m.constraint.head? = .ok none) ∨
  (m.noVersion = false ∧ ∃ v depList, cb.choose m.constraint.head? = .ok (some v) ∧ m.version = v.version ∧
    v.depList = .ok depList ∧ ∀ p ∈ depList, Processed s p ∨ Pending control v p)

lemma Settled.mono {m : DepMeta} {control control' : List Task} (h : Settled s control m cb) (hle : Le s s')
    (hp : ∀ v p, Pending control v p → Processed s' p ∨ Pending control' v p) : Settled s' control' m cb := by
  rcases h with h | ⟨hn, v, depList, hc, hv, hd, ha⟩
  · exact Or.inl h
  · refine Or.inr ⟨hn, v, depList, hc, hv, hd, fun p hpd => ?_⟩
    rcases ha p hpd with hpr | hpe
    · exact Or.inl (hpr.mono hle)
    · exact hp v p hpe

structure Inv (store : Store) (runList : List Text) (env : List (Text × Text)) (c : Config) : Prop where
  basic : Basic store c.state
  tasks : ∀ t ∈ c.control, TaskOk store c.state t
  shape : ∀ t ∈ c.control.tail, ∀ k, ¬ t.Selects k
  selecting : ∀ k, Selecting c k → ∃ m, c.state.info k = some m ∧ ¬ m.Flagged
  settled : ∀ k cb m, c.state.onShelf k = some cb → c.state.info k = some m → ¬ Selecting c k →
    Settled c.state c.control m cb
  items : ∀ k ∈ runListRef runList, (∃ names, .runList names ∈ c.control ∧ k ∈ names) ∨
    (c.state.onShelf k).isSome ∨ ∃ m, c.state.info k = some m ∧ m.notFound = true
  start : Le (startState runList env) c.state

lemma constraints_of_present (hl : ∀ x ∈ l, newConstraint x.original = some [x])
    {c : Text} (h : constraintPresent l c = true) : ∃ x ∈ l, newConstraint c = some [x] := by
  obtain ⟨x, hx, ho⟩ := any_eq_true.mp h
  have ho' : x.original = c := by simpa using ho
  exact ⟨x, hx, ho' ▸ hl x hx⟩

lemma mem_appendConstraint (hl : ∀ x ∈ l, newConstraint x.original = some [x])
    (c : Text) : ∀ x ∈ constraints c, x ∈ appendConstraint l c := by
  intro x hx
  unfold appendConstraint
  split
  next hp =>
    obtain ⟨y, hy, hc⟩ := constraints_of_present hl hp
    obtain rfl : x = y := by simpa [constraints, hc] using hx
    exact hy
  · exact mem_append_right _ hx

section

variable {runList : List Text} {env : List (Text × Text)} {c d : Config}

variable {t : Task} {cb : Cookbook} {v : CookbookVersion} {n : ℕ} {control : List Task} {m : DepMeta}
  {p : Text × Json} {o : Option CookbookVersion}

lemma selects_of_task (h : t = .selectRunList r cb ∨ t = .selectDependency r cb) : t.Selects r := by
  rcases h with rfl | rfl <;> rfl

lemma taskOk_select (h : t = .selectRunList r cb ∨ t = .selectDependency r cb)
    (ht : TaskOk store s t) : s.onShelf r = some cb := by
  rcases h with rfl | rfl <;> exact ht

lemma Inv.edit (hi : Inv store runList env c) (h : Steps store ord c d) :
    d.state = c.state ∨ ∃ r m m', Edit store c.state r m m' d.state := by
  cases h with
  | runListDone => exact Or.inl rfl
  | dependenciesDone => exact Or.inl rfl
  | @runListVisit s s' n k names control o h => exact h.edit.imp_right fun he => ⟨k, he⟩
  | @dependencyVisit s s' n v r c2 rest control o h =>
    exact (h.edit (hi.basic.shelf_get r)).imp_right fun he => ⟨r, he⟩
  | @selectNone s s' n r cb task control ht h =>
    have hr := taskOk_select ht (hi.tasks task (by simp))
    exact Or.inr ⟨r, h.edit store (by simp [show s.onShelf r = some cb from hr])⟩
  | @selectSome s s' n r cb v depList task control ht h =>
    have hr := taskOk_select ht (hi.tasks task (by simp))
    exact Or.inr ⟨r, h.edit store (by simp [show s.onShelf r = some cb from hr])⟩

lemma Inv.le (hi : Inv store runList env c) (h : Steps store ord c d) : Le c.state d.state := by
  rcases hi.edit h with he | ⟨r, m, m', he⟩
  · rw [he]
    exact Le.refl _
  · exact he.le

lemma Inv.step_basic (hi : Inv store runList env c) (h : Steps store ord c d) : Basic store d.state := by
  rcases hi.edit h with he | ⟨r, m, m', he⟩
  · rw [he]
    exact hi.basic
  · exact he.basic hi.basic

lemma choose_spec {o : Option Constraint} (hg : store.get r = some cb)
    (hc : cb.choose o = .ok (some v)) : v ∈ cb.versions ∧ v.cookbookName = r := by
  have hv := Cookbook.choose_mem hc
  exact ⟨hv, (cb.cookbookName_eq v hv).trans (Store.get_mem hg).2⟩

lemma Inv.step_tasks (hi : Inv store runList env c) (h : Steps store ord c d) :
    ∀ t ∈ d.control, TaskOk store d.state t := by
  have hle := hi.le h
  have ho : ∀ t ∈ c.control, TaskOk store d.state t := fun t ht => (hi.tasks t ht).mono hle
  cases h with
  | runListDone => exact fun t ht => ho t (by simp [ht])
  | dependenciesDone => exact fun t ht => ho t (by simp [ht])
  | @runListVisit s s' n k names control o h =>
    have hr : TaskOk store s' (.runList names) := fun k' hk' =>
      ho (.runList (k :: names)) (by simp) k' (by simp [hk'])
    intro t htc
    rcases mem_append.mp htc with ht | ht
    · cases h with
      | skipped => simp at ht
      | notFound => simp at ht
      | @placed m cb hm hn hs hg =>
        obtain rfl : t = .selectRunList k cb := by simpa using ht
        simp only [TaskOk, onShelf_shelve_self, hs, getD_none]
    · rcases mem_cons.mp ht with rfl | ht
      · exact hr
      · exact ho t (by simp [ht])
  | @dependencyVisit s s' n v r c2 rest control o h =>
    have hr : TaskOk store s' (.dependencies v rest) := by
      obtain ⟨hk, hv, depList, hd, hp⟩ := ho (.dependencies v ((r, c2) :: rest)) (by simp)
      exact ⟨hk, hv, depList, hd, fun p hpr => hp p (by simp [hpr])⟩
    intro t htc
    rcases mem_append.mp htc with ht | ht
    · cases h with
      | flagged => simp at ht
      | notFound => simp at ht
      | present => simp at ht
      | @placed _ _ _ cb hc hm hf hk hs hp hin hot htr hsh =>
        obtain rfl : t = .selectDependency r cb := by simpa using ht
        simp only [TaskOk, onShelf_of_shelve hsh, onShelf_shelve_self]
        rcases hs with hs | hs
        · simp [hs]
        · simp [hs.1]
    · rcases mem_cons.mp ht with rfl | ht
      · exact hr
      · exact ho t (by simp [ht])
  | selectNone => exact fun t ht => ho t (by simp [ht])
  | @selectSome s s' n r cb v depList task control ht h hd =>
    have hg := hi.basic.shelf_get r cb (taskOk_select ht (hi.tasks task (by simp)))
    intro t htc
    rcases mem_cons.mp htc with rfl | htc
    · cases h with
      | version hm hc hin =>
        obtain ⟨hv, hnm⟩ := choose_spec hg hc
        refine ⟨?_, ⟨cb, by rw [hnm, hg], hv⟩, depList, hd, fun p hp => (ord.deps_perm n depList).subset hp⟩
        rw [hnm, hin]
        rfl
    · exact ho t (by simp [htc])

lemma Inv.step_shape (hi : Inv store runList env c) (h : Steps store ord c d) :
    ∀ t ∈ d.control.tail, ∀ k, ¬ t.Selects k := by
  have htl : ∀ t ∈ c.control.tail, ∀ k, ¬ t.Selects k := hi.shape
  cases h with
  | runListDone => exact fun t ht => htl t (mem_of_mem_tail ht)
  | dependenciesDone => exact fun t ht => htl t (mem_of_mem_tail ht)
  | selectNone => exact fun t ht => htl t (mem_of_mem_tail ht)
  | selectSome => exact fun t ht => htl t (by simpa using ht)
  | @runListVisit s s' n k names control o h =>
    intro t ht k'
    cases o with
    | none => exact htl t (by simpa using ht) k'
    | some cb =>
      rcases mem_cons.mp (by simpa using ht : t ∈ .runList names :: control) with rfl | ht
      · exact id
      · exact htl t (by simpa using ht) k'
  | @dependencyVisit s s' n v r c2 rest control o h =>
    intro t ht k'
    cases o with
    | none => exact htl t (by simpa using ht) k'
    | some cb =>
      rcases mem_cons.mp (by simpa using ht : t ∈ .dependencies v rest :: control) with rfl | ht
      · exact id
      · exact htl t (by simpa using ht) k'

lemma selecting_cons : Selecting ⟨s, n, t :: control⟩ k ↔ t.Selects k := by
  simp [Selecting]

lemma Inv.selection_eq (hi : Inv store runList env c) (hk : Selecting c k)
    (hs : c.state.onShelf k = some cb) (hm : c.state.info k = some m) : c.selection = some (cb, m) := by
  obtain ⟨s, n, control⟩ := c
  cases control with
  | nil => simp [Selecting] at hk
  | cons t control =>
    have ht := hi.tasks t (by simp)
    have hsl := selecting_cons.mp hk
    cases t with
    | selectRunList r cb' =>
      obtain rfl : r = k := hsl
      obtain rfl := some.inj (ht.symm.trans hs)
      simp [Config.selection, hm]
    | selectDependency r cb' =>
      obtain rfl : r = k := hsl
      obtain rfl := some.inj (ht.symm.trans hs)
      simp [Config.selection, hm]
    | runList names => exact absurd hsl id
    | dependencies v rest => exact absurd hsl id

lemma Inv.not_selecting_tail {n n' : ℕ}
    (hi : Inv store runList env ⟨s, n, t :: control⟩) : ¬ Selecting ⟨s', n', control⟩ k := by
  rintro ⟨t', ht', hk⟩
  exact hi.shape t' (mem_of_mem_head? ht') k hk

lemma Inv.step_selecting (hi : Inv store runList env c) (h : Steps store ord c d) (hk : Selecting d k) :
    ∃ m, d.state.info k = some m ∧ ¬ m.Flagged := by
  cases h with
  | runListDone => exact absurd hk hi.not_selecting_tail
  | dependenciesDone => exact absurd hk hi.not_selecting_tail
  | selectNone => exact absurd hk hi.not_selecting_tail
  | selectSome => exact absurd (selecting_cons.mp hk) id
  | runListVisit h =>
    cases h with
    | skipped => exact absurd (selecting_cons.mp hk) id
    | notFound => exact absurd (selecting_cons.mp hk) id
    | @placed m cb hm hn hs hg =>
      obtain rfl : _ = k := selecting_cons.mp hk
      refine ⟨m, by rw [info_shelve, hm], ?_⟩
      have hv := (hi.basic.offShelf _ m hm hs).2
      simp [DepMeta.Flagged, hn, hv]
  | dependencyVisit h =>
    cases h with
    | flagged => exact absurd (selecting_cons.mp hk) id
    | notFound => exact absurd (selecting_cons.mp hk) id
    | present => exact absurd (selecting_cons.mp hk) id
    | placed hc hm hf hkr hs hp hin =>
      obtain rfl : _ = k := selecting_cons.mp hk
      exact ⟨_, hin, hf⟩

lemma Visit.processed {c2 : Json} {o : Option Cookbook} (h : Visit store s k r c2 s' o)
    (hb : Basic store s) : Processed s' (r, c2) := by
  have hok : ∀ m, m = (s.info r).getD DepMeta.new → ∀ x ∈ m.constraint, newConstraint x.original = some [x] := by
    rintro m rfl
    cases hr : s.info r with
    | none => simp [DepMeta.new, Noun.new]
    | some m => exact hb.constraint_ok r m hr
  cases h with
  | flagged hm hf => exact ⟨_, hm, Or.inl hf⟩
  | notFound hc hm hf hk hs hg hi => exact ⟨_, hi, Or.inl (Or.inr rfl)⟩
  | present hc hm hf hk hs ht hp hi ho htr hsh =>
    refine ⟨_, hi, Or.inr ⟨by simp [onShelf_of_cbShelf hsh, hs], _, hc, ?_⟩⟩
    obtain ⟨x, hx, hn⟩ := constraints_of_present (hok _ hm) hp
    simpa [constraints, hn] using hx
  | placed hc hm hf hk hs hp hi ho htr hsh =>
    refine ⟨_, hi, Or.inr ⟨?_, _, hc, mem_appendConstraint (hok _ hm) _⟩⟩
    simp [onShelf_of_shelve hsh, onShelf_shelve_self]

lemma Pending.tail (h : Pending (t :: control) v p) (ht : ∀ rest, t ≠ .dependencies v rest) : Pending control v p := by
  obtain ⟨rest, hm, hp⟩ := h
  rcases mem_cons.mp hm with he | hm
  · exact absurd he.symm (ht rest)
  · exact ⟨rest, hm, hp⟩

lemma Pending.append (h : Pending control v p) (control' : List Task) : Pending (control' ++ control) v p := by
  obtain ⟨rest, hm, hp⟩ := h
  exact ⟨rest, mem_append_right _ hm, hp⟩

lemma Steps.pending_or_visit (h : Steps store ord c d) (hp : Pending c.control v p) : Pending d.control v p ∨
      ∃ n rest control o, c.control = .dependencies v (p :: rest) :: control ∧
        Visit store c.state v.cookbookName p.1 p.2 d.state o ∧
        d = ⟨d.state, n, (o.map (Task.selectDependency p.1)).toList ++ .dependencies v rest :: control⟩ := by
  cases h with
  | runListDone => exact Or.inl (hp.tail (by simp))
  | dependenciesDone =>
    obtain ⟨rest, hm, hp⟩ := hp
    rcases mem_cons.mp hm with he | hm
    · obtain ⟨rfl, rfl⟩ := Task.dependencies.inj he
      simp at hp
    · exact Or.inl ⟨rest, hm, hp⟩
  | selectNone ht => exact Or.inl (hp.tail (by rcases ht with rfl | rfl <;> simp))
  | selectSome ht =>
    exact Or.inl (Pending.append (hp.tail (by rcases ht with rfl | rfl <;> simp)) [_])
  | @runListVisit s s' n k names control o h =>
    exact Or.inl (((hp.tail (by simp)).append [.runList names]).append _)
  | @dependencyVisit s s' n w r c2 rest control o h =>
    obtain ⟨rest', hm, hp⟩ := hp
    rcases mem_cons.mp hm with he | hm
    · obtain ⟨rfl, rfl⟩ := Task.dependencies.inj he
      rcases mem_cons.mp hp with rfl | hp
      · exact Or.inr ⟨n, rest, control, o, rfl, h, rfl⟩
      · exact Or.inl (Pending.append ⟨rest, by simp, hp⟩ _)
    · exact Or.inl (Pending.append ⟨rest', by simp [hm], hp⟩ _)

lemma Steps.pending (hi : Inv store runList env c) (h : Steps store ord c d) (hp : Pending c.control v p) : Processed d.state p ∨ Pending d.control v p := by
  rcases h.pending_or_visit hp with hp | ⟨_, _, _, _, -, hv, -⟩
  · exact Or.inr hp
  · exact Or.inl (hv.processed hi.basic)

lemma Select.other (h : Select s r cb s' o) (hk : k ≠ r) : s'.info k = s.info k := by
  cases h with
  | noVersion _ _ _ ho => exact ho k hk
  | version _ _ _ ho => exact ho k hk

lemma select_old {task : Task} {cb₀ cb : Cookbook} (ht : task = .selectRunList r cb₀ ∨ task = .selectDependency r cb₀)
    (hok : TaskOk store s task) (h : Select s r cb₀ s' o) (hs : s'.onShelf k = some cb) (hm : s'.info k = some m) :
    s.onShelf k = some cb ∧ ((¬ Selecting ⟨s, n, task :: control⟩ k ∧ s.info k = some m) ∨
      (Selecting ⟨s, n, task :: control⟩ k ∧ Select s k cb s' o)) := by
  rw [onShelf_of_cbShelf (by cases h <;> assumption : s'.cbShelf = s.cbShelf)] at hs
  refine ⟨hs, ?_⟩
  by_cases hkr : k = r
  · subst hkr
    obtain rfl : cb₀ = cb := some.inj ((taskOk_select ht hok).symm.trans hs)
    exact Or.inr ⟨selecting_cons.mpr (selects_of_task ht), h⟩
  · refine Or.inl ⟨fun hsl => hkr ?_, (h.other hkr).symm.trans hm⟩
    rcases ht with rfl | rfl <;> exact (selecting_cons.mp hsl).symm

def Entered (ord : MapOrder) (d : Config) (v : CookbookVersion) : Prop :=
  ∃ n depList control, v.depList = .ok depList ∧ d.control = .dependencies v (ord.deps n depList) :: control

lemma Inv.step_old (hi : Inv store runList env c) (h : Steps store ord c d)
    (hs : d.state.onShelf k = some cb) (hm : d.state.info k = some m) (hk : ¬ Selecting d k) :
    c.state.onShelf k = some cb ∧ ((¬ Selecting c k ∧ c.state.info k = some m) ∨
      (Selecting c k ∧ ∃ o, Select c.state k cb d.state o ∧ ∀ v, o = some v → Entered ord d v)) := by
  cases h with
  | runListDone => exact ⟨hs, Or.inl ⟨by simp [selecting_cons, Task.Selects], hm⟩⟩
  | dependenciesDone => exact ⟨hs, Or.inl ⟨by simp [selecting_cons, Task.Selects], hm⟩⟩
  | @runListVisit s s' n k₀ names control o h =>
    have hns : ¬ Selecting ⟨s, n, .runList (k₀ :: names) :: control⟩ k := by
      simp [selecting_cons, Task.Selects]
    cases h with
    | skipped => exact ⟨hs, Or.inl ⟨hns, hm⟩⟩
    | notFound _ hs₀ _ _ ho _ hsh =>
      rw [onShelf_of_cbShelf hsh] at hs
      have hne : k ≠ k₀ := by
        rintro rfl
        simp [hs₀] at hs
      exact ⟨hs, Or.inl ⟨hns, (ho k hne).symm.trans hm⟩⟩
    | @placed _ cb₀ =>
      have hne : k ≠ k₀ := by
        rintro rfl
        exact hk (selecting_cons.mpr rfl)
      exact ⟨(onShelf_shelve_ne s cb₀ hne).symm.trans hs,
        Or.inl ⟨hns, (info_shelve _ _ _ _).symm.trans hm⟩⟩
  | @dependencyVisit s s' n v r c2 rest control o h =>
    have hns : ¬ Selecting ⟨s, n, .dependencies v ((r, c2) :: rest) :: control⟩ k := by
      simp [selecting_cons, Task.Selects]
    cases h with
    | flagged => exact ⟨hs, Or.inl ⟨hns, hm⟩⟩
    | notFound _ _ _ _ hs₀ _ _ ho _ hsh =>
      rw [onShelf_of_cbShelf hsh] at hs
      have hne : k ≠ r := by
        rintro rfl
        simp [hs₀] at hs
      exact ⟨hs, Or.inl ⟨hns, (ho k hne).symm.trans hm⟩⟩
    | present _ hm₀ _ _ hs₀ _ _ hin ho _ hsh =>
      rw [onShelf_of_cbShelf hsh] at hs
      refine ⟨hs, Or.inl ⟨hns, ?_⟩⟩
      by_cases hkr : k = r
      · subst hkr
        obtain ⟨m₁, hm₁, -⟩ := hi.basic.shelf_info k _ hs₀
        rw [hin, hm₀, hm₁] at hm
        rwa [← hm]
      · exact (ho k hkr).symm.trans hm
    | @placed _ _ _ cb₀ _ _ _ _ _ _ _ ho _ hsh =>
      have hne : k ≠ r := by
        rintro rfl
        exact hk (selecting_cons.mpr rfl)
      rw [onShelf_of_shelve hsh, onShelf_shelve_ne s cb₀ hne] at hs
      exact ⟨hs, Or.inl ⟨hns, (ho k hne).symm.trans hm⟩⟩
  | @selectNone s s' n r cb₀ task control ht h =>
    obtain ⟨hs, hc⟩ := select_old ht (hi.tasks task (by simp)) h hs hm
    exact ⟨hs, hc.imp_right fun hsl => ⟨hsl.1, none, hsl.2, by simp⟩⟩
  | @selectSome s s' n r cb₀ v depList task control ht h hd =>
    obtain ⟨hs, hc⟩ := select_old ht (hi.tasks task (by simp)) h hs hm
    refine ⟨hs, hc.imp_right fun hsl => ⟨hsl.1, some v, hsl.2, ?_⟩⟩
    rintro _ ⟨⟩
    exact ⟨n, depList, control, hd, rfl⟩

lemma Inv.step_settled (hi : Inv store runList env c) (h : Steps store ord c d)
    (hs : d.state.onShelf k = some cb) (hm : d.state.info k = some m) (hk : ¬ Selecting d k) :
    Settled d.state d.control m cb := by
  obtain ⟨hs₀, ⟨hk₀, hm₀⟩ | ⟨hk₀, o, hsl, he⟩⟩ := hi.step_old h hs hm hk
  · exact (hi.settled k cb m hs₀ hm₀ hk₀).mono (hi.le h) fun _ _ hp => h.pending hi hp
  · obtain ⟨m₁, hm₁, hf₁⟩ := hi.selecting k hk₀
    cases hsl with
    | noVersion _ hc hin =>
      obtain rfl := some.inj (hin.symm.trans hm)
      exact Or.inl ⟨rfl, hc⟩
    | @version m₀ v hm₀ hc hin =>
      obtain rfl := some.inj (hin.symm.trans hm)
      obtain rfl := some.inj (hm₀.symm.trans hm₁)
      obtain ⟨n, depList, control, hd, hcn⟩ := he v rfl
      refine Or.inr ⟨Bool.eq_false_iff.mpr fun hn => hf₁ (Or.inl hn), v, depList, hc, rfl, hd, fun p hp => ?_⟩
      rw [hcn]
      exact Or.inr ⟨_, mem_cons_self, (ord.deps_perm n depList).symm.subset hp⟩

lemma Inv.step_items (hi : Inv store runList env c) (h : Steps store ord c d) (hk : k ∈ runListRef runList) :
    (∃ names, .runList names ∈ d.control ∧ k ∈ names) ∨
      (d.state.onShelf k).isSome ∨ ∃ m, d.state.info k = some m ∧ m.notFound = true := by
  have hle := hi.le h
  rcases hi.items k hk with ⟨names, hm, hn⟩ | hs | ⟨m, hm, hn⟩
  · cases h with
    | runListDone =>
      rcases mem_cons.mp hm with he | hm
      · obtain rfl := Task.runList.inj he
        simp at hn
      · exact Or.inl ⟨names, hm, hn⟩
    | dependenciesDone => exact Or.inl ⟨names, by simpa using hm, hn⟩
    | dependencyVisit => exact Or.inl ⟨names, by simpa using hm, hn⟩
    | selectNone ht =>
      refine Or.inl ⟨names, ?_, hn⟩
      rcases ht with rfl | rfl <;> simpa using hm
    | selectSome ht =>
      refine Or.inl ⟨names, ?_, hn⟩
      rcases ht with rfl | rfl <;> simpa using hm
    | @runListVisit s s' n k₀ names₀ control o h =>
      rcases mem_cons.mp hm with he | hm
      · obtain rfl := Task.runList.inj he
        rcases mem_cons.mp hn with rfl | hn
        · right
          cases h with
          | skipped hm hs => exact hs.imp_right fun hn => ⟨_, hm, hn⟩
          | notFound _ _ _ hin => exact Or.inr ⟨_, hin, rfl⟩
          | placed => exact Or.inl (by simp [onShelf_shelve_self])
        · exact Or.inl ⟨names₀, by simp, hn⟩
      · exact Or.inl ⟨names, by simp [hm], hn⟩
  · exact Or.inr (Or.inl (hle.onShelf_isSome hs))
  · obtain ⟨m', hm', -, -, hn'⟩ := hle.info k m hm
    exact Or.inr (Or.inr ⟨m', hm', hn' hn⟩)

theorem Inv.preserved (hi : Inv store runList env c) (h : Steps store ord c d) : Inv store runList env d where
  basic := hi.step_basic h
  tasks := hi.step_tasks h
  shape := hi.step_shape h
  selecting _ hk := hi.step_selecting h hk
  settled _ _ _ hs hm hk := hi.step_settled h hs hm hk
  items _ hk := hi.step_items h hk
  start := hi.start.trans (hi.le h)

end

end Goiardi.Cookbooks
