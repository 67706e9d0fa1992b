import Goiardi.Cookbooks.Progress

/-! The recursion of the walk is finite unless dependency texts that are never found again close a cycle. -/

namespace Goiardi.Cookbooks

open GVersion Validation Machine List

variable {store : Store} {ord : MapOrder} {runList : List Text} {env : List (Text × Text)} {k r : Text}
  {s s' s'' : State} {n : ℕ} {c d : Config}

def GoodText (t : Text) : Prop := ∃ x, newConstraint t = some [x]

lemma goodText_iff {t : Text} : GoodText t ↔ (newConstraint t).any (·.length = 1) = true := by
  cases h : newConstraint t <;> simp [GoodText, h, length_eq_one_iff]

instance (t : Text) : Decidable (GoodText t) := decidable_of_iff _ goodText_iff.symm

lemma GoodText.present {t : Text} (h : GoodText t) (l : List Constraint) :
    constraintPresent (appendConstraint l t) t = true := by
  obtain ⟨x, hx⟩ := h
  unfold appendConstraint
  split
  · assumption
  · refine any_eq_true.mpr ⟨x, by simp [constraints, hx], ?_⟩
    simp [parseSingle_original (newConstraint_single.mp hx).2]

def BadStep (store : Store) (h : Text → Option Constraint) (k r : Text) : Prop :=
  ∃ cb v l t, store.get k = some cb ∧ cb.choose (h k) = .ok (some v) ∧ v.depList = .ok l ∧
    (r, .str t) ∈ l ∧ ¬ GoodText t

def State.head (s : State) (k : Text) : Option Constraint := (s.constraintsOf k).head?

lemma constraintsOf_eq {m : DepMeta} (h : s.info k = some m) : s.constraintsOf k = m.constraint := by
  simp [State.constraintsOf, h]

lemma Select.constraintsOf {cb : Cookbook} {o : Option CookbookVersion} (h : Select s r cb s' o) (k : Text) :
    s'.constraintsOf k = s.constraintsOf k := by
  by_cases hk : k = r
  · subst hk
    cases h with
    | noVersion hm hc hin => rw [constraintsOf_eq hm, constraintsOf_eq hin]
    | version hm hc hin => rw [constraintsOf_eq hm, constraintsOf_eq hin]
  · simp [State.constraintsOf, h.other hk]

section

variable {v : CookbookVersion} {c2 : Json} {rest : JsonMap} {control : List Task}
  (hi : Inv store runList env ⟨s, n, .dependencies v ((r, c2) :: rest) :: control⟩)

include hi

lemma Inv.names_of_frame : v.cookbookName ∈ storeNames store ∧ (r, c2) ∈ depPairs store := by
  obtain ⟨-, ⟨cb, hg, hv⟩, l, hl, hs⟩ := hi.tasks _ mem_cons_self
  exact ⟨mem_storeNames_of_get hg, mem_depPairs (Store.get_mem hg).1 hv hl (hs _ mem_cons_self)⟩

lemma Inv.not_replaced {cb : Cookbook} {m : DepMeta} {w : CookbookVersion} {x : Option Constraint}
    (hm : m = (s.info r).getD DepMeta.new) (hf : ¬ m.Flagged)
    (hs : s.onShelf r = some cb ∨ (s.onShelf r = none ∧ store.get r = some cb))
    (hx : x = m.constraint.head?) (hc : cb.choose x = .ok (some w)) : m.version = [] ∨ m.version = w.version := by
  cases hr : s.info r with
  | none =>
    rw [hr] at hm
    exact Or.inl (hm ▸ rfl)
  | some m₀ =>
    obtain rfl : m = m₀ := by rw [hm, hr]; rfl
    rcases hs with hs | hs
    · have hns : ¬ Selecting ⟨s, n, .dependencies v ((r, c2) :: rest) :: control⟩ r := by
        simp [selecting_cons, Task.Selects]
      rcases hi.settled r cb m hs hr hns with ⟨hn, -⟩ | ⟨-, v₀, l, hc₀, hv₀, -⟩
      · exact absurd (Or.inl hn) hf
      · rw [hx, hc₀] at hc
        rw [hv₀, Option.some.inj (Except.ok.inj hc)]
        exact Or.inr rfl
    · exact Or.inl (hi.basic.offShelf r m hr hs.1).1

lemma Inv.visit_select {cb : Cookbook} {o : Option CookbookVersion}
    (hv : Visit store s v.cookbookName r c2 s' (some cb)) (hsl : Select s' r cb s'' o) :
    measure store s'' < measure store s ∨ (measure store s'' ≤ measure store s ∧ ∃ t, c2 = .str t ∧ ¬ GoodText t) := by
  have hle : Le s s' := by
    rcases hv.edit (hi.basic.shelf_get r) with rfl | ⟨m, m', he⟩
    · exact Le.refl _
    · exact he.le
  obtain ⟨hk, hpa⟩ := hi.names_of_frame
  have hr := mem_storeNames_of_pair hpa
  cases hv with
  | @placed _ t m _ hc hm hf hkr hs hp hin hot htr hsh =>
    subst hc
    have hs' : (s'.onShelf r).isSome := by simp [onShelf_of_shelve hsh, onShelf_shelve_self]
    have hl' : Le s' s'' := by
      obtain ⟨m₁, m₂, he⟩ := hsl.edit store hs'
      exact he.le
    have hl'' := hle.trans hl'
    by_cases hA : missingTexts store s'' < missingTexts store s
    · exact Or.inl (measure_lt_of_texts hA)
    · have hA' := Nat.not_lt.mp hA
      have hAle := hl''.missingTexts_le store
      have ho : s.constraintsOf r = m.constraint := by
        rw [hm, State.constraintsOf]
        cases s.info r <;> rfl
      have hh : (m.addConstraint t).constraint.head? = m.constraint.head? := by
        have he := hl''.head_eq hA' hr
        rwa [hsl.constraintsOf, constraintsOf_eq hin, ho] at he
      have hsb : ∀ w u, u ∈ s'.targets w → u ∈ s''.targets w := by
        intro w u hu
        cases hsl with
        | noVersion _ _ _ _ ht => rwa [ht w]
        | @version m₁ v₁ hm₁ hc₁ _ _ ht hrp =>
          by_cases hw : w = r
          · subst hw
            rcases hrp with hrp | ⟨hne, hvr, -⟩
            · rwa [hrp]
            · obtain rfl := Option.some.inj (hm₁.symm.trans hin)
              rcases hi.not_replaced hm hf hs hh hc₁ with hv₀ | hv₀
              · exact absurd hv₀ hne
              · exact absurd hv₀ hvr
          · rwa [ht w hw]
      have hg : ∀ w u, u ∈ s.targets w → u ∈ s''.targets w := fun w u hu =>
        hsb w u ((htr w u).mpr (Or.inl hu))
      by_cases hed : r ∈ s.targets v.cookbookName
      · refine Or.inr ⟨measure_le hAle (missingEdges_le_of_subset hg), t, rfl, fun hgd => hA ?_⟩
        obtain ⟨m₀, hm₀, hcs⟩ := hi.basic.targets_ok _ _ hed
        obtain rfl : m = m₀ := by rw [hm, hm₀]; rfl
        have hon : s.onShelf r = some cb := by
          rcases hs with hs | hs
          · exact hs
          · rcases hcs with hsm | hn
            · simp [hs.1] at hsm
            · exact absurd (Or.inr hn) hf
        have hnp : ¬ constraintPresent m.constraint t = true := fun hpr => hp hon ⟨hed, hpr⟩
        refine hl''.missingTexts_lt_of_present (mem_depTexts hpa) (by rwa [ho]) ?_
        rw [hsl.constraintsOf, constraintsOf_eq hin]
        exact hgd.present _
      · have hnw : r ∈ s''.targets v.cookbookName := hsb _ _ ((htr _ _).mpr (Or.inr ⟨rfl, rfl⟩))
        exact Or.inl (measure_lt_of_edges hAle (missingEdges_lt_of_new hg hk hr hed hnw))

lemma Inv.visit_none (hv : Visit store s v.cookbookName r c2 s' none) : measure store s' ≤ measure store s := by
  have hle : Le s s' := by
    rcases hv.edit (hi.basic.shelf_get r) with rfl | ⟨m, m', he⟩
    · exact Le.refl _
    · exact he.le
  refine measure_le (hle.missingTexts_le store) (missingEdges_le_of_subset fun w t ht => ?_)
  cases hv with
  | flagged => exact ht
  | notFound _ _ _ _ _ _ _ _ htr => exact (htr w t).mpr (Or.inl ht)
  | present _ _ _ _ _ _ _ _ _ htr => exact (htr w t).mpr ht

end

structure Terminating (store : Store) (ord : MapOrder) (runList : List Text) (env : List (Text × Text))
    (J : Config → Prop) : Prop where
  accepted : store.Accepted
  inv : ∀ c, J c → Inv store runList env c
  preserved : ∀ c d, J c → Steps store ord c d → J d
  choice : ∀ c, J c → ChoiceOk c
  acyclic : ∀ c, J c → ∀ k, ¬ Relation.TransGen (BadStep store c.state.head) k k

def Done (store : Store) (ord : MapOrder) (J : Config → Prop) (c : Config) (control : List Task) : Prop :=
  ∃ d, Reaches (step store ord) c d ∧ J d ∧ d.control = control ∧ Le c.state d.state ∧
    measure store d.state ≤ measure store c.state

variable {J : Config → Prop}

lemma Terminating.step (T : Terminating store ord runList env J) (hJ : J c) (hc : c.control ≠ []) :
    ∃ d, Cookbooks.step store ord c = .inr d ∧ Steps store ord c d ∧ J d := by
  obtain ⟨d, hd⟩ := (T.inv c hJ).progress T.accepted (T.choice c hJ) hc
  have hs := steps_of_step hd
  exact ⟨d, hd, hs, T.preserved c d hJ hs⟩

lemma Done.head {control : List Task} (hd : Reaches (step store ord) c d) (hle : Le c.state d.state)
    (hm : measure store d.state ≤ measure store c.state) (h : Done store ord J d control) :
    Done store ord J c control := by
  obtain ⟨e, he, hJ, hc, hl', hm'⟩ := h
  exact ⟨e, hd.trans he, hJ, hc, hle.trans hl', hm'.trans hm⟩

def Ready (store : Store) (ord : MapOrder) (J : Config → Prop) (h : Text → Option Constraint) (μ : ℕ)
    (r : Text) : Prop :=
  ∀ c cb v rest control, J c → c.control = .dependencies v rest :: control → measure store c.state = μ →
    (∀ k ∈ storeNames store, c.state.head k = h k) → store.get r = some cb →
    cb.choose (h r) = .ok (some v) → Done store ord J c control

lemma Le.head_of_measure (hle : Le s s') (hm : measure store s ≤ measure store s')
    {h : Text → Option Constraint} (hs : ∀ k ∈ storeNames store, s.head k = h k) :
    ∀ k ∈ storeNames store, s'.head k = h k := fun k hk =>
  (hle.head_eq (not_lt.mp fun hlt => (measure_lt_of_texts hlt).not_ge hm) hk).trans (hs k hk)

section

variable (T : Terminating store ord runList env J) {control : List Task}

include T

lemma Terminating.visit {v : CookbookVersion} {c2 : Json} {rest : JsonMap}
    (hJ : J ⟨s, n, .dependencies v ((r, c2) :: rest) :: control⟩) : ∃ s' o, Visit store s v.cookbookName r c2 s' o ∧
      Reaches (Cookbooks.step store ord) ⟨s, n, .dependencies v ((r, c2) :: rest) :: control⟩
        ⟨s', n, (o.map (Task.selectDependency r)).toList ++ .dependencies v rest :: control⟩ ∧
      J ⟨s', n, (o.map (Task.selectDependency r)).toList ++ .dependencies v rest :: control⟩ := by
  obtain ⟨d, hd, hs, hJd⟩ := T.step hJ (by simp)
  cases hs with
  | dependencyVisit h => exact ⟨_, _, h, .single hd, hJd⟩
  | selectNone ht => exact absurd ht (by simp)
  | selectSome ht => exact absurd ht (by simp)

lemma Terminating.select {cb : Cookbook} {task : Task}
    (ht : task = .selectRunList r cb ∨ task = .selectDependency r cb) (hJ : J ⟨s, n, task :: control⟩) :
    (∃ s', Select s r cb s' none ∧
      Reaches (Cookbooks.step store ord) ⟨s, n, task :: control⟩ ⟨s', n, control⟩ ∧ J ⟨s', n, control⟩) ∨
    ∃ s' v l, Select s r cb s' (some v) ∧
      Reaches (Cookbooks.step store ord) ⟨s, n, task :: control⟩ ⟨s', n + 1, .dependencies v l :: control⟩ ∧
      J ⟨s', n + 1, .dependencies v l :: control⟩ := by
  have heq : ∀ {r' : Text} {cb' : Cookbook}, (task = .selectRunList r' cb' ∨ task = .selectDependency r' cb') →
      r' = r ∧ cb' = cb := by
    rintro r' cb' ht'
    rcases ht with rfl | rfl <;> simpa [eq_comm] using ht'
  obtain ⟨d, hd, hs, hJd⟩ := T.step hJ (by simp)
  cases hs with
  | selectNone ht' h =>
    obtain ⟨rfl, rfl⟩ := heq ht'
    exact Or.inl ⟨_, h, .single hd, hJd⟩
  | selectSome ht' h =>
    obtain ⟨rfl, rfl⟩ := heq ht'
    exact Or.inr ⟨_, _, _, h, .single hd, hJd⟩
  | runListDone => exact absurd ht (by simp)
  | runListVisit => exact absurd ht (by simp)
  | dependenciesDone => exact absurd ht (by simp)
  | dependencyVisit => exact absurd ht (by simp)

lemma Terminating.le_of_reaches (hJ : J c) (h : Reaches (Cookbooks.step store ord) c d) : J d ∧ Le c.state d.state := by
  refine h.invariant (P := fun d => J d ∧ Le c.state d.state) ?_ ⟨hJ, Le.refl _⟩
  rintro e f ⟨hJe, hle⟩ he
  have hs := steps_of_step he
  exact ⟨T.preserved e f hJe hs, hle.trans ((T.inv e hJe).le hs)⟩

lemma Terminating.level {μ : ℕ} {h : Text → Option Constraint} {rest : JsonMap}
    (ho : ∀ c v rest control, J c → c.control = .dependencies v rest :: control →
      measure store c.state < μ → Done store ord J c control)
    (hrd : ∀ r t, (r, .str t) ∈ rest → ¬ GoodText t → Ready store ord J h μ r) {v : CookbookVersion}
    (hJ : J ⟨s, n, .dependencies v rest :: control⟩) (hm : measure store s = μ)
    (hh : ∀ k ∈ storeNames store, s.head k = h k) :
    Done store ord J ⟨s, n, .dependencies v rest :: control⟩ control := by
  induction rest generalizing s n with
  | nil =>
    have hd : Cookbooks.step store ord ⟨s, n, .dependencies v [] :: control⟩ = .inr ⟨s, n, control⟩ := rfl
    exact ⟨_, .single hd, T.preserved _ _ hJ .dependenciesDone, rfl, Le.refl _, le_rfl⟩
  | cons p rest ih =>
    obtain ⟨r, c2⟩ := p
    -- Once the walk is back at the rest of this frame, it goes on there at this measure or below it.
    have hr : ∀ e, Reaches (Cookbooks.step store ord) ⟨s, n, .dependencies v ((r, c2) :: rest) :: control⟩ e →
        e.control = .dependencies v rest :: control → measure store e.state ≤ μ →
        Done store ord J ⟨s, n, .dependencies v ((r, c2) :: rest) :: control⟩ control := by
      rintro ⟨s₁, n₁, control₁⟩ he rfl hμ
      obtain ⟨hJe, hle⟩ := T.le_of_reaches hJ he
      refine Done.head he hle (hm ▸ hμ) ?_
      rcases hμ.lt_or_eq with hlt | heq
      · exact ho _ _ _ _ hJe rfl hlt
      · exact ih (fun r' t hr' => hrd r' t (by simp [hr'])) hJe heq
          (hle.head_of_measure (by rw [hm, heq]) hh)
    have hi := T.inv _ hJ
    obtain ⟨s₁, o, hv, hr₁, hJ₁⟩ := T.visit hJ
    cases o with
    | none => exact hr _ hr₁ rfl (hm ▸ hi.visit_none hv)
    | some cb =>
      rcases T.select (Or.inr rfl) hJ₁ with ⟨s₂, hs, hr₂, hJ₂⟩ | ⟨s₂, v', l, hs, hr₂, hJ₂⟩
      · refine hr _ (hr₁.trans hr₂) rfl ?_
        rcases hi.visit_select hv hs with hlt | ⟨hle, -⟩
        · exact hm ▸ hlt.le
        · exact hm ▸ hle
      · have hin : Done store ord J ⟨s₂, n + 1, .dependencies v' l :: .dependencies v rest :: control⟩
            (.dependencies v rest :: control) ∧ measure store s₂ ≤ μ := by
          rcases hi.visit_select hv hs with hlt | ⟨hle, t, rfl, hb⟩
          · exact ⟨ho _ _ _ _ hJ₂ rfl (hm ▸ hlt), hm ▸ hlt.le⟩
          · refine ⟨?_, hm ▸ hle⟩
            rcases hle.lt_or_eq with hlt | heq
            · exact ho _ _ _ _ hJ₂ rfl (hm ▸ hlt)
            · have hl₂ := (T.le_of_reaches hJ (hr₁.trans hr₂)).2
              have hh₂ := hl₂.head_of_measure heq.ge hh
              have hg : store.get r = some cb :=
                (T.inv _ hJ₁).basic.shelf_get r cb ((T.inv _ hJ₁).tasks _ mem_cons_self)
              refine hrd r t (by simp) hb _ cb v' l _ hJ₂ rfl (heq.trans hm) hh₂ hg ?_
              rw [← hh₂ r (mem_storeNames_of_get hg), State.head, hs.constraintsOf]
              cases hs with
              | version hm₁ hc => rwa [constraintsOf_eq hm₁]
        obtain ⟨⟨e, he, hJe, hce, hle, hme⟩, hμ⟩ := hin
        exact hr e ((hr₁.trans hr₂).trans he) hce (hme.trans hμ)

theorem Terminating.frame_done : ∀ μ c v rest control, J c → c.control = .dependencies v rest :: control →
    measure store c.state = μ → Done store ord J c control := by
  intro μ
  induction μ using Nat.strong_induction_on with
  | _ μ ho =>
    have ho' : ∀ c v rest control, J c → c.control = .dependencies v rest :: control →
        measure store c.state < μ → Done store ord J c control :=
      fun c v rest control hJ hc hlt => ho _ hlt c v rest control hJ hc rfl
    intro c v rest control hJ hc hμ
    have hwf := DepthFirst.wellFounded_of_acyclic (storeNames store) (R := BadStep store c.state.head)
      (fun k r ⟨cb, _, _, _, hg, _⟩ => mem_storeNames_of_get hg) (T.acyclic c hJ)
    have hr : ∀ r, Ready store ord J c.state.head μ r := by
      intro r
      induction r using hwf.induction with
      | _ r ih =>
        rintro ⟨s, n, control'⟩ cb v' rest' control hJ' rfl hμ' hh hg hch
        refine T.level ho' (fun r' t hr' hb => ih r' ?_) hJ' hμ' hh
        obtain ⟨-, -, l, hl, hs⟩ := (T.inv _ hJ').tasks _ mem_cons_self
        exact ⟨cb, v', l, t, hg, hch, hl, hs _ hr', hb⟩
    obtain ⟨s, n, control'⟩ := c
    subst hc
    exact T.level ho' (fun r _ _ _ => hr r) hJ hμ fun _ _ => rfl

theorem Terminating.runList_done {names : List Text} (hJ : J ⟨s, n, .runList names :: control⟩) :
    ∃ d, Reaches (Cookbooks.step store ord) ⟨s, n, .runList names :: control⟩ d ∧ J d ∧ d.control = control := by
  induction names generalizing s n with
  | nil =>
    have hd : Cookbooks.step store ord ⟨s, n, .runList [] :: control⟩ = .inr ⟨s, n, control⟩ := rfl
    exact ⟨_, .single hd, T.preserved _ _ hJ .runListDone, rfl⟩
  | cons k names ih =>
    have hr : ∀ e, Reaches (Cookbooks.step store ord) ⟨s, n, .runList (k :: names) :: control⟩ e →
        e.control = .runList names :: control →
        ∃ d, Reaches (Cookbooks.step store ord) ⟨s, n, .runList (k :: names) :: control⟩ d ∧ J d ∧
          d.control = control := by
      rintro ⟨s₁, n₁, control₁⟩ he rfl
      obtain ⟨d, hd, hJd, hc⟩ := ih (T.le_of_reaches hJ he).1
      exact ⟨d, he.trans hd, hJd, hc⟩
    obtain ⟨d, hd, hs, hJd⟩ := T.step hJ (by simp)
    cases hs with
    | @runListVisit _ s₁ _ _ _ _ o h =>
      cases o with
      | none => exact hr _ (.single hd) rfl
      | some cb =>
        rcases T.select (Or.inl rfl) hJd with ⟨s₂, -, hr₂, -⟩ | ⟨s₂, v, l, -, hr₂, hJ₂⟩
        · exact hr _ (hr₂.head hd) rfl
        · obtain ⟨e, he, -, hce, -⟩ := T.frame_done _ _ _ _ _ hJ₂ rfl rfl
          exact hr e ((hr₂.head hd).trans he) hce
    | selectNone ht => exact absurd ht (by simp)
    | selectSome ht => exact absurd ht (by simp)

end

end Goiardi.Cookbooks
