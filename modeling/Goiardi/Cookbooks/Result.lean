import Goiardi.Cookbooks.Invariant

/-! The start of the walk, and what a returned map of cookbooks says about its end. -/

namespace Goiardi.Cookbooks

open GVersion Validation Machine List Option Except

variable {store : Store} {ord : MapOrder} {runList : List Text} {env : List (Text × Text)} {k : Text}

def lastItem (runList : List Text) (k : Text) : Option Text :=
  runList.reverse.find? fun cbV => (parseItem cbV).1 = k

def envConstraint (env : List (Text × Text)) (k : Text) (l : List Constraint) : List Constraint :=
  (env.filter (·.1 = k)).foldl (fun l e => appendConstraint l e.2) l

def startConstraint (env : List (Text × Text)) (k cbV : Text) : List Constraint :=
  envConstraint env k (itemConstraint cbV)

lemma runListNodes_eq (runList : List Text) (k : Text) :
    runListNodes runList k = (lastItem runList k).map fun cbV => Noun.new (itemConstraint cbV) := by
  induction runList using List.reverseRecOn with
  | nil => rfl
  | append_singleton l cbV ih =>
    have hf : runListNodes (l ++ [cbV]) =
        Function.update (runListNodes l) (parseItem cbV).1 (some (Noun.new (itemConstraint cbV))) := by
      simp [runListNodes]
    rw [hf]
    by_cases h : (parseItem cbV).1 = k
    · subst h
      simp [lastItem]
    · rw [Function.update_of_ne (Ne.symm h), ih]
      simp [lastItem, h]

lemma envNodes_eq (env : List (Text × Text)) (nodes : Text → Option Noun) (k : Text) :
    envNodes env nodes k = (nodes k).map fun n =>
      { n with info := { n.info with constraint := envConstraint env k n.info.constraint } } := by
  induction env generalizing nodes with
  | nil => cases h : nodes k <;> simp [envNodes, h, envConstraint]
  | cons e env ih =>
    have hf : envNodes (e :: env) nodes =
        envNodes env (Function.update nodes e.1 ((nodes e.1).map (Noun.addConstraint e.2))) := rfl
    rw [hf, ih]
    by_cases h : e.1 = k
    · subst h
      cases hn : nodes e.1 <;> simp [envConstraint, Noun.addConstraint]
    · rw [Function.update_of_ne (Ne.symm h)]
      simp [envConstraint, h]

lemma start_info (runList : List Text) (env : List (Text × Text)) (k : Text) :
    (startState runList env).info k = (lastItem runList k).map fun cbV =>
      { version := [], constraint := startConstraint env k cbV, notFound := false, noVersion := false } := by
  simp only [State.info, startState, envNodes_eq, runListNodes_eq, Option.map_map]
  rfl

lemma start_targets (runList : List Text) (env : List (Text × Text)) (k : Text) :
    (startState runList env).targets k = [] := by
  simp only [State.targets, startState, envNodes_eq, runListNodes_eq, Option.map_map]
  cases lastItem runList k <;> rfl

lemma lastItem_isSome : (lastItem runList k).isSome ↔ k ∈ runListRef runList := by
  simp [lastItem, runListRef]

variable {cbV : Text} {l : List Constraint} {c : Config} {s : State} {deps : List (Text × CookbookVersion)}
  {head : Option Text}

lemma lastItem_name (h : lastItem runList k = some cbV) : cbV ∈ runList ∧ (parseItem cbV).1 = k := by
  refine ⟨by simpa using mem_of_find?_eq_some h, by simpa using List.find?_some h⟩

lemma itemConstraint_ok : ∀ x ∈ itemConstraint cbV, newConstraint x.original = some [x] := by
  intro x hx
  cases h : (parseItem cbV).2 with
  | none => simp [itemConstraint, h] at hx
  | some c => exact constraints_original (by simpa [itemConstraint, h] using hx)

lemma envConstraint_ok (env : List (Text × Text)) (k : Text) (hl : ∀ x ∈ l, newConstraint x.original = some [x]) :
    ∀ x ∈ envConstraint env k l, newConstraint x.original = some [x] := by
  unfold envConstraint
  induction env.filter (·.1 = k) generalizing l with
  | nil => exact hl
  | cons e env ih =>
    obtain ⟨l', he, hl'⟩ := appendConstraint_eq l e.2
    refine ih fun x hx => ?_
    exact (mem_append.mp (he ▸ hx)).elim (hl x) (hl' x)

lemma start_basic (store : Store) (runList : List Text) (env : List (Text × Text)) :
    Basic store (startState runList env) := by
  have hi : ∀ k m, (startState runList env).info k = some m → m.version = [] ∧ m.notFound = false ∧
      m.noVersion = false ∧ ∀ x ∈ m.constraint, newConstraint x.original = some [x] := by
    intro k m hm
    rw [start_info, map_eq_some_iff] at hm
    obtain ⟨cbV, -, rfl⟩ := hm
    exact ⟨rfl, rfl, rfl, envConstraint_ok env k itemConstraint_ok⟩
  refine ⟨by simp [startState], ?_, ?_, ?_, ?_, ?_, ?_⟩
  · intro k cb h
    simp [State.onShelf, startState] at h
  · intro k cb h
    simp [State.onShelf, startState] at h
  · intro k m hm hn
    simp [(hi k m hm).2.1] at hn
  · exact fun k m hm _ => ⟨(hi k m hm).1, (hi k m hm).2.2.1⟩
  · exact fun k m hm => (hi k m hm).2.2.2
  · intro k t ht
    simp [start_targets] at ht

theorem inv_start (store : Store) (runList : List Text) (env : List (Text × Text)) :
    Inv store runList env (start runList env) where
  basic := start_basic store runList env
  tasks := by
    intro t ht
    obtain rfl : t = .runList (runListRef runList) := by simpa [start] using ht
    intro k hk
    have hs := lastItem_isSome.mpr hk
    simpa [start, start_info] using hs
  shape := by simp [start]
  selecting k hk := absurd (selecting_cons.mp hk) id
  settled k cb m hs := by simp [State.onShelf, start, startState] at hs
  items k hk := Or.inl ⟨_, mem_cons_self, hk⟩
  start := Le.refl _

theorem inv_reaches (h : Reaches (step store ord) (start runList env) c) : Inv store runList env c :=
  h.invariant (fun _ _ hi he => hi.preserved (steps_of_step he)) (inv_start store runList env)

def Chosen (s : State) (k : Text) (V : CookbookVersion) : Prop :=
  ∃ cb m, s.onShelf k = some cb ∧ s.info k = some m ∧ cb.choose m.constraint.head? = .ok (some V)

lemma cookbookDeps_spec {l : List (Text × Cookbook)} (h : cookbookDeps s l = .ok deps) :
    List.Forall₂ (fun (p : Text × Cookbook) (q : Text × CookbookVersion) => q.1 = q.2.cookbookName ∧
      ∃ m, s.info p.1 = some m ∧ p.2.choose m.constraint.head? = .ok (some q.2)) l deps := by
  induction l generalizing deps with
  | nil =>
    obtain rfl := ok.inj h
    exact .nil
  | cons p l ih =>
    obtain ⟨k, cb⟩ := p
    simp only [cookbookDeps] at h
    split at h
    · simp at h
    next n hn =>
      rw [Cookbook.latestMultiConstraint_eq_choose] at h
      split at h
      · simp at h
      · simp at h
      next V hc =>
        obtain ⟨rest, hr, hd⟩ := bind_eq_ok h
        obtain rfl := ok.inj hd
        exact .cons ⟨rfl, n.info, info_eq_some hn, hc⟩ (ih hr)

lemma forall₂_mem_left {α β : Type} {R : α → β → Prop} {l : List α} {l' : List β} (h : List.Forall₂ R l l')
    {a : α} (ha : a ∈ l) : ∃ b ∈ l', R a b :=
  forall₂_mem_right h.flip ha

lemma violationsOf_eq_nil_iff {ds : List Dependency} :
    violationsOf store s head ds = .ok [] ↔ ∀ d ∈ ds, satisfied store s head d = .ok none := by
  induction ds with
  | nil => simp [violationsOf]
  | cons d ds ih =>
    rw [forall_mem_cons, ← ih]
    constructor
    · intro h
      obtain ⟨verr, hv, h⟩ := bind_eq_ok h
      obtain ⟨rest, hr, h⟩ := bind_eq_ok h
      obtain ⟨hv', rfl⟩ := append_eq_nil_iff.mp (ok.inj h)
      obtain rfl : verr = none := by simpa using hv'
      exact ⟨hv, hr⟩
    · rintro ⟨hv, hr⟩
      simp only [violationsOf, hv, hr]
      rfl

lemma violations_eq_nil_iff {rds : List Dependency} {he : List (Option Text)} : violations store rds s he = .ok [] ↔
      ∀ head ∈ he, violationsOf store s head (nounDeps rds s head) = .ok [] := by
  induction he with
  | nil => simp [violations]
  | cons hd he ih =>
    rw [forall_mem_cons, ← ih]
    constructor
    · intro h
      obtain ⟨verrs, hv, h⟩ := bind_eq_ok h
      obtain ⟨rest, hr, h⟩ := bind_eq_ok h
      obtain ⟨rfl, rfl⟩ := append_eq_nil_iff.mp (ok.inj h)
      exact ⟨hv, hr⟩
    · rintro ⟨hv, hr⟩
      simp only [violations, hv, hr]
      rfl

lemma satisfied_eq_none_iff {d : Dependency} : satisfied store s head d = .ok none ↔
      ∃ m, s.info d.target = some m ∧ m.notFound = false ∧ m.version ≠ [] := by
  constructor
  · intro h
    unfold satisfied at h
    split at h
    · simp at h
    next n hn =>
      refine ⟨n.info, info_eq_some hn, ?_⟩
      simp only [] at h
      split at h
      · simp at h
      next hnf =>
        split at h
        · split at h
          · simp at h
          · obtain ⟨bad, -, h⟩ := bind_eq_ok h
            simp [pure, Except.pure] at h
        next hv => exact ⟨by simpa using hnf, hv⟩
  · rintro ⟨m, hm, hn, hv⟩
    obtain ⟨nd, hnd, rfl⟩ : ∃ nd, s.nodes d.target = some nd ∧ nd.info = m := by
      simpa [State.info] using hm
    simp [satisfied, hnd, hn, hv]

structure Returned (store : Store) (ord : MapOrder) (runList : List Text) (env : List (Text × Text))
    (deps : List (Text × CookbookVersion)) (s : State) (n : ℕ) : Prop where
  reaches : Reaches (step store ord) (start runList env) ⟨s, n, []⟩
  satisfied : ∀ head, DepthFirst.Reachable (nounEdges (rootDeps ord runList env) s) none head →
    ∀ t, some t ∈ nounEdges (rootDeps ord runList env) s head →
      ∃ m, s.info t = some m ∧ m.notFound = false ∧ m.version ≠ []
  mem_iff : ∀ k V, (k, V) ∈ deps ↔ Chosen s k V
  chosen : ∀ k cb, s.onShelf k = some cb → ∃ V, Chosen s k V

lemma step_eq_inl (h : step store ord c = .inl (.ok s)) : c.control = [] ∧ c.state = s := by
  have hn : ∀ x : Except Panic Config, next x ≠ .inl (.ok s) := by
    rintro (p | d) <;> simp [next]
  obtain ⟨s', n, control⟩ := c
  cases control with
  | nil => simpa [step] using h
  | cons t control =>
    cases t with
    | runList names => cases names with
      | nil => simp [step] at h
      | cons k names => exact absurd h (hn _)
    | selectRunList k cb => exact absurd h (hn _)
    | dependencies v rest => cases rest with
      | nil => simp [step] at h
      | cons p rest => exact absurd h (hn _)
    | selectDependency r cb => exact absurd h (hn _)

theorem returned_of_some {n : ℕ} (h : dependsCookbooks store ord runList env n = some (.ok deps)) :
    ∃ s m, Returned store ord runList env deps s m := by
  unfold dependsCookbooks at h
  split at h
  · simp at h
  · simp at h
  next s hrn =>
    split at h
    · simp at h
    · simp at h
    · simp at h
    next hch =>
      obtain ⟨⟨s', m, control⟩, hr, he⟩ := reaches_of_run hrn
      obtain ⟨rfl, rfl⟩ := step_eq_inl he
      have hi := inv_reaches hr
      have hsp := cookbookDeps_spec (some.inj h)
      have hsh : ∀ k cb, (k, cb) ∈ ord.shelf s'.cbShelf ↔ s'.onShelf k = some cb := fun k cb =>
        (ord.shelf_perm _).mem_iff.trans (lookup_eq_some_iff hi.basic.shelf_nodup k cb).symm
      refine ⟨s', m, hr, ?_, ?_, ?_⟩
      · obtain ⟨seen, hsn, hv⟩ := map_eq_some_iff.mp hch
        intro head hh t ht
        obtain ⟨d, hd, hdt⟩ := mem_map.mp ht
        obtain rfl := some.inj hdt
        have hmm := (DepthFirst.mem_depthFirstWalk hsn head).mpr hh
        exact satisfied_eq_none_iff.mp (violationsOf_eq_nil_iff.mp (violations_eq_nil_iff.mp hv head hmm) d hd)
      · intro k V
        constructor
        · intro hm
          obtain ⟨⟨k', cb⟩, hk', hnm, m', hm', hc⟩ := forall₂_mem_right hsp hm
          have hs := (hsh k' cb).mp hk'
          have hn := (choose_spec (hi.basic.shelf_get k' cb hs) hc).2
          obtain rfl : k = k' := hnm.trans hn
          exact ⟨cb, m', hs, hm', hc⟩
        · rintro ⟨cb, m', hs, hm', hc⟩
          obtain ⟨⟨k', V'⟩, hq, hnm, m'', hm'', hc'⟩ := forall₂_mem_left hsp ((hsh k cb).mpr hs)
          obtain rfl := some.inj (hm'.symm.trans hm'')
          obtain rfl := some.inj (ok.inj (hc.symm.trans hc'))
          have hn := (choose_spec (hi.basic.shelf_get k cb hs) hc).2
          rwa [show k = k' from (hnm.trans hn).symm]
      · intro k cb hs
        obtain ⟨⟨k', V⟩, -, -, m', hm', hc⟩ := forall₂_mem_left hsp ((hsh k cb).mpr hs)
        exact ⟨V, cb, m', hs, hm', hc⟩

end Goiardi.Cookbooks
