import Goiardi.Cookbooks.Totality

/-! Requests that make `DependsCookbooks` panic or recurse for ever over a store that is not returning. -/

namespace Goiardi.Cookbooks

open GVersion Validation Machine List Option Finset

variable {store : Store} {ord : MapOrder} {runList : List Text} {env : List (Text × Text)} {k r : Text}
  {s s' : State} {n : ℕ} {c d : Config}

lemma parseItem_valid (h : validateName k = true) : parseItem k = (k, none) := by
  have hch : ∀ c ∈ k, c ≠ '@' ∧ c ≠ ':' := by
    intro c hc
    have hv := all_eq_true.mp h c hc
    constructor <;> (rintro rfl; exact absurd hv (by decide))
  have hat : k.splitOn '@' = [k] := Text.splitOn_eq_singleton_iff.mpr ⟨fun hc => (hch _ hc).1 rfl, rfl⟩
  have hcl : Text.beforeColons k = k := by
    simpa [Text.beforeColons] using Text.beforeColons_append [] fun hc => (hch _ hc).2 rfl
  simp only [parseItem, hat, hcl]

variable {cb : Cookbook} {v : CookbookVersion}

lemma Store.get_of_mem (h : cb ∈ store.cookbooks) : store.get cb.name = some cb := by
  have hs : (store.get cb.name).isSome := by
    rw [Store.get, List.find?_isSome]
    exact ⟨cb, h, by simp⟩
  obtain ⟨cb', hg⟩ := isSome_iff_exists.mp hs
  obtain ⟨hm, hn⟩ := Store.get_mem hg
  rw [hg, inj_on_of_nodup_map store.names_nodup hm h hn]

lemma Store.name_valid (h : store.get k = some cb) : validateName k = true :=
  (Store.get_mem h).2 ▸ cb.name_valid

lemma filter_eq_lookup (h : (env.map Prod.fst).Nodup) (k : Text) :
    env.filter (·.1 = k) = (env.lookup k).toList.map (k, ·) := by
  induction env with
  | nil => rfl
  | cons e env ih =>
    obtain ⟨k', t⟩ := e
    rw [List.map_cons, List.nodup_cons] at h
    by_cases hk : k' = k
    · subst hk
      have hn : env.filter (·.1 = k') = [] := by
        rw [filter_eq_nil_iff]
        intro e he hek
        exact h.1 (mem_map.mpr ⟨e, he, by simpa using hek⟩)
      simp [hn]
    · have hk' : (k == k') = false := by simpa using Ne.symm hk
      rw [List.filter_cons_of_neg (by simpa using hk), ih h.2, List.lookup_cons, hk']

lemma startConstraint_eq (h : (env.map Prod.fst).Nodup) (hk : validateName k = true) :
    startConstraint env k k = ((env.lookup k).map constraints).getD [] := by
  simp only [startConstraint, envConstraint, itemConstraint, parseItem_valid hk, filter_eq_lookup h]
  cases env.lookup k with
  | none => rfl
  | some t => simp [appendConstraint, constraintPresent]

lemma start_step (ord : MapOrder) (runList : List Text) (env : List (Text × Text)) {cbV : Text}
    (hg : store.get (parseItem cbV).1 = some cb) : step store ord (start (cbV :: runList) env) =
      .inr ⟨(startState (cbV :: runList) env).shelve (parseItem cbV).1 cb, 0,
        [.selectRunList (parseItem cbV).1 cb, .runList (runListRef runList)]⟩ := by
  have hm : (parseItem cbV).1 ∈ runListRef (cbV :: runList) := by simp [runListRef]
  obtain ⟨last, hl⟩ := isSome_iff_exists.mp (lastItem_isSome.mpr hm)
  have hin := start_info (cbV :: runList) env (parseItem cbV).1
  rw [hl, map_some] at hin
  obtain ⟨nd, hn, hi⟩ := nodes_of_info hin
  have hv : visitRunList store (startState (cbV :: runList) env) (parseItem cbV).1 =
      .ok ((startState (cbV :: runList) env).shelve (parseItem cbV).1 cb, some cb) := by
    have hs : (startState (cbV :: runList) env).cbShelf = [] := rfl
    simp [visitRunList, hn, hi, hg, hs]
  show next ((visitRunList store (startState (cbV :: runList) env) (parseItem cbV).1).map _) = _
  rw [hv]
  rfl

lemma AlwaysReturns.ends (h : AlwaysReturns store) (ord : MapOrder) (runList : List Text)
    (hn : (env.map Prod.fst).Nodup) : ∃ n s, run (step store ord) n (start runList env) = some (.ok s) := by
  obtain ⟨n, o, ho, hp⟩ := h ord runList env hn
  unfold dependsCookbooks at ho
  split at ho
  · simp at ho
  next p hr => exact absurd (some.inj ho).symm (hp p)
  next s hr => exact ⟨n, s, hr⟩

lemma AlwaysReturns.choose_ok (h : AlwaysReturns store) (hcb : cb ∈ store.cookbooks)
    (o : Option Constraint) (ho : ∀ x ∈ o, newConstraint x.original = some [x]) : ∃ v, cb.choose o = .ok v := by
  cases hc : cb.choose o with
  | ok v => exact ⟨v, rfl⟩
  | error p =>
    exfalso
    let env := o.toList.map fun x => (cb.name, x.original)
    have hnd : (env.map Prod.fst).Nodup := by cases o <;> simp [env]
    have hcs : startConstraint env cb.name cb.name = o.toList := by
      rw [startConstraint_eq hnd cb.name_valid]
      cases o with
      | none => rfl
      | some x => simp [env, constraints, ho x rfl]
    have hp := parseItem_valid cb.name_valid
    have hg : store.get (parseItem cb.name).1 = some cb := by
      rw [hp]
      exact Store.get_of_mem hcb
    have hs := start_step .given [] env hg
    rw [hp] at hs
    obtain ⟨n, s, hr⟩ := h.ends MapOrder.given [cb.name] hnd
    have hin : ((startState [cb.name] env).shelve cb.name cb).info cb.name =
        some { version := [], constraint := o.toList, notFound := false, noVersion := false } := by
      rw [info_shelve, start_info, ← hcs]
      simp [lastItem, hp]
    obtain ⟨nd, hn, hi⟩ := nodes_of_info hin
    have he : step store .given ⟨(startState [cb.name] env).shelve cb.name cb, 0,
        [.selectRunList cb.name cb, .runList (runListRef [])]⟩ = .inl (.error p) := by
      have hsl : selectRunList ((startState [cb.name] env).shelve cb.name cb) cb.name cb = .error p := by
        have hh : o.toList.head? = o := by cases o <;> rfl
        simp only [selectRunList, hn, hi, Cookbook.latestMultiConstraint_eq_choose, hh, hc]
      simp only [step, hsl]
      rfl
    obtain ⟨m, hm⟩ := run_of_reaches (.single hs) he
    exact absurd (run_unique hr hm) (by simp)

lemma AlwaysReturns.versions_ne_nil (h : AlwaysReturns store) (hcb : cb ∈ store.cookbooks) : cb.versions ≠ [] := by
  intro hv
  obtain ⟨v, hc⟩ := h.choose_ok hcb none (by simp)
  have hs : cb.sortedVersions = [] := by simp [Cookbook.sortedVersions, hv]
  simp [Cookbook.choose, Cookbook.latestVersion, hs, Functor.map, Except.map] at hc

lemma readable_of_verLoop {cs : Constraint} {vs : List CookbookVersion} {o : Option CookbookVersion}
    (h : verLoop [cs] vs = .ok o) (hf : ∀ v ∈ vs, ¬ Passes v cs) : ∀ v ∈ vs, Readable v := by
  induction vs with
  | nil => simp
  | cons w vs ih =>
    obtain ⟨b, hb, h⟩ := bind_eq_ok h
    have hw : Readable w := by
      unfold Readable
      cases hn : newVersion w.version with
      | none => simp [hn, Constraint.Check] at hb
      | some _ => rfl
    cases b with
    | true => exact absurd hb (hf w (by simp))
    | false =>
      intro v hv
      rcases mem_cons.mp hv with rfl | hv
      · exact hw
      · exact ih h (fun v hv => hf v (by simp [hv])) v hv

def prereleaseOnly : Constraint := ⟨.pessimistic, ⟨[], ['a'], [1, 0, 0], 3⟩, "~> 1.0.0-a"⟩

lemma not_passes_prereleaseOnly (hv : v.Accepted) : ¬ Passes v prereleaseOnly := by
  unfold Passes
  cases hn : newVersion v.version with
  | none => simp [Constraint.Check]
  | some w =>
    have hp := newVersion_pre hv.version.chars hn
    simp [prereleaseOnly, Constraint.Check, ConstraintFunc.eval, constraintPessimistic, hp]

lemma AlwaysReturns.readable (h : AlwaysReturns store) (ha : store.Accepted)
    (hcb : cb ∈ store.cookbooks) : ∀ v ∈ cb.versions, Readable v := by
  obtain ⟨o, ho⟩ := h.choose_ok hcb (some prereleaseOnly) (by
    rintro x ⟨⟩
    decide)
  have hr := readable_of_verLoop ho fun v hv =>
    not_passes_prereleaseOnly (ha cb hcb v (mem_sortedVersions.mp hv))
  exact fun v hv => hr v (mem_sortedVersions.mpr hv)

lemma Cookbook.choose_pin {x : Constraint}
    (h : cb.choose none = .ok (some v)) (hf : x.f = .equal) (hx : newVersion v.version = some x.check) :
    cb.choose (some x) = .ok (some v) := by
  obtain ⟨w, hw, he⟩ := map_eq_ok h
  obtain rfl := some.inj he
  unfold Cookbook.latestVersion at hw
  split at hw
  · simp at hw
  next u us hs =>
    obtain rfl := Except.ok.inj hw
    have hp : x.Check (newVersion u.version) = .ok true := by
      simp [hx, Constraint.Check, hf, ConstraintFunc.eval, Version.compare]
    simp [Cookbook.choose, hs, verLoop, hp, bind, Except.bind, pure, Except.pure]

lemma exists_selecting {o : Option Constraint}
    (ho : ∀ x ∈ o, newConstraint x.original = some [x]) (hc : cb.choose o = .ok (some v)) (hv : v.Accepted)
    (hr : Readable v) : ∃ x, newConstraint x.original = some [x] ∧ cb.choose (some x) = .ok (some v) := by
  cases o with
  | some x => exact ⟨x, ho x rfl, hc⟩
  | none =>
    obtain ⟨w, hw⟩ := isSome_iff_exists.mp hr
    exact ⟨⟨.equal, w, _⟩, newConstraint_pin hv.version.chars hw, Cookbook.choose_pin hc rfl hw⟩

structure Trap (store : Store) (pick : Text → Constraint) (C : List Text) : Prop where
  ne_nil : C ≠ []
  nodup : C.Nodup
  readable : ∀ k ∈ C, newConstraint (pick k).original = some [pick k]
  edge : ∀ k ∈ C, ∃ cb v l, store.get k = some cb ∧ cb.choose (some (pick k)) = .ok (some v) ∧
    v.depList = .ok l ∧ ∃ r ∈ C, ∃ t, (r, .str t) ∈ l ∧ ¬ GoodText t

def Stuck (C : List Text) (c : Config) : Prop :=
  (∃ k ∈ C, Selecting c k) ∨ ∃ v, ∃ r ∈ C, ∃ t, ¬ GoodText t ∧ Pending c.control v (r, .str t)

namespace Trap

variable {pick : Text → Constraint} {C : List Text} (T : Trap store pick C)

def pinned (pick : Text → Constraint) (C : List Text) : List (Text × Text) :=
  C.map fun k => (k, (pick k).original)

lemma lookup_pinned (hk : k ∈ C) : (pinned pick C).lookup k = some (pick k).original := by
  induction C with
  | nil => simp at hk
  | cons j C ih =>
    by_cases hj : k = j
    · simp [pinned, hj]
    · have hj' : (k == j) = false := by simpa using hj
      rw [pinned, List.map_cons, List.lookup_cons, hj']
      exact ih ((List.mem_cons.mp hk).resolve_left hj)

include T

lemma pinned_nodup : ((pinned pick C).map Prod.fst).Nodup := by
  have hf : (pinned pick C).map Prod.fst = C := by simp [pinned, Function.comp_def]
  rw [hf]
  exact T.nodup

lemma parseItem_eq (hk : k ∈ C) : parseItem k = (k, none) := by
  obtain ⟨cb, -, -, hg, -⟩ := T.edge k hk
  exact parseItem_valid (Store.name_valid hg)

lemma lastItem_eq (hk : k ∈ C) : lastItem C k = some k := by
  have hmm : k ∈ runListRef C := by
    refine mem_map.mpr ⟨k, hk, ?_⟩
    rw [T.parseItem_eq hk]
  obtain ⟨cbV, hl⟩ := isSome_iff_exists.mp (lastItem_isSome.mpr hmm)
  obtain ⟨hm, hn⟩ := lastItem_name hl
  rw [T.parseItem_eq hm] at hn
  rw [hl, show cbV = k from hn]

lemma head_eq (hi : Inv store C (pinned pick C) c) (hk : k ∈ C) {m : DepMeta} (hm : c.state.info k = some m) :
    m.constraint.head? = some (pick k) := by
  have hv : validateName k = true := by
    obtain ⟨cb, -, -, hg, -⟩ := T.edge k hk
    exact Store.name_valid hg
  have hf := hi.item_front (T.lastItem_eq hk) hm
  rw [startConstraint_eq T.pinned_nodup hv, lookup_pinned hk, map_some, getD_some, constraints,
    T.readable k hk, getD_some] at hf
  obtain ⟨l, hl⟩ := hf
  simp [← hl]

lemma not_flagged (hi : Inv store C (pinned pick C) c) (hk : k ∈ C) {m : DepMeta} (hm : c.state.info k = some m) :
    ¬ m.Flagged := by
  obtain ⟨cb, v, l, hg, hc, -⟩ := T.edge k hk
  by_cases hsl : Selecting c k
  · obtain ⟨m', hm', hf⟩ := hi.selecting k hsl
    rwa [some.inj (hm.symm.trans hm')]
  · rintro (hn | hn)
    · cases hs : c.state.onShelf k with
      | none => simp [(hi.basic.offShelf k m hm hs).2] at hn
      | some cb' =>
        obtain rfl := some.inj (hg.symm.trans (hi.basic.shelf_get k cb' hs))
        rcases hi.settled k cb m hs hm hsl with ⟨-, hc'⟩ | ⟨hn', -⟩
        · simp [T.head_eq hi hk hm, hc] at hc'
        · simp [hn] at hn'
    · simp [hi.basic.notFound_get k m hm hn] at hg

lemma stuck_step (hi : Inv store C (pinned pick C) c) (h : Steps store ord c d) (hc : Stuck C c) : Stuck C d := by
  rcases hc with ⟨k, hk, hsl⟩ | ⟨v, r, hr, t, hb, hp⟩
  · obtain ⟨cb, v, l, hg, hch, hl, r, hr, t, ht, hb⟩ := T.edge k hk
    have hpc : ∀ {s s' : State} {n : ℕ} {r₀ : Text} {cb₀ : Cookbook} {task : Task} {control : List Task}
        {o : Option CookbookVersion}, c = ⟨s, n, task :: control⟩ →
        (task = .selectRunList r₀ cb₀ ∨ task = .selectDependency r₀ cb₀) → Select s r₀ cb₀ s' o → o = some v := by
      rintro s s' n r₀ cb₀ task control o rfl ht hs
      have hr₀ : r₀ = k := by
        have := selecting_cons.mp hsl
        rcases ht with rfl | rfl <;> exact this
      subst hr₀
      have hsh := taskOk_select ht (hi.tasks task (by simp))
      obtain rfl := some.inj (hg.symm.trans (hi.basic.shelf_get r₀ cb₀ hsh))
      cases hs with
      | noVersion hm hc => simp [T.head_eq hi hk hm, hch] at hc
      | version hm hc =>
        rw [T.head_eq hi hk hm, hch] at hc
        exact (Except.ok.inj hc).symm
    cases h with
    | runListDone => exact absurd (selecting_cons.mp hsl) id
    | dependenciesDone => exact absurd (selecting_cons.mp hsl) id
    | runListVisit => exact absurd (selecting_cons.mp hsl) id
    | dependencyVisit => exact absurd (selecting_cons.mp hsl) id
    | selectNone hts hs => exact absurd (hpc rfl hts hs) (by simp)
    | selectSome hts hs hd =>
      obtain rfl := some.inj (hpc rfl hts hs)
      obtain rfl := Except.ok.inj (hl.symm.trans hd)
      exact Or.inr ⟨_, r, hr, t, hb, _, mem_cons_self, (ord.deps_perm _ _).mem_iff.mpr ht⟩
  · obtain ⟨s', n', control'⟩ := d
    rcases h.pending_or_visit hp with hp | ⟨n, rest, control, o, hcn, hv, hd⟩
    · exact Or.inr ⟨v, r, hr, t, hb, hp⟩
    · obtain ⟨cb, -, -, hg, -⟩ := T.edge r hr
      cases hv with
      | flagged hm hf => exact absurd hf (T.not_flagged hi hr hm)
      | notFound _ _ _ _ _ hg' => simp [hg'] at hg
      | present hc2 hm _ _ hs _ hpr =>
        obtain rfl := Json.str.inj hc2
        obtain ⟨m, hm', -⟩ := hi.basic.shelf_info r _ hs
        rw [hm', getD_some] at hm
        obtain ⟨x, -, hx⟩ := constraints_of_present (hi.basic.constraint_ok r m hm') (hm ▸ hpr)
        exact absurd ⟨x, hx⟩ hb
      | placed =>
        refine Or.inl ⟨r, hr, ?_⟩
        rw [hd]
        exact selecting_cons.mpr rfl

theorem diverges (ha : store.Accepted) (hv : ∀ cb ∈ store.cookbooks, cb.versions ≠ [])
    (hr : ∀ cb ∈ store.cookbooks, ∀ v ∈ cb.versions, Readable v) (ord : MapOrder) (n : ℕ) :
    dependsCookbooks store ord C (pinned pick C) n = none := by
  suffices hrn : run (step store ord) n (start C (pinned pick C)) = none by
    simp [dependsCookbooks, hrn]
  refine run_eq_none (P := fun c => Inv store C (pinned pick C) c ∧
    (c = start C (pinned pick C) ∨ Stuck C c)) ?_ ⟨inv_start _ _ _, Or.inl rfl⟩ n
  rintro c ⟨hi, rfl | hst⟩
  · obtain ⟨k, names, rfl⟩ := exists_cons_of_ne_nil T.ne_nil
    have hpr := T.parseItem_eq mem_cons_self
    obtain ⟨cb, -, -, hg, -⟩ := T.edge k mem_cons_self
    have hsp := start_step ord names (pinned pick (k :: names))
      (show store.get (parseItem k).1 = some cb by rwa [hpr])
    rw [hpr] at hsp
    refine ⟨_, hsp, hi.preserved (steps_of_step hsp), Or.inr (Or.inl ⟨k, mem_cons_self, ?_⟩)⟩
    exact selecting_cons.mpr rfl
  · have hc : c.control ≠ [] := by
      intro he
      rcases hst with ⟨k, -, t, ht, -⟩ | ⟨v, r, -, t, -, rest, hm, -⟩
      · simp [he] at ht
      · simp [he] at hm
    have hch : ChoiceOk c := fun p hp =>
      Cookbook.choose_ok (hv _ (hi.selection_mem hp)) (hr _ (hi.selection_mem hp)) _
    obtain ⟨d, hd⟩ : ∃ d, step store ord c = .inr d := hi.progress ha hch hc
    have hs := steps_of_step hd
    exact ⟨d, hd, hi.preserved hs, Or.inr (T.stuck_step hi hs hst)⟩

end Trap

open Classical in
lemma exists_trap (ha : store.Accepted) (hr : ∀ cb ∈ store.cookbooks, ∀ v ∈ cb.versions, Readable v)
    {h : Text → Option Constraint} (hh : ∀ k, ∀ x ∈ h k, newConstraint x.original = some [x])
    (hk : Relation.TransGen (BadStep store h) k k) : ∃ pick C, Trap store pick C := by
  let C := (storeNames store).filter fun j =>
    Relation.TransGen (BadStep store h) k j ∧ Relation.TransGen (BadStep store h) j k
  have hC : ∀ j, Relation.TransGen (BadStep store h) k j → Relation.TransGen (BadStep store h) j k → j ∈ C := by
    intro j hkj hjk
    obtain ⟨i, ⟨cb, -, -, -, hg, -⟩, -⟩ := Relation.TransGen.head'_iff.mp hjk
    exact mem_filter.mpr ⟨mem_storeNames_of_get hg, hkj, hjk⟩
  have he : ∀ j ∈ C, ∃ x, newConstraint x.original = some [x] ∧ ∃ cb v l, store.get j = some cb ∧
      cb.choose (some x) = .ok (some v) ∧ v.depList = .ok l ∧ ∃ r ∈ C, ∃ t, (r, .str t) ∈ l ∧ ¬ GoodText t := by
    intro j hj
    obtain ⟨-, hkj, hjk⟩ := Finset.mem_filter.mp hj
    obtain ⟨r, hb, hrk⟩ := Relation.TransGen.head'_iff.mp hjk
    have hr' : r ∈ C := hC r (hkj.tail hb) (hk.trans_right hrk)
    obtain ⟨cb, v, l, t, hg, hc, hl, ht, hbd⟩ := hb
    have hcb := (Store.get_mem hg).1
    have hv := Cookbook.choose_mem hc
    obtain ⟨x, hx, hcx⟩ := exists_selecting (hh j) hc (ha cb hcb v hv) (hr cb hcb v hv)
    exact ⟨x, hx, cb, v, l, hg, hcx, hl, r, hr', t, ht, hbd⟩
  have : Nonempty Constraint := ⟨prereleaseOnly⟩
  choose! pick hp using he
  refine ⟨pick, C.toList, ?_, C.nodup_toList, fun j hj => (hp j (mem_toList.mp hj)).1, fun j hj => ?_⟩
  · intro hn
    have hm : k ∈ C.toList := mem_toList.mpr (hC k hk hk)
    simp [hn] at hm
  · obtain ⟨cb, v, l, hg, hc, hl, r, hr', ht⟩ := (hp j (mem_toList.mp hj)).2
    exact ⟨cb, v, l, hg, hc, hl, r, mem_toList.mpr hr', ht⟩

theorem alwaysReturns_iff (ha : store.Accepted) : AlwaysReturns store ↔ Returning store := by
  constructor
  · intro h
    have hv : ∀ cb ∈ store.cookbooks, cb.versions ≠ [] := fun cb => h.versions_ne_nil
    have hr : ∀ cb ∈ store.cookbooks, ∀ v ∈ cb.versions, Readable v := fun cb => h.readable ha
    refine ⟨hv, hr, fun x hx k hk => ?_⟩
    obtain ⟨pick, C, T⟩ := exists_trap ha hr hx hk
    obtain ⟨n, o, ho, -⟩ := h .given C (Trap.pinned pick C) T.pinned_nodup
    simp [T.diverges ha hv hr .given n] at ho
  · exact fun h => h.alwaysReturns ha

theorem alwaysReturns_conflictStore : AlwaysReturns conflictStore :=
  (alwaysReturns_iff conflictStore_accepted).mpr
    (returning_of_good (by decide) (by decide) (by decide))

def selfLoop : Cookbook where
  name := "a"
  name_valid := validateName_a
  versions := [.plain "a" "1.0.0" [("a", "~ 1.0.0")]]
  cookbookName_eq := by decide
  versions_nodup := by decide

def selfLoopStore : Store where
  cookbooks := [selfLoop]
  names_nodup := by decide

def trailingDot : Cookbook where
  name := "b"
  name_valid := validateName_b
  versions := [.plain "b" "1.0." []]
  cookbookName_eq := by decide
  versions_nodup := by decide

def trailingDotStore : Store where
  cookbooks := [trailingDot]
  names_nodup := by decide

lemma selfLoopStore_accepted : selfLoopStore.Accepted := by
  refine Store.accepted_of_versions fun v hv => ?_
  fin_cases hv
  exact ⟨⟨_, rfl⟩, rfl⟩

lemma trailingDotStore_accepted : trailingDotStore.Accepted := by
  refine Store.accepted_of_versions fun v hv => ?_
  fin_cases hv
  exact ⟨⟨_, rfl⟩, rfl⟩

lemma selfLoop_trap : Trap selfLoopStore (fun _ => ⟨.equal, ⟨[], [], [1, 0, 0], 3⟩, "= 1.0.0"⟩) ["a"] where
  ne_nil := by simp
  nodup := by simp
  readable k _ := by decide
  edge k hk := by
    obtain rfl := List.mem_singleton.mp hk
    have hb : ¬ GoodText "~ 1.0.0" := by decide
    exact ⟨selfLoop, _, _, rfl, rfl, rfl, "a", by simp, "~ 1.0.0", List.mem_cons_self, hb⟩

theorem not_alwaysReturns : selfLoopStore.Accepted ∧ trailingDotStore.Accepted ∧
    (∀ n, dependsCookbooks selfLoopStore .given ["a"] [("a", "= 1.0.0")] n = none) ∧
    dependsCookbooks trailingDotStore .given ["b@1.0"] [] 5 = some (.error (.panic .nilPointer)) := by
  refine ⟨selfLoopStore_accepted, trailingDotStore_accepted, fun n => ?_, rfl⟩
  refine selfLoop_trap.diverges selfLoopStore_accepted ?_ ?_ .given n
  · intro cb hcb
    obtain rfl := List.mem_singleton.mp hcb
    simp [selfLoop]
  · intro cb hcb v hv
    obtain rfl := List.mem_singleton.mp hcb
    obtain rfl := List.mem_singleton.mp hv
    decide

end Goiardi.Cookbooks
