import Goiardi.Cookbooks.GVersion
import Goiardi.Cookbooks.Validation

/-! Stored cookbooks, their versions in order, and the choice of a version under constraints. -/

namespace Goiardi.Cookbooks

open GVersion Validation

structure CookbookVersion where
  cookbookName : Text
  version : Text
  metadata : JsonMap

structure Cookbook where
  name : Text
  name_valid : validateName name = true
  versions : List CookbookVersion
  cookbookName_eq : ∀ v ∈ versions, v.cookbookName = name
  versions_nodup : (versions.map CookbookVersion.version).Nodup

structure Store where
  cookbooks : List Cookbook
  names_nodup : (cookbooks.map Cookbook.name).Nodup

def Store.get (store : Store) (name : Text) : Option Cookbook := store.cookbooks.find? (·.name = name)

structure CookbookVersion.Accepted (v : CookbookVersion) : Prop where
  version : AcceptedVersion v.version
  metadata : ∃ j, validateCookbookMetadata j = .ok v.metadata

def Store.Accepted (store : Store) : Prop := ∀ c ∈ store.cookbooks, ∀ v ∈ c.versions, v.Accepted

def atoi (t : Text) : ℤ := (Text.parseInt t).1

def partsLess : ℕ → List Text → List Text → Bool
  | 0, _, _ => false
  | _ + 1, [], _ => true
  | _ + 1, _ :: _, [] => false
  | q + 1, ic :: iVer, jc :: jVer =>
    if atoi ic ≠ atoi jc then atoi ic < atoi jc else partsLess q iVer jVer

def versionLess (verA verB : Text) : Bool :=
  if verA = verB then false else partsLess 3 (verA.splitOn '.') (verB.splitOn '.')

def Cookbook.sortedVersions (c : Cookbook) : List CookbookVersion :=
  c.versions.insertionSort fun a b => ¬ versionLess a.version b.version

def Cookbook.latestVersion (c : Cookbook) : Except Panic CookbookVersion :=
  match c.sortedVersions with
  | [] => .error .indexOutOfRange
  | v :: _ => .ok v

def verLoop (constraints : List Constraint) : List CookbookVersion → Except Panic (Option CookbookVersion)
  | [] => .ok none
  | cver :: cbversions =>
    match constraints with
    | [] => verLoop constraints cbversions
    -- The body of the inner loop leaves it on its first constraint, whichever way the check goes.
    | cs :: _ => do
      if ← cs.Check (newVersion cver.version) then return some cver else verLoop constraints cbversions

def Cookbook.latestMultiConstraint (c : Cookbook) (constraints : List Constraint) :
    Except Panic (Option CookbookVersion) :=
  if constraints = [] then some <$> c.latestVersion else verLoop constraints c.sortedVersions

def failsSome (cs : Constraint) : List CookbookVersion → Except Panic Bool
  | [] => .ok false
  | cver :: cbversions => do
    if ← cs.Check (newVersion cver.version) then failsSome cs cbversions else return true

def Cookbook.badConstraints (c : Cookbook) : List Constraint → Except Panic (List Text)
  | [] => .ok []
  | cs :: constraints => do
    let bad ← failsSome cs c.sortedVersions
    let rest ← c.badConstraints constraints
    return if bad then cs.original :: rest else rest

def CookbookVersion.depList (v : CookbookVersion) : Except Panic JsonMap :=
  match lookupField v.metadata dependenciesField with
  | .obj m => .ok m
  | _ => .error .typeAssertion

def CookbookVersion.depNames (v : CookbookVersion) : List Text :=
  match v.depList with
  | .ok m => m.map Prod.fst
  | .error _ => []

variable {v : CookbookVersion} {c : Cookbook} {cs : Constraint} {vs : List CookbookVersion}

lemma CookbookVersion.mem_depNames {r : Text} : r ∈ v.depNames ↔ ∃ l j, v.depList = .ok l ∧ (r, j) ∈ l := by
  cases h : v.depList <;> simp [depNames, h]

lemma Store.get_mem {store : Store} {k : Text} (h : store.get k = some c) : c ∈ store.cookbooks ∧ c.name = k := by
  refine ⟨List.mem_of_find?_eq_some h, ?_⟩
  simpa using List.find?_some h

lemma mem_sortedVersions : v ∈ c.sortedVersions ↔ v ∈ c.versions :=
  (List.perm_insertionSort _ _).mem_iff

def Passes (v : CookbookVersion) (cs : Constraint) : Prop := cs.Check (newVersion v.version) = .ok true

instance (v : CookbookVersion) (cs : Constraint) : Decidable (Passes v cs) := by
  unfold Passes
  infer_instance

def Readable (v : CookbookVersion) : Prop := (newVersion v.version).isSome

instance (v : CookbookVersion) : Decidable (Readable v) :=
  inferInstanceAs (Decidable ((newVersion v.version).isSome = true))

/-- The choice `latestMultiConstraint` makes depends on the first constraint only. -/
def Cookbook.choose (c : Cookbook) : Option Constraint → Except Panic (Option CookbookVersion)
  | none => some <$> c.latestVersion
  | some cs => verLoop [cs] c.sortedVersions

lemma verLoop_cons (cs : Constraint) (l : List Constraint) (vs : List CookbookVersion) :
    verLoop (cs :: l) vs = verLoop [cs] vs := by
  induction vs with
  | nil => rfl
  | cons v vs ih => simp only [verLoop, ih]

lemma Cookbook.latestMultiConstraint_eq_choose (c : Cookbook) (l : List Constraint) :
    c.latestMultiConstraint l = c.choose l.head? := by
  cases l with
  | nil => rfl
  | cons cs l => simp [latestMultiConstraint, choose, verLoop_cons cs l]

lemma check_eq (cs : Constraint) (h : Readable v) : ∃ b, cs.Check (newVersion v.version) = .ok b := by
  obtain ⟨w, hw⟩ := Option.isSome_iff_exists.mp h
  exact ⟨_, by rw [hw]; rfl⟩

lemma verLoop_some (h : verLoop [cs] vs = .ok (some v)) : v ∈ vs ∧ Passes v cs := by
  induction vs with
  | nil => simp [verLoop] at h
  | cons w vs ih =>
    obtain ⟨b, hb, h⟩ := bind_eq_ok h
    cases b with
    | true =>
      simp only [if_true, pure, Except.pure, Except.ok.injEq, Option.some.injEq] at h
      subst h
      exact ⟨by simp, hb⟩
    | false =>
      have ht := ih h
      exact ⟨by simp [ht.1], ht.2⟩

lemma verLoop_ok (cs : Constraint) (h : ∀ v ∈ vs, Readable v) : ∃ o, verLoop [cs] vs = .ok o := by
  induction vs with
  | nil => exact ⟨none, rfl⟩
  | cons w vs ih =>
    obtain ⟨b, hb⟩ := check_eq cs (h w (by simp))
    cases b with
    | true => exact ⟨some w, by simp [verLoop, hb, bind, Except.bind, pure, Except.pure]⟩
    | false =>
      obtain ⟨o, ho⟩ := ih (fun v hv => h v (by simp [hv]))
      exact ⟨o, by simpa [verLoop, hb, bind, Except.bind] using ho⟩

lemma Cookbook.latestVersion_mem (h : c.latestVersion = .ok v) : v ∈ c.versions := by
  unfold latestVersion at h
  split at h
  · simp at h
  · rename_i w ws hs
    rw [← mem_sortedVersions, hs]
    exact Except.ok.inj h ▸ List.mem_cons_self

lemma Cookbook.choose_mem {o : Option Constraint} (h : c.choose o = .ok (some v)) : v ∈ c.versions := by
  cases o with
  | none =>
    obtain ⟨w, hw, he⟩ := map_eq_ok h
    exact Option.some.inj he ▸ latestVersion_mem hw
  | some cs => exact mem_sortedVersions.mp (verLoop_some h).1

def Cookbook.newest (c : Cookbook) : List Constraint → Option CookbookVersion
  | [] => c.sortedVersions.head?
  | cs :: _ => c.sortedVersions.find? fun v => Passes v cs

lemma verLoop_newest (h : verLoop [cs] vs = .ok (some v)) : vs.find? (fun v => Passes v cs) = some v := by
  induction vs with
  | nil => simp [verLoop] at h
  | cons w vs ih =>
    obtain ⟨b, hb, h⟩ := bind_eq_ok h
    cases b with
    | true =>
      simp only [if_true, pure, Except.pure, Except.ok.injEq, Option.some.injEq] at h
      subst h
      exact List.find?_cons_of_pos (decide_eq_true hb)
    | false =>
      have hw : ¬ Passes w cs := by simp [Passes, hb]
      rw [List.find?_cons_of_neg (by simpa using hw)]
      exact ih h

lemma Cookbook.choose_newest {l : List Constraint} (h : c.choose l.head? = .ok (some v)) : c.newest l = some v := by
  cases l with
  | nil =>
    obtain ⟨w, hw, he⟩ := map_eq_ok h
    unfold latestVersion at hw
    split at hw
    · simp at hw
    next u us hs => simp [newest, hs, Except.ok.inj hw, Option.some.inj he]
  | cons cs l => exact verLoop_newest h

lemma Cookbook.choose_ok (hne : c.versions ≠ []) (h : ∀ v ∈ c.versions, Readable v)
    (o : Option Constraint) : ∃ r, c.choose o = .ok r := by
  cases o with
  | none =>
    cases hs : c.sortedVersions with
    | nil =>
      have hp : c.sortedVersions.Perm c.versions := List.perm_insertionSort _ _
      rw [hs] at hp
      exact absurd hp.nil_eq.symm hne
    | cons v vs => exact ⟨some v, by simp [choose, latestVersion, hs, Functor.map, Except.map]⟩
  | some cs => exact verLoop_ok cs (fun v hv => h v (mem_sortedVersions.mp hv))

lemma failsSome_ok (cs : Constraint) (h : ∀ v ∈ vs, Readable v) : ∃ b, failsSome cs vs = .ok b := by
  induction vs with
  | nil => exact ⟨false, rfl⟩
  | cons w vs ih =>
    obtain ⟨b, hb⟩ := check_eq cs (h w (by simp))
    cases b with
    | false => exact ⟨true, by simp [failsSome, hb, bind, Except.bind, pure, Except.pure]⟩
    | true =>
      obtain ⟨o, ho⟩ := ih (fun v hv => h v (by simp [hv]))
      exact ⟨o, by simpa [failsSome, hb, bind, Except.bind] using ho⟩

lemma Cookbook.badConstraints_ok (h : ∀ v ∈ c.versions, Readable v)
    (l : List Constraint) : ∃ r, c.badConstraints l = .ok r := by
  induction l with
  | nil => exact ⟨[], rfl⟩
  | cons cs l ih =>
    obtain ⟨b, hb⟩ := failsSome_ok cs (fun v hv => h v (mem_sortedVersions.mp hv))
    obtain ⟨r, hr⟩ := ih
    exact ⟨if b then cs.original :: r else r,
      by simp only [badConstraints, hb, hr, bind, Except.bind, pure, Except.pure]⟩

lemma CookbookVersion.Accepted.depList (h : v.Accepted) :
    ∃ deps, v.depList = .ok deps ∧ ∀ p ∈ deps, ∃ s, p.2 = .str s ∧ AcceptedConstraint s := by
  obtain ⟨j, hj⟩ := h.metadata
  obtain ⟨deps, hd⟩ := validateCookbookMetadata_dependencies hj
  refine ⟨deps, ?_, hd.accepted⟩
  simp [CookbookVersion.depList, hd.field]

def CookbookVersion.plain (name version : Text) (deps : List (Text × Text)) : CookbookVersion :=
  { cookbookName := name, version, metadata := plainMetadata version deps }

lemma Store.accepted_of_versions {store : Store} (h : ∀ v ∈ store.cookbooks.flatMap (·.versions),
    AcceptedVersion v.version ∧ validateCookbookMetadata (.obj v.metadata) = .ok v.metadata) : store.Accepted := by
  intro c hc v hv
  obtain ⟨hr, hm⟩ := h v (List.mem_flatMap.mpr ⟨c, hc, hv⟩)
  exact ⟨hr, _, hm⟩

end Goiardi.Cookbooks
