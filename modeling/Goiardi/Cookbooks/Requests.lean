import Goiardi.Cookbooks.Uploads

/-! The handlers that store and delete cookbook versions, and the one way in which they leave a cookbook without
versions. -/

namespace Goiardi.Uploads

open Validation List Option AList Cookbook

structure Server where
  cookbooks : Shelf Cookbook
  /-- The checksums in the file store. -/
  files : List Text

structure Settings where
  mode : Mode
  baseURL : Text

section

variable (env : Settings)

namespace Server

def get (s : Server) (name : Text) : Option (Cell Cookbook) :=
  (s.cookbooks.get name).map fun h => ⟨h.id, h.val.fetched env.mode⟩

def save (s : Server) (h : Cell Cookbook) : Server :=
  { s with cookbooks := s.cookbooks.put env.mode h.val.name h }

def assign (s : Server) (h : Cell Cookbook) (c : Cookbook) : Server :=
  { s with cookbooks := s.cookbooks.assign env.mode h c }

def delete (s : Server) (c : Cookbook) : Server := { s with cookbooks := s.cookbooks.remove c.name }

def allCookbooks (s : Server) : List Cookbook := s.cookbooks.cells.entries.map fun e => e.2.val.fetched env.mode

def unusedHashes (s : Server) (c : Cookbook) (fhashes : List Text) : List Text :=
  Cookbook.unusedHashes ((s.allCookbooks env).map fun cb => if cb.name = c.name then c else cb) fhashes

def removeFiles (s : Server) (hashes : List Text) : Server := { s with files := s.files.filter (· ∉ hashes) }

def deleteHashes (s : Server) (c : Cookbook) (fhashes : List Text) : Server :=
  s.removeFiles (s.unusedHashes env c fhashes)

end Server

def pathVersion (path : Text) : Except Fault Text :=
  match validateAsVersion (.str path) with
  | .ok ver => .ok ver
  | .error _ => .error (refuse ("Invalid cookbook version '" ++ path ++ "'."))

def notAllowed : Fault := .refused ⟨"You are not allowed to perform this action", 403⟩

def notAllowedAction : Fault := .refused ⟨"You are not allowed to take this action.", 403⟩

def cookbookNotFound (name : Text) : Fault := .refused ⟨"Cannot find a cookbook named " ++ name, 404⟩

def cannotGet (name : Text) : Fault := .refused ⟨"cannot get a cookbook with name " ++ name, 500⟩

def namesOther (data : JsonMap) (name : Text) : Bool :=
  match lookupField data cookbookNameField with
  | .str t => t ≠ name
  | _ => false

-- the cookbook that was saved before is deleted after an error, but not after a panic
def createVersion (ver : Text) (data : JsonMap) (h : Cell Cookbook) (s : Server) : Except Fault Unit × Server :=
  match h.val.newVersion env.baseURL s.files ver data with
  | (.error (.panic p), c) => (.error (.panic p), s.assign env h c)
  | (.error (.refused e), c) =>
    (.error (.refused e), if c.numVersions = 0 then (s.assign env h c).delete c else s.assign env h c)
  | (.ok _, c) => (.ok (), (s.assign env h c).save env ⟨h.id, c⟩)

def cleanFiles (fhashes : List Text) (cbv : CookbookVersion) (s : Server) : Except Fault Server :=
  if fhashes = [] then .ok s
  else
    match s.get env cbv.cookbookName with
    | none => .error (cannotGet cbv.cookbookName)
    | some h => .ok (s.deleteHashes env { h.val with versions := h.val.versions.insert cbv.version cbv } fhashes)

def changeVersion (ver : Text) (data : JsonMap) (force : Bool) (h : Cell Cookbook) (s : Server) :
    Except Fault Unit × Server :=
  match h.val.updateVersion env.baseURL s.files ver data force with
  | (.error e, c) => (.error e, s.assign env h c)
  | (.ok (cbv, fhashes), c) =>
    match cleanFiles env fhashes cbv (s.assign env h c) with
    | .error e => (.error e, s.assign env h c)
    | .ok s => (.ok (), s.save env ⟨h.id, c⟩)

def putInto (name ver : Text) (data : JsonMap) (force : Bool) (h : Cell Cookbook) (s : Server) :
    Except Fault Unit × Server :=
  match h.val.versions.lookup ver with
  | some _ => changeVersion env ver data force h s
  | none =>
    if namesOther data name then (.error (fieldInvalid nameField), s) else createVersion env ver data h s

def checkPut (admin : Bool) (path : Text) (body : Except Text JsonMap) : Except Fault (Text × JsonMap) := do
  let ver ← pathVersion path
  demand (admin = true) notAllowed
  match body with
  | .error e => .error (refuse e)
  | .ok data => return (ver, data)

/-- `PUT` on a version of a cookbook; a cookbook that is not there is saved without versions first. -/
def putVersion (admin : Bool) (name path : Text) (body : Except Text JsonMap) (force : Bool) (s : Server) :
    Except Fault Unit × Server :=
  match checkPut admin path body with
  | .error e => (.error e, s)
  | .ok (ver, data) =>
    match s.get env name with
    | some h => putInto env name ver data force h s
    | none =>
      match Cookbook.new name with
      | .error e => (.error e, s)
      | .ok c => putInto env name ver data force (s.cookbooks.fresh c) (s.save env (s.cookbooks.fresh c))

def dropVersion (ver : Text) (h : Cell Cookbook) (s : Server) : Except Fault Unit × Server :=
  match h.val.deleteVersion ver with
  | (.error e, c) => (.error e, s.assign env h c)
  | (.ok fhashes, c) =>
    let s := ((s.assign env h c).save env ⟨h.id, c⟩).deleteHashes env c fhashes
    (.ok (), if c.numVersions = 0 then s.delete c else s)

/-- `DELETE` on a version of a cookbook. -/
def deleteVersion (validator admin : Bool) (name path : Text) (s : Server) : Except Fault Unit × Server :=
  match pathVersion path with
  | .error e => (.error e, s)
  | .ok ver =>
    if validator then (.error notAllowed, s)
    else
      match s.get env name with
      | none => (.error (cookbookNotFound name), s)
      | some h =>
        match h.val.versions.lookup ver with
        | none => (.error (h.val.versionNotFound ver), s)
        | some _ => if admin then dropVersion env ver h s else (.error notAllowedAction, s)

inductive Request
  | put (admin : Bool) (name path : Text) (body : Except Text JsonMap) (force : Bool)
  | delete (validator admin : Bool) (name path : Text)

def serve (s : Server) : Request → Except Fault Unit × Server
  | .put admin name path body force => putVersion env admin name path body force s
  | .delete validator admin name path => deleteVersion env validator admin name path s

end

/-- The group of `(.*?)\.rb`, whose dot does not match a line break. -/
def recipeBase (before : Text) : Text → Option Text
  | '.' :: 'r' :: 'b' :: _ => some before.reverse
  | '\n' :: t => recipeBase [] t
  | c :: t => recipeBase (c :: before) t
  | [] => none

def recipeName (cbv : CookbookVersion) (r : JsonMap) : Except Fault Text :=
  match lookupField r nameField with
  | .str n =>
    match recipeBase [] n with
    | none => .error (refuse "No recipe name found")
    | some rbase =>
      .ok (if rbase = "default" then cbv.cookbookName else cbv.cookbookName ++ "::" ++ rbase)
  | _ => .error (.panic .typeAssertion)

def CookbookVersion.recipeList (cbv : CookbookVersion) : Except Fault (List Text) :=
  (cbv.divisions .recipes).mapM (recipeName cbv)

def Server.cookbookLatest (env : Settings) (s : Server) : Except Fault (List (Text × Text)) :=
  (s.allCookbooks env).mapM fun cb => do
    let v ← cb.latestVersion.1
    return (cb.name, env.baseURL ++ "/cookbooks/" ++ cb.name ++ '/' :: v.version)

def Server.cookbookRecipes (env : Settings) (s : Server) : Except Fault (List Text) := do
  let rlist ← (s.allCookbooks env).mapM fun cb => do
    let v ← cb.latestVersion.1
    v.recipeList
  return rlist.flatten.insertionSort (· ≤ ·)

section

def Refuses {α : Type} (x : Except Fault α) : Prop := ∀ p, x ≠ .error (.panic p)

variable {α β : Type} {baseURL : Text} {stored : List Text} {cbv : CookbookVersion} {data : JsonMap} {force : Bool}

lemma Refuses.bind {x : Except Fault α} {f : α → Except Fault β} (hx : Refuses x) (hf : ∀ a, Refuses (f a)) :
    Refuses (x >>= f) := by
  cases x with
  | error e => exact fun p h => hx p (congrArg Except.error (Except.error.inj h))
  | ok a => exact hf a

@[simp] lemma refuses_ok (a : α) : Refuses (.ok a : Except Fault α) := fun _ h => nomatch h

@[simp] lemma refuses_refused (r : Actors.Refusal) : Refuses (.error (.refused r) : Except Fault α) := fun _ h => nomatch h

lemma refuses_demand (p : Prop) [Decidable p] (r : Actors.Refusal) : Refuses (demand p (.refused r)) := by
  unfold demand
  split
  · exact refuses_ok ()
  · exact refuses_refused r

lemma refuses_collect {f : Division → Except Fault α} (h : ∀ d, Refuses (f d)) : Refuses (Division.collect f) :=
  (h _).bind fun _ => (h _).bind fun _ => (h _).bind fun _ => (h _).bind fun _ => (h _).bind fun _ =>
    (h _).bind fun _ => (h _).bind fun _ => (h _).bind fun _ => (h _).bind fun _ => refuses_ok _

lemma refuses_validateItem (d : Division) (j : Json) : Refuses (validateItem baseURL stored d j) := by
  cases j with
  | obj v =>
    rw [validateItem]
    split
    · exact refuses_refused _
    · split
      · split
        · exact refuses_ok _
        · unfold notUploaded
          split <;> exact refuses_refused _
      · exact refuses_ok _
  | _ => exact refuses_refused _

lemma refuses_validateItems (d : Division) (div : List Json) : Refuses (validateItems baseURL stored d div) := by
  induction div with
  | nil => exact refuses_ok _
  | cons j div ih => exact (refuses_validateItem d j).bind fun _ => ih.bind fun _ => refuses_ok _

lemma refuses_validateCookbookDivision (d : Division) (j : Json) :
    Refuses (validateCookbookDivision baseURL stored d j) := by
  cases j with
  | arr div => exact refuses_validateItems d div
  | null => exact refuses_ok _
  | _ => exact refuses_refused _

lemma refuses_checkTag (field expected current : Text) (j : Json) : Refuses (checkTag field expected current j) := by
  cases j with
  | null => exact refuses_ok _
  | str t =>
    rw [checkTag]
    split <;> first | exact refuses_ok _ | exact refuses_refused _
  | _ => exact refuses_refused _

lemma refuses_bodyCookbookName (j : Json) : Refuses (bodyCookbookName j) := by
  cases j with
  | str t => exact refuses_ok _
  | _ => exact refuses_refused _

lemma refuses_checkKeys (data : JsonMap) : Refuses (checkKeys data) := by
  unfold checkKeys
  split <;> simp

lemma refuses_bodyVersion (cbv : CookbookVersion) (j : Json) : Refuses (bodyVersion cbv j) := by
  unfold bodyVersion
  split <;> first | exact refuses_ok _ | exact refuses_refused _

lemma refuses_bodyMetadata (j : Json) : Refuses (bodyMetadata j) := by
  unfold bodyMetadata
  split <;> first | exact refuses_ok _ | exact refuses_refused _

lemma refuses_bodyFrozen (j : Json) : Refuses (bodyFrozen j) := by
  unfold bodyFrozen
  split <;> simp

lemma refuses_validateBody : Refuses (validateBody baseURL stored cbv data force) := by
  refine (refuses_demand _ _).bind fun _ => ?_
  refine (refuses_bodyCookbookName _).bind fun _ => ?_
  refine (refuses_checkKeys _).bind fun _ => ?_
  refine (refuses_checkTag _ _ _ _).bind fun _ => ?_
  refine (refuses_checkTag _ _ _ _).bind fun _ => ?_
  refine (refuses_bodyVersion _ _).bind fun _ => ?_
  refine (refuses_collect fun d => refuses_validateCookbookDivision d _).bind fun _ => ?_
  refine (refuses_bodyMetadata _).bind fun _ => ?_
  exact (refuses_bodyFrozen _).bind fun _ => refuses_ok _

lemma checkIdentity_panic {body : Body} (hn : body.cookbookName = cbv.cookbookName)
    (h : ∀ n, lookupField data nameField ≠ .str n) : checkIdentity cbv data body = .error (.panic .typeAssertion) := by
  have hc : checkName cbv (lookupField data nameField) = .error (.panic .typeAssertion) := by
    cases hj : lookupField data nameField with
    | str n => exact absurd hj (h n)
    | _ => rfl
  rw [checkIdentity, demand, if_pos hn, hc]
  rfl

lemma updateVersion_panic_iff (baseURL : Text) (stored : List Text) (force : Bool)
    (hc : ∀ t, lookupField data cookbookNameField = .str t → t = cbv.cookbookName) :
    (∃ p, updateVersion baseURL stored cbv data force = .error (.panic p)) ↔
      (∃ body, validateBody baseURL stored cbv data force = .ok body) ∧ ∀ n, lookupField data nameField ≠ .str n := by
  constructor
  · rintro ⟨p, hp⟩
    cases hb : validateBody baseURL stored cbv data force with
    | error e =>
      rw [updateVersion, hb] at hp
      cases hp
      exact absurd hb (refuses_validateBody p)
    | ok body =>
      refine ⟨⟨body, rfl⟩, fun n hn => ?_⟩
      rw [updateVersion, hb] at hp
      refine Refuses.bind ((refuses_demand _ _).bind fun _ => Refuses.bind ?_ fun _ => refuses_demand _ _)
        (fun _ => refuses_ok _) p hp
      rw [hn]
      exact refuses_demand _ _
  · rintro ⟨⟨body, hb⟩, hn⟩
    have hnm := hc _ (validateBody_cookbookName hb)
    refine ⟨.typeAssertion, ?_⟩
    rw [updateVersion, hb]
    show (checkIdentity cbv data body >>= fun _ => pure (cbv.withBody body)) = _
    rw [checkIdentity_panic hnm hn]
    rfl

end

section

structure Server.WellFormed (s : Server) : Prop where
  nonempty : ∀ name c, s.cookbooks.find name = some c → c.numVersions ≠ 0
  keyed : ∀ name c, s.cookbooks.find name = some c →
    ∀ ver v, c.versions.lookup ver = some v → v.version = ver ∧ v.cookbookName = name

structure Orderly (env : Settings) (s : Server) (r : Except Fault Unit × Server) : Prop where
  wellFormed : r.2.WellFormed
  unchanged : ∀ e, r.1 = .error e → ∀ name, r.2.cookbooks.find name = s.cookbooks.find name
  latest : ∃ l, r.2.cookbookLatest env = .ok l
  recipes : r.2.cookbookRecipes env ≠ .error (.panic .indexOutOfRange)

/-- The new cookbook is neither given a version nor deleted: the body names another cookbook, or the request panics
on the name of the version. -/
def LeavesEmpty (env : Settings) (s : Server) : Request → Prop
  | .put admin name path body _ =>
    admin = true ∧ s.cookbooks.find name = none ∧ validateName name = true ∧
      ∃ ver data, pathVersion path = .ok ver ∧ body = .ok data ∧
        (namesOther data name = true ∨
          (∃ b, validateBody env.baseURL s.files ((Cookbook.blank name).blankVersion ver) data false = .ok b) ∧
            ∀ n, lookupField data nameField ≠ .str n)
  | .delete _ _ _ _ => False

variable {env : Settings} {s s' : Server} {name ver : Text} {h : Cell Cookbook} {c : Cookbook} {v : CookbookVersion}

lemma Server.WellFormed.congr (hw : s.WellFormed) (hf : ∀ k, s'.cookbooks.find k = s.cookbooks.find k) :
    s'.WellFormed where
  nonempty k c hc := hw.nonempty k c (by rw [← hf, hc])
  keyed k c hc := hw.keyed k c (by rw [← hf, hc])

lemma Server.WellFormed.update (hw : s.WellFormed)
    (hf : ∀ k, s'.cookbooks.find k = if k = name then some c else s.cookbooks.find k) (hc : c.numVersions ≠ 0)
    (hk : ∀ ver v, c.versions.lookup ver = some v → v.version = ver ∧ v.cookbookName = name) : s'.WellFormed := by
  constructor
  all_goals
    intro k d hd
    rw [hf] at hd
    split at hd
  · cases hd
    exact hc
  · exact hw.nonempty k d hd
  · next hkn =>
    cases hd
    rw [hkn]
    exact hk
  · exact hw.keyed k d hd

lemma Server.WellFormed.remove (hw : s.WellFormed)
    (hf : ∀ k, s'.cookbooks.find k = if k = name then none else s.cookbooks.find k) : s'.WellFormed := by
  constructor
  all_goals
    intro k d hd
    rw [hf] at hd
    split at hd
  · cases hd
  · exact hw.nonempty k d hd
  · cases hd
  · exact hw.keyed k d hd

lemma latestVersion_ok (hc : c.numVersions ≠ 0) : ∃ v, c.latestVersion.1 = .ok v := by
  unfold latestVersion
  split
  · exact ⟨_, rfl⟩
  · split
    · next hs =>
      rw [numVersions, sortedVersions_eq_nil.mp hs] at hc
      exact absurd rfl hc
    · exact ⟨_, rfl⟩

lemma mapM_error {ε α β : Type} {f : α → Except ε β} {l : List α} {e : ε} (h : l.mapM f = .error e) :
    ∃ a ∈ l, f a = .error e := by
  induction l with
  | nil => cases h
  | cons a l ih =>
    rw [mapM_cons] at h
    cases ha : f a with
    | error e' =>
      rw [ha] at h
      cases h
      exact ⟨a, by simp, ha⟩
    | ok b =>
      cases hl : l.mapM f with
      | error e' =>
        rw [ha, hl] at h
        cases h
        obtain ⟨x, hx, hfx⟩ := ih hl
        exact ⟨x, by simp [hx], hfx⟩
      | ok bs =>
        rw [ha, hl] at h
        cases h

lemma Server.WellFormed.latest (hw : s.WellFormed) {cb : Cookbook} (hcb : cb ∈ s.allCookbooks env) :
    ∃ v, cb.latestVersion.1 = .ok v := by
  obtain ⟨e, he, rfl⟩ := mem_map.mp hcb
  refine latestVersion_ok ?_
  have hne := hw.nonempty e.1 e.2.val (Shelf.find_of_get (Shelf.mem_entries.mpr he))
  rwa [numVersions, fetched_versions]

lemma orderly (hw : s'.WellFormed) {x : Except Fault Unit}
    (hu : ∀ e, x = .error e → ∀ k, s'.cookbooks.find k = s.cookbooks.find k) : Orderly env s (x, s') where
  wellFormed := hw
  unchanged := hu
  latest := by
    cases hl : s'.cookbookLatest env with
    | ok l => exact ⟨l, rfl⟩
    | error e =>
      obtain ⟨cb, hcb, hc⟩ := mapM_error hl
      obtain ⟨v, hv⟩ := hw.latest hcb
      rw [hv] at hc
      cases hc
  recipes := by
    intro hl
    unfold Server.cookbookRecipes at hl
    cases hr : (s'.allCookbooks env).mapM fun cb => do
        let v ← cb.latestVersion.1
        v.recipeList with
    | ok l =>
      rw [hr] at hl
      cases hl
    | error e =>
      rw [hr] at hl
      cases hl
      obtain ⟨cb, hcb, hc⟩ := mapM_error hr
      obtain ⟨v, hv⟩ := hw.latest hcb
      rw [hv] at hc
      obtain ⟨r, -, hre⟩ := mapM_error hc
      unfold recipeName at hre
      split at hre
      · split at hre <;> cases hre
      · cases hre

lemma orderly_same (hw : s.WellFormed) (x : Except Fault Unit) : Orderly env s (x, s) :=
  orderly hw fun _ _ _ => rfl

structure Handle (env : Settings) (s : Server) (name : Text) (h : Cell Cookbook) : Prop where
  named : h.val.name = name
  shared : env.mode = .sharing → s.cookbooks.get name = some h

lemma handle_get (ht : s.cookbooks.Tidy Cookbook.name) (hg : s.get env name = some h) :
    Handle env s name h ∧ ∃ d, s.cookbooks.find name = some d ∧ h.val = d.fetched env.mode := by
  obtain ⟨d, hd, rfl⟩ := map_eq_some_iff.mp hg
  have hn := ht.named name d hd
  obtain ⟨_ | _, baseURL⟩ := env
  · exact ⟨⟨hn, fun hm => nomatch hm⟩, d.val, Shelf.find_of_get hd, rfl⟩
  · exact ⟨⟨hn, fun _ => hd⟩, d.val, Shelf.find_of_get hd, rfl⟩

lemma Handle.assign_self (hh : Handle env s name h) : s.assign env h h.val = s := by
  obtain ⟨_ | _, baseURL⟩ := env
  · rfl
  · exact congrArg (fun x => { s with cookbooks := x }) (Shelf.synced_get (hh.shared rfl)).assign_eq

lemma Handle.find_save (hh : Handle env s name h) (ht : s.cookbooks.Tidy Cookbook.name) (hc : c.name = name) (k : Text) :
    ((s.assign env h c).save env ⟨h.id, c⟩).cookbooks.find k = if k = name then some c else s.cookbooks.find k := by
  obtain ⟨_ | _, baseURL⟩ := env
  · show (s.cookbooks.put .copying c.name ⟨h.id, c⟩).find k = _
    rw [Shelf.find_put_copying, hc]
  · show ((s.cookbooks.assign .sharing h c).put .sharing c.name ⟨h.id, c⟩).find k = _
    rw [hc, ht.find_assign_put (hh.shared rfl)]

section

variable (env s name)

lemma handle_fresh : Handle env (s.save env (s.cookbooks.fresh (.blank name))) name (s.cookbooks.fresh (.blank name)) := by
  obtain ⟨_ | _, baseURL⟩ := env
  · exact ⟨rfl, fun hm => nomatch hm⟩
  · exact ⟨rfl, fun _ => Shelf.get_insertCell_self Shelf.synced_assign⟩

lemma find_fresh (k : Text) : (s.save env (s.cookbooks.fresh (.blank name))).cookbooks.find k =
    if k = name then some (.blank name) else s.cookbooks.find k :=
  (Shelf.loose_fresh s.cookbooks (blank name)).synced.find_put

end

lemma latestVersion_versions (c : Cookbook) : c.latestVersion.2.versions = c.versions := by
  unfold latestVersion
  split
  · rfl
  · split <;> rfl

lemma latestVersion_name (c : Cookbook) : c.latestVersion.2.name = c.name := by
  unfold latestVersion
  split
  · rfl
  · split <;> rfl

section

lemma newVersion_cases (baseURL : Text) (stored : List Text) (data : JsonMap) (hver : AcceptedVersion ver) :
    (∃ cbv d, c.newVersion baseURL stored ver data = (.ok cbv, d) ∧ d.versions = c.versions.insert ver cbv ∧
        updateVersion baseURL stored (c.blankVersion ver) data false = .ok cbv) ∨
      ∃ e, c.newVersion baseURL stored ver data = (.error e, c) := by
  cases hv : c.versions.lookup ver with
  | some v =>
    right
    exact ⟨_, by rw [newVersion, getVersion_some hver hv]⟩
  | none =>
    rw [newVersion, getVersion_none hver hv]
    simp only [versionNotFound]
    cases hu : updateVersion baseURL stored (c.blankVersion ver) data false with
    | error e => exact .inr ⟨e, rfl⟩
    | ok cbv => exact .inl ⟨cbv, _, rfl, latestVersion_versions _, rfl⟩

lemma updateVersion_cases (baseURL : Text) (stored : List Text) (data : JsonMap) (force : Bool)
    (hver : AcceptedVersion ver) (hv : c.versions.lookup ver = some v) :
    (∃ cbv, c.updateVersion baseURL stored ver data force = (.ok (cbv, v.fileHashes), c.setVersion ver cbv) ∧
        updateVersion baseURL stored v data force = .ok cbv) ∨
      ∃ e, c.updateVersion baseURL stored ver data force = (.error e, c) := by
  rw [Cookbook.updateVersion, Cookbook.getVersion_some hver hv]
  simp only
  cases updateVersion baseURL stored v data force with
  | error e => exact .inr ⟨e, rfl⟩
  | ok cbv => exact .inl ⟨cbv, rfl, rfl⟩

lemma deleteVersion_cases (hver : AcceptedVersion ver) :
    (∃ fhashes, c.deleteVersion ver = (.ok fhashes, { c with versions := c.versions.erase ver })) ∨
      ∃ e, c.deleteVersion ver = (.error e, c) := by
  cases hv : c.versions.lookup ver with
  | some v => exact .inl ⟨_, by rw [Cookbook.deleteVersion, Cookbook.getVersion_some hver hv]⟩
  | none => exact .inr ⟨_, by rw [Cookbook.deleteVersion, Cookbook.getVersion_none hver hv]; rfl⟩

lemma newVersion_name (baseURL : Text) (stored : List Text) (data : JsonMap) (c : Cookbook) (hver : AcceptedVersion ver) :
    (c.newVersion baseURL stored ver data).2.name = c.name := by
  cases hv : c.versions.lookup ver with
  | some v => rw [newVersion, getVersion_some hver hv]
  | none =>
    rw [newVersion, getVersion_none hver hv]
    simp only [versionNotFound]
    split
    · rfl
    · exact latestVersion_name _

end

lemma keyed_insert (hk : ∀ ver v, c.versions.lookup ver = some v → v.version = ver ∧ v.cookbookName = name)
    (hv : v.version = ver) (hn : v.cookbookName = name) {d : Cookbook} (hd : d.versions = c.versions.insert ver v) :
    d.numVersions ≠ 0 ∧ ∀ ver v, d.versions.lookup ver = some v → v.version = ver ∧ v.cookbookName = name := by
  have hs : d.versions.lookup ver = some v := by rw [hd, lookup_insert]
  refine ⟨numVersions_ne_zero hs, fun w u hu => ?_⟩
  by_cases hw : w = ver
  · subst hw
    rw [hs] at hu
    cases hu
    exact ⟨hv, hn⟩
  · rw [hd, lookup_insert_ne hw] at hu
    exact hk w u hu

lemma cleanFiles_ok {cbv : CookbookVersion} (hs : (s.get env name).isSome) (hn : cbv.cookbookName = name)
    (fhashes : List Text) (h : Cell Cookbook) (c : Cookbook) :
    ∃ s', cleanFiles env fhashes cbv (s.assign env h c) = .ok s' ∧ s'.cookbooks = (s.assign env h c).cookbooks := by
  have hsm : ((s.assign env h c).get env cbv.cookbookName).isSome := by
    rw [hn, Server.get, isSome_map, Server.assign, Shelf.isSome_get_assign]
    rwa [Server.get, isSome_map] at hs
  unfold cleanFiles
  split
  · exact ⟨_, rfl, rfl⟩
  · split
    · next hnn =>
      rw [hnn] at hsm
      cases hsm
    · exact ⟨_, rfl, rfl⟩

section

variable {data : JsonMap} {force : Bool} (hw : s.WellFormed) (ht : s.cookbooks.Tidy Cookbook.name)
  (hh : Handle env s name h) (hver : AcceptedVersion ver)
  (hk : ∀ ver v, h.val.versions.lookup ver = some v → v.version = ver ∧ v.cookbookName = name)

include hh hver

lemma createVersion_panic (hv : h.val.versions.lookup ver = none) {p : Panic}
    (hu : updateVersion env.baseURL s.files (h.val.blankVersion ver) data false = .error (.panic p)) :
    createVersion env ver data h s = (.error (.panic p), s) := by
  rw [createVersion, newVersion, getVersion_none hver hv]
  simp only [versionNotFound, hu, hh.assign_self]

lemma createVersion_refused (hv : h.val.versions.lookup ver = none) {e : Actors.Refusal}
    (hu : updateVersion env.baseURL s.files (h.val.blankVersion ver) data false = .error (.refused e)) :
    createVersion env ver data h s =
      (.error (.refused e), if h.val.numVersions = 0 then s.delete h.val else s) := by
  rw [createVersion, newVersion, getVersion_none hver hv]
  simp only [versionNotFound, hu, hh.assign_self]

include ht hk

lemma createVersion_ok (hv : h.val.versions.lookup ver = none) {cbv : CookbookVersion}
    (hu : updateVersion env.baseURL s.files (h.val.blankVersion ver) data false = .ok cbv) :
    ∃ c s', createVersion env ver data h s = (.ok (), s') ∧ c.numVersions ≠ 0 ∧
      (∀ ver v, c.versions.lookup ver = some v → v.version = ver ∧ v.cookbookName = name) ∧
      ∀ k, s'.cookbooks.find k = if k = name then some c else s.cookbooks.find k := by
  obtain ⟨hne, hky⟩ := keyed_insert hk (updateVersion_version hu) ((updateVersion_cookbookName hu).trans hh.named)
    (d := { h.val with versions := h.val.versions.insert ver cbv }.updateLatestVersion) (latestVersion_versions _)
  refine ⟨_, _, ?_, hne, hky, hh.find_save ht ((latestVersion_name _).trans hh.named)⟩
  rw [createVersion, Cookbook.newVersion, Cookbook.getVersion_none hver hv]
  simp only [Cookbook.versionNotFound, hu]

lemma changeVersion_spec (hs : (s.get env name).isSome) (hv : h.val.versions.lookup ver = some v) :
    (∃ e, changeVersion env ver data force h s = (.error e, s)) ∨
      ∃ c s', changeVersion env ver data force h s = (.ok (), s') ∧ c.numVersions ≠ 0 ∧
        (∀ ver v, c.versions.lookup ver = some v → v.version = ver ∧ v.cookbookName = name) ∧
        ∀ k, s'.cookbooks.find k = if k = name then some c else s.cookbooks.find k := by
  obtain ⟨hvv, hvn⟩ := hk ver v hv
  unfold changeVersion Cookbook.updateVersion
  rw [Cookbook.getVersion_some hver hv]
  simp only
  cases hu : updateVersion env.baseURL s.files v data force with
  | error e =>
    left
    exact ⟨e, by simp only [hh.assign_self]⟩
  | ok cbv =>
    right
    have hcb := (updateVersion_version hu).trans hvv
    have hc := (updateVersion_cookbookName hu).trans hvn
    obtain ⟨hne, hky⟩ := keyed_insert hk hcb hc (d := h.val.setVersion ver cbv) rfl
    obtain ⟨s', hs', hck⟩ := cleanFiles_ok hs hc v.fileHashes h (h.val.setVersion ver cbv)
    refine ⟨_, s'.save env ⟨h.id, h.val.setVersion ver cbv⟩, ?_, hne, hky, fun k => ?_⟩
    · simp only [hs']
    · rw [Server.save, hck]
      exact hh.find_save (c := h.val.setVersion ver cbv) ht hh.named k

lemma dropVersion_spec (hv : h.val.versions.lookup ver = some v) :
    ∃ c s', dropVersion env ver h s = (.ok (), s') ∧
      (∀ ver v, c.versions.lookup ver = some v → v.version = ver ∧ v.cookbookName = name) ∧
      ∀ k, s'.cookbooks.find k =
        if k = name then (if c.numVersions = 0 then none else some c) else s.cookbooks.find k := by
  obtain ⟨c, hc⟩ : ∃ c : Cookbook, c = { h.val with versions := h.val.versions.erase ver } := ⟨_, rfl⟩
  have hn : c.name = name := by
    rw [hc]
    exact hh.named
  have hf := hh.find_save ht hn
  have hd : dropVersion env ver h s = (.ok (),
      let s := ((s.assign env h c).save env ⟨h.id, c⟩).deleteHashes env c v.fileHashes
      if c.numVersions = 0 then s.delete c else s) := by
    rw [dropVersion, Cookbook.deleteVersion, Cookbook.getVersion_some hver hv, hc]
  refine ⟨c, _, hd, fun w u hu => ?_, fun k => ?_⟩
  · rw [hc] at hu
    by_cases hwv : w = ver
    · subst hwv
      rw [lookup_erase] at hu
      cases hu
    · rw [lookup_erase_ne hwv] at hu
      exact hk w u hu
  · split
    · rw [Server.delete, hn]
      refine Shelf.find_remove.trans ?_
      split
      · rfl
      · next hkn => exact (hf k).trans (if_neg hkn)
    · exact hf k

end

lemma pathVersion_eq {path : Text} (h : pathVersion path = .ok ver) : ver = path := by
  unfold pathVersion at h
  split at h
  · next w hw =>
    cases h
    exact validateAsVersion_str hw
  · cases h

lemma pathVersion_accepted {path : Text} (h : pathVersion path = .ok ver) : AcceptedVersion ver := by
  unfold pathVersion at h
  split at h
  · next w hw =>
    cases h
    exact ⟨path, validateAsVersion_str hw ▸ hw⟩
  · cases h

lemma deleteVersion_orderly (hw : s.WellFormed) (ht : s.cookbooks.Tidy Cookbook.name) (validator admin : Bool)
    (name path : Text) : Orderly env s (deleteVersion env validator admin name path s) := by
  unfold deleteVersion
  split
  · exact orderly_same hw _
  next ver hver =>
    split
    · exact orderly_same hw _
    · split
      · exact orderly_same hw _
      next h hg =>
        obtain ⟨hh, d, hd, hvl⟩ := handle_get ht hg
        split
        · exact orderly_same hw _
        next v hv =>
          split
          · have hk : ∀ ver v, h.val.versions.lookup ver = some v → v.version = ver ∧ v.cookbookName = name := by
              rw [hvl, fetched_versions]
              exact hw.keyed name d hd
            obtain ⟨c, s', hdr, hky, hf⟩ := dropVersion_spec ht hh (pathVersion_accepted hver) hk hv
            rw [hdr]
            refine orderly ?_ fun e he => nomatch he
            by_cases hc : c.numVersions = 0
            · simp only [hc, if_true] at hf
              exact hw.remove hf
            · simp only [hc, if_false] at hf
              exact hw.update hf hc hky
          · exact orderly_same hw _

lemma checkPut_eq_ok {admin : Bool} {path : Text} {body : Except Text JsonMap} {data : JsonMap} :
    checkPut admin path body = .ok (ver, data) ↔ pathVersion path = .ok ver ∧ admin = true ∧ body = .ok data := by
  constructor
  · intro h
    obtain ⟨w, hp, h⟩ := bind_eq_ok h
    obtain ⟨u, ha, h⟩ := bind_eq_ok h
    cases body with
    | error e => cases h
    | ok d =>
      cases h
      exact ⟨hp, demand_eq_ok ha, rfl⟩
  · rintro ⟨hp, rfl, rfl⟩
    rw [checkPut, hp]
    rfl

lemma putInto_orderly (hw : s.WellFormed) (ht : s.cookbooks.Tidy Cookbook.name) (hver : AcceptedVersion ver)
    (hg : s.get env name = some h) (data : JsonMap) (force : Bool) :
    Orderly env s (putInto env name ver data force h s) := by
  obtain ⟨hh, d, hd, hvl⟩ := handle_get ht hg
  have hk : ∀ ver v, h.val.versions.lookup ver = some v → v.version = ver ∧ v.cookbookName = name := by
    rw [hvl, fetched_versions]
    exact hw.keyed name d hd
  have hne : h.val.numVersions ≠ 0 := by
    rw [hvl, numVersions, fetched_versions]
    exact hw.nonempty name d hd
  unfold putInto
  split
  · next v hv =>
    rcases changeVersion_spec ht hh hver hk (by rw [hg]; rfl) hv with ⟨e, he⟩ | ⟨c, s', hok, hc, hky, hf⟩
    · rw [he]
      exact orderly_same hw _
    · rw [hok]
      exact orderly (hw.update hf hc hky) fun e he => by cases he
  · next hv =>
    split
    · exact orderly_same hw _
    · cases hu : updateVersion env.baseURL s.files (h.val.blankVersion ver) data false with
      | ok cbv =>
        obtain ⟨c, s', hok, hc, hky, hf⟩ := createVersion_ok ht hh hver hk hv hu
        rw [hok]
        exact orderly (hw.update hf hc hky) fun e he => by cases he
      | error e =>
        cases e with
        | panic p =>
          rw [createVersion_panic hh hver hv hu]
          exact orderly_same hw _
        | refused e =>
          rw [createVersion_refused hh hver hv hu, if_neg hne]
          exact orderly_same hw _

lemma putInto_fresh_iff (hw : s.WellFormed) (ht : s.cookbooks.Tidy Cookbook.name) (hver : AcceptedVersion ver)
    (hn : s.cookbooks.find name = none) (data : JsonMap) (force : Bool) :
    Orderly env s (putInto env name ver data force (s.cookbooks.fresh (.blank name))
        (s.save env (s.cookbooks.fresh (.blank name)))) ↔ ¬ (namesOther data name = true ∨
        (∃ b, validateBody env.baseURL s.files ((Cookbook.blank name).blankVersion ver) data false = .ok b) ∧
          ∀ n, lookupField data nameField ≠ .str n) := by
  have hfr := find_fresh env s name
  have hh := handle_fresh env s name
  have ht₁ : (s.save env (s.cookbooks.fresh (.blank name))).cookbooks.Tidy Cookbook.name :=
    ht.put_fresh env.mode (Cookbook.blank name)
  have hem : ∀ x : Except Fault Unit,
      ¬ Orderly env s (x, s.save env (s.cookbooks.fresh (.blank name))) := by
    intro x ho
    exact ho.wellFormed.nonempty name (.blank name) (by rw [hfr, if_pos rfl]) rfl
  have hl : (s.cookbooks.fresh (Cookbook.blank name)).val.versions.lookup ver = none := rfl
  unfold putInto
  rw [hl]
  cases hot : namesOther data name with
  | true => simp [hem]
  | false =>
    have hck : ∀ t, lookupField data cookbookNameField = .str t →
        t = ((Cookbook.blank name).blankVersion ver).cookbookName := by
      intro t hf
      rw [namesOther, hf] at hot
      have hnm : t = name := by simpa using hot
      exact hnm
    have hpn := updateVersion_panic_iff env.baseURL s.files false hck
    simp only [Bool.false_eq_true, if_false, false_or]
    rw [← hpn]
    cases hu : updateVersion env.baseURL s.files ((Cookbook.blank name).blankVersion ver) data false with
    | ok cbv =>
      obtain ⟨c, s', hok, hc, hky, hfn⟩ := createVersion_ok ht₁ hh hver (fun _ _ hv => nomatch hv) hl hu
      rw [hok]
      have hf' : ∀ k, s'.cookbooks.find k = if k = name then some c else s.cookbooks.find k := by
        intro k
        rw [hfn, hfr]
        split <;> rfl
      exact iff_of_true (orderly (hw.update hf' hc hky) fun e he => nomatch he) fun ⟨p, hp⟩ => nomatch hp
    | error e =>
      cases e with
      | panic p =>
        rw [createVersion_panic hh hver hl hu]
        exact iff_of_false (hem _) fun hno => hno ⟨p, rfl⟩
      | refused e =>
        have hz : (s.cookbooks.fresh (Cookbook.blank name)).val.numVersions = 0 := rfl
        rw [createVersion_refused hh hver hl hu, if_pos hz]
        have hs : ∀ k, ((s.save env (s.cookbooks.fresh (.blank name))).delete (.blank name)).cookbooks.find k =
            s.cookbooks.find k := by
          intro k
          refine Shelf.find_remove.trans ?_
          split
          · next hk => rw [hk]; exact hn.symm
          · next hk => exact (hfr k).trans (if_neg hk)
        exact iff_of_true (orderly (hw.congr hs) fun _ _ => hs) fun ⟨p, hp⟩ => nomatch hp

end

theorem serve_orderly_iff (env : Settings) (s : Server) (r : Request) (ht : s.cookbooks.Tidy Cookbook.name)
    (hw : s.WellFormed) : Orderly env s (serve env s r) ↔ ¬ LeavesEmpty env s r := by
  cases r with
  | delete validator admin name path =>
    exact iff_of_true (deleteVersion_orderly hw ht validator admin name path) not_false
  | put admin name path body force =>
    simp only [serve, putVersion, LeavesEmpty]
    cases hc : checkPut admin path body with
    | error e =>
      refine iff_of_true (orderly_same hw _) ?_
      rintro ⟨ha, -, -, ver, data, hp, hb, -⟩
      rw [checkPut_eq_ok.mpr ⟨hp, ha, hb⟩] at hc
      cases hc
    | ok checked =>
      obtain ⟨ver, data⟩ := checked
      obtain ⟨hp, ha, hb⟩ := checkPut_eq_ok.mp hc
      have hver := pathVersion_accepted hp
      cases hg : s.get env name with
      | some h =>
        refine iff_of_true (putInto_orderly hw ht hver hg data force) fun he => ?_
        obtain ⟨-, d, hd, -⟩ := handle_get ht hg
        rw [hd] at he
        cases he.2.1
      | none =>
        have hn : s.cookbooks.find name = none :=
          Shelf.find_eq_none.mpr (map_eq_none_iff.mp hg)
        cases hnm : validateName name with
        | false =>
          rw [new, hnm]
          exact iff_of_true (orderly_same hw _) fun he => Bool.noConfusion he.2.2.1
        | true =>
          rw [Cookbook.new, hnm, if_pos rfl]
          refine (putInto_fresh_iff hw ht hver hn data force).trans (not_congr ?_)
          constructor
          · exact fun hbd => ⟨ha, hn, rfl, ver, data, hp, hb, hbd⟩
          · rintro ⟨-, -, -, ver', data', hp', hb', hbd⟩
            rw [hp] at hp'
            rw [hb] at hb'
            cases hp'
            cases hb'
            exact hbd

def copying : Settings := ⟨.copying, "http://localhost"⟩

def emptyServer : Server := ⟨.empty, []⟩

theorem serve_orderly_app : Orderly copying emptyServer (serve copying emptyServer
      (.put true "app" "1.0.0" (.ok (plainBody "app" "1.0.0")) false)) := by
  refine (serve_orderly_iff _ _ _ Shelf.tidy_empty ⟨fun _ _ h => (by cases h), fun _ _ h => (by cases h)⟩).mpr ?_
  rintro ⟨-, -, -, ver, data, -, hb, ho | ⟨-, hn⟩⟩
  · cases hb
    revert ho
    decide
  · cases hb
    exact hn _ rfl

theorem serve_not_orderly : ¬ Orderly copying emptyServer (serve copying emptyServer
      (.put true "app" "1.0.0" (.ok (plainBody "web" "1.0.0")) false)) := by
  intro h
  have he : ((serve copying emptyServer (.put true "app" "1.0.0"
      (.ok (plainBody "web" "1.0.0")) false)).2.cookbooks.find "app").map numVersions =
        some 0 := by
    decide +kernel
  obtain ⟨c, hc, hz⟩ := map_eq_some_iff.mp he
  exact h.wellFormed.nonempty _ c hc hz

def CookbookVersion.HasFile (v : CookbookVersion) (h : Text) : Prop :=
  ∃ d, ∃ item ∈ v.divisions d, (checksum item).getD [] = h

def Cookbook.HasFile (c : Cookbook) (h : Text) : Prop := ∃ ver v, c.versions.lookup ver = some v ∧ v.HasFile h

lemma Cookbook.mem_unusedHashes_iff {h : Text} {fhashes : List Text} (hs : fhashes.Pairwise (· < ·))
    (cookbooks : List Cookbook) :
    h ∈ unusedHashes cookbooks fhashes ↔ h ∈ fhashes ∧ ∀ cb ∈ cookbooks, ¬ cb.HasFile h := by
  rw [mem_unusedHashes hs]
  refine and_congr_right fun _ => forall₂_congr fun cb _ => ?_
  simp only [HasFile, CookbookVersion.HasFile, not_exists, not_and, CookbookVersion.mem_fileHashes]

def twoFiles : Server := { emptyServer.save copying (Shelf.empty.fresh (.blank "app")) with
  files := [['x'], ['y']] }

end Goiardi.Uploads
