import Goiardi.Actors.Records
import Goiardi.Cookbooks.Store

/-! Uploaded cookbook versions: the checks on a request body, the operations on a cookbook, and the files that a
version uses. -/

namespace Goiardi.Uploads

open Validation List AList
open Cookbooks (versionLess)
open Actors (Refusal validateAsBool invalidKey jsonClassField chefTypeField)

inductive Fault
  | refused (r : Refusal)
  | panic (p : Panic)
deriving DecidableEq

def refuse (message : Text) : Fault := .refused ⟨message, 400⟩

def demand (p : Prop) [Decidable p] (e : Fault) : Except Fault Unit := if p then .ok () else .error e

lemma demand_eq_ok_iff {p : Prop} [Decidable p] {e : Fault} {u : Unit} : demand p e = .ok u ↔ p := by
  unfold demand
  split <;> simp [*]

lemma demand_eq_ok {p : Prop} [Decidable p] {e : Fault} {u : Unit} (h : demand p e = .ok u) : p :=
  demand_eq_ok_iff.mp h

section

inductive Division
  | definitions
  | libraries
  | attributes
  | recipes
  | providers
  | resources
  | templates
  | rootFiles
  | files
deriving DecidableEq

namespace Division

def field : Division → Text
  | definitions => "definitions"
  | libraries => "libraries"
  | attributes => "attributes"
  | recipes => "recipes"
  | providers => "providers"
  | resources => "resources"
  | templates => "templates"
  | rootFiles => "root_files"
  | files => "files"

def all : List Division :=
  [definitions, libraries, attributes, recipes, providers, resources, templates, rootFiles, files]

lemma mem_all (d : Division) : d ∈ all := by
  cases d <;> decide

def collect {α : Type} (f : Division → Except Fault α) : Except Fault (Division → α) := do
  let definitions ← f .definitions
  let libraries ← f .libraries
  let attributes ← f .attributes
  let recipes ← f .recipes
  let providers ← f .providers
  let resources ← f .resources
  let templates ← f .templates
  let rootFiles ← f .rootFiles
  let files ← f .files
  return fun
    | .definitions => definitions
    | .libraries => libraries
    | .attributes => attributes
    | .recipes => recipes
    | .providers => providers
    | .resources => resources
    | .templates => templates
    | .rootFiles => rootFiles
    | .files => files

lemma collect_eq_ok {α : Type} {f : Division → Except Fault α} {g : Division → α} (h : collect f = .ok g)
    (d : Division) : f d = .ok (g d) := by
  obtain ⟨definitions, h₁, h⟩ := bind_eq_ok h
  obtain ⟨libraries, h₂, h⟩ := bind_eq_ok h
  obtain ⟨attributes, h₃, h⟩ := bind_eq_ok h
  obtain ⟨recipes, h₄, h⟩ := bind_eq_ok h
  obtain ⟨providers, h₅, h⟩ := bind_eq_ok h
  obtain ⟨resources, h₆, h⟩ := bind_eq_ok h
  obtain ⟨templates, h₇, h⟩ := bind_eq_ok h
  obtain ⟨rootFiles, h₈, h⟩ := bind_eq_ok h
  obtain ⟨files, h₉, h⟩ := bind_eq_ok h
  cases h
  cases d <;> assumption

end Division

def checksumField : Text := "checksum"

def urlField : Text := "url"

def checksum (item : JsonMap) : Option Text :=
  match lookupField item checksumField with
  | .str h => some h
  | _ => none

def invalidElement (d : Division) : Fault :=
  refuse ("Invalid element in array value of '" ++ d.field ++ "'.")

def notUploaded (d : Division) (chksum : Text) : Fault :=
  if d = .recipes then refuse "Manifest has a checksum that hasn't been uploaded."
  else refuse ("Manifest has checksum " ++ chksum ++ " but it hasn't yet been uploaded")

def fieldInvalid (field : Text) : Fault := refuse ("Field '" ++ field ++ "' invalid")

variable (baseURL : Text) (stored : List Text)

def itemURL (chksum : Text) : Text := baseURL ++ "/file_store/" ++ chksum

-- an item whose checksum is not a string is dropped without an error
def validateItem (d : Division) : Json → Except Fault (Option JsonMap)
  | .obj v =>
    if v.length < 4 then .error (invalidElement d)
    else
      match checksum v with
      | some chksum =>
        if chksum ∈ stored then .ok (some (setField v urlField (.str (itemURL baseURL chksum))))
        else .error (notUploaded d chksum)
      | none => .ok none
  | _ => .error (invalidElement d)

def validateItems (d : Division) : List Json → Except Fault (List JsonMap)
  | [] => .ok []
  | v :: div => do
    let item ← validateItem baseURL stored d v
    let rest ← validateItems d div
    return item.toList ++ rest

def validateCookbookDivision (d : Division) : Json → Except Fault (List JsonMap)
  | .arr div => validateItems baseURL stored d div
  | .null => .ok []
  | _ => .error (fieldInvalid d.field)

variable {baseURL stored}

lemma validateItem_checksum {d : Division} {j : Json} {item : JsonMap}
    (h : validateItem baseURL stored d j = .ok (some item)) : ∃ chksum ∈ stored, checksum item = some chksum := by
  cases j with
  | obj v =>
    simp only [validateItem] at h
    split at h
    · cases h
    · split at h
      · next chksum hs =>
        split at h
        · next hm =>
          cases h
          exact ⟨chksum, hm, by rw [← hs, checksum, checksum, lookupField_setField_ne _ _ (by decide)]⟩
        · cases h
      · cases h
  | _ => cases h

lemma validateItems_checksum {d : Division} {div : List Json} {items : List JsonMap}
    (h : validateItems baseURL stored d div = .ok items) :
    ∀ item ∈ items, ∃ chksum ∈ stored, checksum item = some chksum := by
  induction div generalizing items with
  | nil =>
    cases h
    simp
  | cons j div ih =>
    obtain ⟨item, hit, h⟩ := bind_eq_ok h
    obtain ⟨rest, hr, h⟩ := bind_eq_ok h
    cases h
    intro i hi
    rcases mem_append.mp hi with hi | hi
    · obtain rfl : item = some i := Option.mem_toList.mp hi
      exact validateItem_checksum hit
    · exact ih hr i hi

end

structure CookbookVersion where
  cookbookName : Text
  name : Text
  version : Text
  chefType : Text
  jsonClass : Text
  divisions : Division → List JsonMap
  isFrozen : Bool
  metadata : JsonMap

section

def cookbookNameField : Text := "cookbook_name"

def frozenField : Text := "frozen?"

def metadataField : Text := "metadata"

def cookbookVersionType : Text := "cookbook_version"

def cookbookVersionClass : Text := "Chef::CookbookVersion"

def noVersion : Text := "0.0.0"

def validElements : List Text :=
  [cookbookNameField, nameField, versionField, jsonClassField, chefTypeField] ++ Division.all.map Division.field ++
    [frozenField, metadataField, "force"]

def frozenVersion (cbv : CookbookVersion) : Fault :=
  .refused ⟨"The cookbook " ++ cbv.cookbookName ++ " at version " ++ cbv.version ++
    " is frozen. Use the 'force' option to override.", 409⟩

def bodyCookbookName : Json → Except Fault Text
  | .str t => .ok t
  | .null => .error (refuse ("Field '" ++ cookbookNameField ++ "' missing"))
  | _ => .error (fieldInvalid cookbookNameField)

def checkKeys (data : JsonMap) : Except Fault Unit :=
  match invalidKey validElements data with
  | none => .ok ()
  | some e => .error (.refused e)

def checkTag (field expected current : Text) : Json → Except Fault Text
  | .null => .ok current
  | .str t => if t = expected then .ok t else .error (fieldInvalid field)
  | _ => .error (fieldInvalid field)

def bodyVersion (cbv : CookbookVersion) (j : Json) : Except Fault Text :=
  match validateAsVersion j with
  | .error _ => .error (fieldInvalid versionField)
  | .ok v => .ok (if v = noVersion ∧ cbv.version ≠ [] then cbv.version else v)

def bodyMetadata (j : Json) : Except Fault JsonMap :=
  match validateCookbookMetadata j with
  | .error e => .error (refuse e)
  | .ok m => .ok m

def bodyFrozen (j : Json) : Except Fault Bool :=
  match validateAsBool j with
  | .error e => .error (.refused e)
  | .ok b => .ok b

structure Body where
  cookbookName : Text
  chefType : Text
  jsonClass : Text
  version : Text
  divisions : Division → List JsonMap
  metadata : JsonMap
  frozen : Bool

variable (baseURL : Text) (stored : List Text)

def validateBody (cbv : CookbookVersion) (data : JsonMap) (force : Bool) : Except Fault Body := do
  demand (cbv.isFrozen = false ∨ force = true) (frozenVersion cbv)
  let cookbookName ← bodyCookbookName (lookupField data cookbookNameField)
  checkKeys data
  let chefType ← checkTag chefTypeField cookbookVersionType cbv.chefType (lookupField data chefTypeField)
  let jsonClass ← checkTag jsonClassField cookbookVersionClass cbv.jsonClass (lookupField data jsonClassField)
  let version ← bodyVersion cbv (lookupField data versionField)
  let divisions ← Division.collect fun d => validateCookbookDivision baseURL stored d (lookupField data d.field)
  let metadata ← bodyMetadata (lookupField data metadataField)
  let frozen ← bodyFrozen (lookupField data frozenField)
  return ⟨cookbookName, chefType, jsonClass, version, divisions, metadata, frozen⟩

-- `cbvData["name"].(string)` has no check of its type before it
def checkName (cbv : CookbookVersion) : Json → Except Fault Unit
  | .str n => demand (n = cbv.name) (fieldInvalid nameField)
  | _ => .error (.panic .typeAssertion)

def checkIdentity (cbv : CookbookVersion) (data : JsonMap) (body : Body) : Except Fault Unit := do
  demand (body.cookbookName = cbv.cookbookName) (fieldInvalid cookbookNameField)
  checkName cbv (lookupField data nameField)
  demand (body.version = cbv.version ∨ body.version = noVersion) (fieldInvalid versionField)

def CookbookVersion.withBody (cbv : CookbookVersion) (body : Body) : CookbookVersion :=
  { cbv with
    chefType := body.chefType
    jsonClass := body.jsonClass
    divisions := body.divisions
    isFrozen := cbv.isFrozen || body.frozen
    metadata := body.metadata }

/-- `UpdateVersion` up to the point where it cleans the files: every check comes before the first assignment. -/
def updateVersion (cbv : CookbookVersion) (data : JsonMap) (force : Bool) : Except Fault CookbookVersion := do
  let body ← validateBody baseURL stored cbv data force
  checkIdentity cbv data body
  return cbv.withBody body

def plainBody (name ver : Text) : JsonMap :=
  [(cookbookNameField, .str name), (nameField, .str (name ++ '-' :: ver)), (versionField, .str ver),
    (metadataField, .obj [(versionField, .str ver)]), (frozenField, .bool false)]

variable {baseURL stored} {cbv v : CookbookVersion} {data : JsonMap} {force : Bool} {body : Body}

lemma validateBody_ok (h : validateBody baseURL stored cbv data force = .ok body) :
    bodyCookbookName (lookupField data cookbookNameField) = .ok body.cookbookName ∧
      ∀ d, validateCookbookDivision baseURL stored d (lookupField data d.field) = .ok (body.divisions d) := by
  obtain ⟨-, -, h⟩ := bind_eq_ok h
  obtain ⟨cookbookName, hn, h⟩ := bind_eq_ok h
  obtain ⟨-, -, h⟩ := bind_eq_ok h
  obtain ⟨chefType, -, h⟩ := bind_eq_ok h
  obtain ⟨jsonClass, -, h⟩ := bind_eq_ok h
  obtain ⟨version, -, h⟩ := bind_eq_ok h
  obtain ⟨divisions, hd, h⟩ := bind_eq_ok h
  obtain ⟨metadata, -, h⟩ := bind_eq_ok h
  obtain ⟨frozen, -, h⟩ := bind_eq_ok h
  cases h
  exact ⟨hn, Division.collect_eq_ok hd⟩

lemma validateBody_divisions (h : validateBody baseURL stored cbv data force = .ok body) :
    ∀ d, ∀ item ∈ body.divisions d, ∃ chksum ∈ stored, checksum item = some chksum := by
  intro d
  have hdv := (validateBody_ok h).2 d
  unfold validateCookbookDivision at hdv
  split at hdv
  · exact validateItems_checksum hdv
  · simp [← Except.ok.inj hdv]
  · cases hdv

lemma validateBody_cookbookName (h : validateBody baseURL stored cbv data force = .ok body) :
    lookupField data cookbookNameField = .str body.cookbookName := by
  have hn := (validateBody_ok h).1
  cases hf : lookupField data cookbookNameField <;> rw [hf] at hn <;> cases hn
  rfl

lemma updateVersion_eq_ok (h : updateVersion baseURL stored cbv data force = .ok v) :
    ∃ body, validateBody baseURL stored cbv data force = .ok body ∧ v = cbv.withBody body := by
  obtain ⟨body, hb, h⟩ := bind_eq_ok h
  obtain ⟨-, -, h⟩ := bind_eq_ok h
  cases h
  exact ⟨body, hb, rfl⟩

lemma updateVersion_version (h : updateVersion baseURL stored cbv data force = .ok v) : v.version = cbv.version := by
  obtain ⟨body, -, rfl⟩ := updateVersion_eq_ok h
  rfl

lemma updateVersion_cookbookName (h : updateVersion baseURL stored cbv data force = .ok v) :
    v.cookbookName = cbv.cookbookName := by
  obtain ⟨body, -, rfl⟩ := updateVersion_eq_ok h
  rfl

end

-- Go compares strings byte by byte, which on UTF-8 is the order of the characters
def removeDupStrings : List Text → List Text
  | [] => []
  | [v] => [v]
  | v :: w :: strs => if v = w then removeDupStrings (w :: strs) else v :: removeDupStrings (w :: strs)

def getAttrHashes (attr : List JsonMap) : List Text := attr.map fun v => (checksum v).getD []

def CookbookVersion.fileHashes (cbv : CookbookVersion) : List Text :=
  removeDupStrings ((Division.all.flatMap fun d => getAttrHashes (cbv.divisions d)).insertionSort (· ≤ ·))

def dropHash (vh : Text) : List Text → List Text
  | [] => []
  | fh :: fhashes =>
    if fh = vh then fhashes
    else if vh < fh then fh :: fhashes
    else fh :: dropHash vh fhashes

def dropHashes (fhashes verHash : List Text) : List Text := verHash.foldl (fun fhs vh => dropHash vh fhs) fhashes

lemma mem_removeDupStrings {h : Text} (strs : List Text) : h ∈ removeDupStrings strs ↔ h ∈ strs := by
  fun_induction removeDupStrings strs with
  | case1 => rfl
  | case2 v => rfl
  | case3 w strs ih =>
    rw [ih]
    simp
  | case4 v w strs hne ih => rw [mem_cons, ih, mem_cons (l := w :: strs)]

lemma removeDupStrings_sorted (strs : List Text) (hs : strs.Pairwise (· ≤ ·)) :
    (removeDupStrings strs).Pairwise (· < ·) := by
  fun_induction removeDupStrings strs with
  | case1 => exact .nil
  | case2 v => simp
  | case3 w strs ih => exact ih (pairwise_cons.mp hs).2
  | case4 v w strs hne ih =>
    obtain ⟨hv, ht⟩ := pairwise_cons.mp hs
    refine pairwise_cons.mpr ⟨fun h hh => ?_, ih ht⟩
    have hvw : v < w := lt_of_le_of_ne (hv w (by simp)) hne
    rcases mem_cons.mp ((mem_removeDupStrings _).mp hh) with rfl | hh
    · exact hvw
    · exact lt_of_lt_of_le hvw ((pairwise_cons.mp ht).1 h hh)

lemma CookbookVersion.mem_fileHashes {cbv : CookbookVersion} {h : Text} :
    h ∈ cbv.fileHashes ↔ ∃ d, ∃ item ∈ cbv.divisions d, (checksum item).getD [] = h := by
  rw [fileHashes, mem_removeDupStrings, mem_insertionSort]
  simp only [mem_flatMap, getAttrHashes, mem_map]
  constructor
  · rintro ⟨d, -, item, hi, he⟩
    exact ⟨d, item, hi, he⟩
  · rintro ⟨d, item, hi, he⟩
    exact ⟨d, d.mem_all, item, hi, he⟩

lemma dropHash_sublist (vh : Text) (fhashes : List Text) : (dropHash vh fhashes).Sublist fhashes := by
  induction fhashes with
  | nil => exact .slnil
  | cons fh fhashes ih =>
    rw [dropHash]
    split
    · exact sublist_cons_self ..
    · split
      · exact .refl _
      · exact ih.cons_cons fh

lemma mem_dropHash {vh h : Text} {fhashes : List Text} (hs : fhashes.Pairwise (· < ·)) :
    h ∈ dropHash vh fhashes ↔ h ∈ fhashes ∧ h ≠ vh := by
  induction fhashes with
  | nil => simp [dropHash]
  | cons fh fhashes ih =>
    obtain ⟨hfh, ht⟩ := pairwise_cons.mp hs
    rw [dropHash]
    split
    · next heq =>
      subst heq
      constructor
      · exact fun hh => ⟨.tail _ hh, (hfh h hh).ne'⟩
      · rintro ⟨hh, hne⟩
        exact (mem_cons.mp hh).resolve_left hne
    · next hne =>
      split
      · next hlt =>
        -- the hashes are in order, so the one looked for is not among the rest
        constructor
        · intro hh
          refine ⟨hh, ?_⟩
          rcases mem_cons.mp hh with rfl | hh
          · exact hne
          · exact (hlt.trans (hfh h hh)).ne'
        · exact And.left
      · rw [mem_cons, mem_cons, ih ht]
        constructor
        · rintro (rfl | ⟨hh, hvh⟩)
          · exact ⟨.inl rfl, hne⟩
          · exact ⟨.inr hh, hvh⟩
        · rintro ⟨rfl | hh, hvh⟩
          · exact .inl rfl
          · exact .inr ⟨hh, hvh⟩

lemma dropHashes_sorted {fhashes : List Text} (hs : fhashes.Pairwise (· < ·)) (verHash : List Text) :
    (dropHashes fhashes verHash).Pairwise (· < ·) := by
  induction verHash generalizing fhashes with
  | nil => exact hs
  | cons vh verHash ih => exact ih (hs.sublist (dropHash_sublist vh fhashes))

lemma mem_dropHashes {h : Text} {fhashes : List Text} (hs : fhashes.Pairwise (· < ·)) (verHash : List Text) :
    h ∈ dropHashes fhashes verHash ↔ h ∈ fhashes ∧ h ∉ verHash := by
  induction verHash generalizing fhashes with
  | nil => simp [dropHashes]
  | cons vh verHash ih =>
    have ht := ih (hs.sublist (dropHash_sublist vh fhashes))
    rw [mem_dropHash hs] at ht
    refine ht.trans ?_
    rw [mem_cons, not_or, and_assoc]

structure Cookbook where
  name : Text
  versions : AList fun _ : Text => CookbookVersion
  latest : Option CookbookVersion

namespace Cookbook

def latestName : Text := "_latest"

def numVersions (c : Cookbook) : ℕ := c.versions.entries.length

def sortedVersions (c : Cookbook) : List CookbookVersion :=
  (c.versions.keys.insertionSort fun a b => ¬ versionLess a b).filterMap c.versions.lookup

/-- What `Get` hands out: the gob copy has no unexported fields, and with them no cached version. -/
def fetched (mode : Mode) (c : Cookbook) : Cookbook :=
  match mode with
  | .copying => { c with latest := none }
  | .sharing => c

def blank (name : Text) : Cookbook := ⟨name, ∅, none⟩

def new (name : Text) : Except Fault Cookbook :=
  if validateName name then .ok (blank name)
  else .error (refuse ("Invalid cookbook name '" ++ name ++
    "' using regex: 'Malformed cookbook name. Must only contain A-Z, a-z, 0-9, _ or -'."))

def latestVersion (c : Cookbook) : Except Fault CookbookVersion × Cookbook :=
  match c.latest with
  | some v => (.ok v, c)
  | none =>
    match c.sortedVersions with
    | [] => (.error (.panic .indexOutOfRange), c)
    | v :: _ => (.ok v, { c with latest := some v })

def updateLatestVersion (c : Cookbook) : Cookbook := { c with latest := none }.latestVersion.2

def versionNotFound (c : Cookbook) (ver : Text) : Fault :=
  .refused ⟨"Cannot find a cookbook named " ++ c.name ++ " with version " ++ ver, 404⟩

def versionExists (c : Cookbook) (ver : Text) : Fault :=
  .refused ⟨"Version " ++ ver ++ " of cookbook " ++ c.name ++
    " already exists, and shouldn't be created like this. Use UpdateVersion instead.", 409⟩

def versionMissing (c : Cookbook) (ver : Text) : Fault :=
  .refused ⟨"Version " ++ ver ++ " of cookbook " ++ c.name ++ " does not exist to be deleted.", 404⟩

def getVersion (ver : Text) (c : Cookbook) : Except Fault CookbookVersion × Cookbook :=
  if ver = latestName then c.latestVersion
  else
    match c.versions.lookup ver with
    | some v => (.ok v, c)
    | none => (.error (c.versionNotFound ver), c)

def blankVersion (c : Cookbook) (ver : Text) : CookbookVersion where
  cookbookName := c.name
  name := c.name ++ '-' :: ver
  version := ver
  chefType := cookbookVersionType
  jsonClass := cookbookVersionClass
  divisions _ := []
  isFrozen := false
  metadata := []

variable (baseURL : Text) (stored : List Text)

-- a version without files leaves `UpdateVersion` nothing to clean
def newVersion (ver : Text) (data : JsonMap) (c : Cookbook) : Except Fault CookbookVersion × Cookbook :=
  match c.getVersion ver with
  | (.ok _, c) => (.error (c.versionExists ver), c)
  | (.error (.panic p), c) => (.error (.panic p), c)
  | (.error (.refused _), c) =>
    match Uploads.updateVersion baseURL stored (c.blankVersion ver) data false with
    | .error e => (.error e, c)
    | .ok cbv => (.ok cbv, { c with versions := c.versions.insert ver cbv }.updateLatestVersion)

def setVersion (ver : Text) (cbv : CookbookVersion) (c : Cookbook) : Cookbook :=
  { c with
    versions := c.versions.insert ver cbv
    latest := c.latest.map fun l => if l.version = ver then cbv else l }

/-- `UpdateVersion` on a version of the cookbook: the new version and the hashes of the files that it had before. -/
def updateVersion (ver : Text) (data : JsonMap) (force : Bool) (c : Cookbook) :
    Except Fault (CookbookVersion × List Text) × Cookbook :=
  match c.getVersion ver with
  | (.error e, c) => (.error e, c)
  | (.ok cbv, c) =>
    match Uploads.updateVersion baseURL stored cbv data force with
    | .error e => (.error e, c)
    | .ok cbv' => (.ok (cbv', cbv.fileHashes), c.setVersion ver cbv')

def deleteVersion (ver : Text) (c : Cookbook) : Except Fault (List Text) × Cookbook :=
  match c.getVersion ver with
  | (.error (.panic p), c) => (.error (.panic p), c)
  | (.error (.refused _), c) => (.error (c.versionMissing ver), c)
  | (.ok cbv, c) => (.ok cbv.fileHashes, { c with versions := c.versions.erase ver })

/-- The loops of `deleteHashes` over all the cookbooks: what is left of the hashes belongs to no version. -/
def unusedHashes (cookbooks : List Cookbook) (fhashes : List Text) : List Text :=
  cookbooks.foldl (fun fhs cb => cb.sortedVersions.foldl (fun fhs ver => dropHashes fhs ver.fileHashes) fhs) fhashes

variable {c : Cookbook} {v : CookbookVersion} {ver : Text}

lemma mem_sortedVersions : v ∈ c.sortedVersions ↔ ∃ ver, c.versions.lookup ver = some v := by
  simp only [sortedVersions, mem_filterMap, mem_insertionSort]
  constructor
  · rintro ⟨ver, -, hv⟩
    exact ⟨ver, hv⟩
  · rintro ⟨ver, hv⟩
    exact ⟨ver, lookup_isSome.mp (by rw [hv]; rfl), hv⟩

lemma sortedVersions_eq_nil : c.sortedVersions = [] ↔ c.versions.entries = [] := by
  rw [eq_nil_iff_forall_not_mem, eq_nil_iff_forall_not_mem]
  constructor
  · rintro h ⟨ver, v⟩ he
    exact h v (mem_sortedVersions.mpr ⟨ver, mem_lookup_iff.mpr he⟩)
  · intro h v hv
    obtain ⟨ver, hvr⟩ := mem_sortedVersions.mp hv
    exact h ⟨ver, v⟩ (mem_lookup_iff.mp hvr)

lemma ne_latestName (h : AcceptedVersion ver) : ver ≠ latestName := by
  rintro rfl
  obtain ⟨v, hv⟩ := h
  cases hv

lemma numVersions_ne_zero (h : c.versions.lookup ver = some v) : c.numVersions ≠ 0 := by
  intro hz
  rw [numVersions, length_eq_zero_iff] at hz
  have hm := mem_lookup_iff.mp h
  rw [hz] at hm
  cases hm

lemma fetched_versions (mode : Mode) (c : Cookbook) : (c.fetched mode).versions = c.versions := by
  cases mode <;> rfl

lemma getVersion_some (h : AcceptedVersion ver) (hv : c.versions.lookup ver = some v) :
    c.getVersion ver = (.ok v, c) := by
  rw [getVersion, if_neg (ne_latestName h), hv]

lemma getVersion_none (h : AcceptedVersion ver) (hv : c.versions.lookup ver = none) :
    c.getVersion ver = (.error (c.versionNotFound ver), c) := by
  rw [getVersion, if_neg (ne_latestName h), hv]

lemma mem_foldl_dropHashes {h : Text} {fhashes : List Text} (hs : fhashes.Pairwise (· < ·))
    (vers : List CookbookVersion) :
    (vers.foldl (fun fhs ver => dropHashes fhs ver.fileHashes) fhashes).Pairwise (· < ·) ∧
      (h ∈ vers.foldl (fun fhs ver => dropHashes fhs ver.fileHashes) fhashes ↔
        h ∈ fhashes ∧ ∀ ver ∈ vers, h ∉ ver.fileHashes) := by
  induction vers generalizing fhashes with
  | nil => exact ⟨hs, by simp⟩
  | cons ver vers ih =>
    obtain ⟨hsr, hm⟩ := ih (dropHashes_sorted hs ver.fileHashes)
    refine ⟨hsr, hm.trans ?_⟩
    rw [mem_dropHashes hs, forall_mem_cons, and_assoc]

lemma mem_unusedHashes {h : Text} {fhashes : List Text} (hs : fhashes.Pairwise (· < ·)) (cookbooks : List Cookbook) :
    h ∈ unusedHashes cookbooks fhashes ↔
      h ∈ fhashes ∧ ∀ cb ∈ cookbooks, ∀ ver v, cb.versions.lookup ver = some v → h ∉ v.fileHashes := by
  induction cookbooks generalizing fhashes with
  | nil => simp [unusedHashes]
  | cons cb cookbooks ih =>
    obtain ⟨hsr, hm⟩ := mem_foldl_dropHashes (h := h) hs cb.sortedVersions
    refine (ih hsr).trans ?_
    rw [hm, forall_mem_cons, and_assoc]
    refine and_congr_right fun _ => and_congr_left fun _ => ?_
    constructor
    · exact fun ha ver v hv => ha v (mem_sortedVersions.mpr ⟨ver, hv⟩)
    · intro ha v hv
      obtain ⟨ver, hvr⟩ := mem_sortedVersions.mp hv
      exact ha ver v hvr

end Cookbook

end Goiardi.Uploads
