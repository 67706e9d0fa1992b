import Goiardi.Cookbooks.Requests
import Goiardi.Dump.Readers

/-! Cookbooks come back if the files of their versions do, and if every version passes the checks of an upload without
a change. -/

namespace Goiardi.Dump

open Validation AList
open Uploads
open Actors (jsonClassField chefTypeField)

section

variable {baseURL : Text} {stored : List Text}

def ItemReturns (baseURL : Text) (stored : List Text) (item : JsonMap) : Prop :=
  4 ≤ item.length ∧ ∃ chksum ∈ stored, checksum item = some chksum ∧
    setField item urlField (.str (itemURL baseURL chksum)) = item

lemma validateItem_self_iff {d : Division} {item : JsonMap} :
    validateItem baseURL stored d (.obj item) = .ok (some item) ↔ ItemReturns baseURL stored item := by
  rw [validateItem, ItemReturns]
  split
  · next hl => simp [Nat.not_le.mpr hl]
  · next hl =>
    split
    · next chksum hs =>
      split
      · next hm => simp [hs, hm, Nat.not_lt.mp hl]
      · next hm => simp [hs, hm]
    · next hs => simp [hs]

lemma length_validateItems {d : Division} {div : List Json} {items : List JsonMap}
    (h : validateItems baseURL stored d div = .ok items) : items.length ≤ div.length := by
  induction div generalizing items with
  | nil =>
    cases h
    exact le_rfl
  | cons j div ih =>
    obtain ⟨item, -, h⟩ := bind_eq_ok h
    obtain ⟨rest, hr, h⟩ := bind_eq_ok h
    cases h
    have hle := ih hr
    cases item <;> simp <;> omega

lemma validateItems_self_iff {d : Division} {items : List JsonMap} :
    validateItems baseURL stored d (items.map .obj) = .ok items ↔ ∀ item ∈ items, ItemReturns baseURL stored item := by
  induction items with
  | nil => exact ⟨fun _ => by simp, fun _ => rfl⟩
  | cons item items ih =>
    rw [List.forall_mem_cons, ← ih, ← validateItem_self_iff (d := d), List.map_cons, validateItems]
    constructor
    · intro h
      obtain ⟨found, hf, h⟩ := bind_eq_ok h
      obtain ⟨rest, hr, h⟩ := bind_eq_ok h
      cases found with
      | none =>
        -- a dropped file is missing at the end
        have hle := length_validateItems hr
        have heq : rest = item :: items := Except.ok.inj h
        rw [heq] at hle
        simp at hle
      | some found =>
        cases h
        exact ⟨hf, hr⟩
    · rintro ⟨hit, hi⟩
      rw [hit, hi]
      rfl

/-- A version that passes the checks of an upload, for the cookbook and the key it is stored under, as it is. -/
structure VersionReturns (baseURL : Text) (stored : List Text) (name ver : Text) (v : CookbookVersion) : Prop where
  cookbookName : v.cookbookName = name
  name : v.name = name ++ '-' :: ver
  version : v.version = ver
  accepted : AcceptedVersion ver
  chefType : v.chefType = cookbookVersionType
  jsonClass : v.jsonClass = cookbookVersionClass
  divisions : ∀ d, ∀ item ∈ v.divisions d, ItemReturns baseURL stored item
  metadata : validateCookbookMetadata (.obj v.metadata) = .ok v.metadata

lemma tag_eq_ok_iff {field expected current t u : Text} :
    checkTag field expected current (.str t) = .ok u ↔ t = expected ∧ t = u := by
  rw [checkTag]
  split <;> simp [*]

lemma bodyVersion_eq_ok_iff {cbv : CookbookVersion} {t u : Text} :
    bodyVersion cbv (.str t) = .ok u ↔
      AcceptedVersion t ∧ u = if t = noVersion ∧ cbv.version ≠ [] then cbv.version else t := by
  rw [bodyVersion, AcceptedVersion]
  cases h : validateAsVersion (.str t) with
  | error e => simp
  | ok x =>
    obtain rfl := validateAsVersion_str h
    simp [eq_comm]

lemma bodyMetadata_eq_ok_iff {j : Json} {m : JsonMap} :
    bodyMetadata j = .ok m ↔ validateCookbookMetadata j = .ok m := by
  rw [bodyMetadata]
  cases validateCookbookMetadata j <;> simp

lemma collect_eq_ok_iff {α : Type} {f : Division → Except Fault α} {g : Division → α} :
    Division.collect f = .ok g ↔ ∀ d, f d = .ok (g d) := by
  refine ⟨Division.collect_eq_ok, fun h => ?_⟩
  simp only [Division.collect, h]
  exact congrArg Except.ok (funext fun d => by cases d <;> rfl)

lemma updateVersion_self_iff {c : Cookbook} {ver : Text} {v : CookbookVersion} :
    updateVersion baseURL stored (c.blankVersion ver) (versionJSON v) false = .ok v ↔
      VersionReturns baseURL stored c.name ver v := by
  have hb : validateBody baseURL stored (c.blankVersion ver) (versionJSON v) false = (do
      let chefType ← checkTag chefTypeField cookbookVersionType cookbookVersionType (.str v.chefType)
      let jsonClass ← checkTag jsonClassField cookbookVersionClass cookbookVersionClass (.str v.jsonClass)
      let version ← bodyVersion (c.blankVersion ver) (.str v.version)
      let divisions ← Division.collect fun d =>
        validateCookbookDivision baseURL stored d (lookupField (versionJSON v) d.field)
      let metadata ← bodyMetadata (.obj v.metadata)
      return ⟨v.cookbookName, chefType, jsonClass, version, divisions, metadata, v.isFrozen⟩) := rfl
  have hdv : ∀ d, lookupField (versionJSON v) d.field = .arr ((v.divisions d).map .obj) := by
    intro d
    cases d <;> rfl
  rw [updateVersion, hb]
  simp only [hdv, validateCookbookDivision, bind_eq_ok_iff, tag_eq_ok_iff, collect_eq_ok_iff, ok_eq_ok_iff,
    checkIdentity, demand_eq_ok_iff, exists_unit, bodyVersion_eq_ok_iff, bodyMetadata_eq_ok_iff]
  constructor
  · rintro ⟨_, ⟨_, ⟨ht, rfl⟩, _, ⟨hc, rfl⟩, _, ⟨ha, -⟩, divisions, hd, metadata, hm, rfl⟩,
      -, heq⟩
    have hv : v.version = ver := (congrArg CookbookVersion.version heq).symm
    have hds : divisions = v.divisions := congrArg CookbookVersion.divisions heq
    have hmt : metadata = v.metadata := congrArg CookbookVersion.metadata heq
    exact {
      cookbookName := (congrArg CookbookVersion.cookbookName heq).symm
      name := (congrArg CookbookVersion.name heq).symm
      version := hv
      accepted := hv ▸ ha
      chefType := ht
      jsonClass := hc
      divisions := fun d => validateItems_self_iff.mp (hds ▸ hd d)
      metadata := hmt ▸ hm }
  · intro h
    have hs : (if v.version = noVersion ∧ (c.blankVersion ver).version ≠ [] then (c.blankVersion ver).version
        else v.version) = ver := by
      rw [h.version]
      exact ite_self ver
    refine ⟨_, ⟨_, ⟨h.chefType, rfl⟩, _, ⟨h.jsonClass, rfl⟩, _, ⟨h.version ▸ h.accepted, rfl⟩, v.divisions,
      fun d => validateItems_self_iff.mpr (h.divisions d), _, h.metadata, rfl⟩, ⟨h.cookbookName, ?_, ?_⟩, ?_⟩
    · exact if_pos h.name
    · exact .inl hs
    · obtain ⟨cookbookName, name, version, chefType, jsonClass, divisions, isFrozen, metadata⟩ := v
      obtain rfl : cookbookName = c.name := h.cookbookName
      obtain rfl : name = c.name ++ '-' :: ver := h.name
      obtain rfl : version = ver := h.version
      rfl

end

section

variable (setup : Setup) (stored : List Text)

lemma latestVersion_error {c d : Cookbook} {e : Fault} (h : c.latestVersion = (.error e, d)) :
    e = .panic .indexOutOfRange := by
  unfold Cookbook.latestVersion at h
  split at h
  · cases h
  · split at h
    · cases h
      rfl
    · cases h

variable {v : CookbookVersion} {c : Cookbook} {stored' : List Text}

lemma newVersion_eq_ok_iff {baseURL ver : Text} {data : JsonMap} {c c' : Cookbook} :
    c.newVersion baseURL stored ver data = (.ok v, c') ↔ ver ≠ Cookbook.latestName ∧ c.versions.lookup ver = none ∧
      updateVersion baseURL stored (c.blankVersion ver) data false = .ok v ∧
      c' = { c with versions := c.versions.insert ver v }.updateLatestVersion := by
  rw [Cookbook.newVersion, Cookbook.getVersion]
  by_cases hlt : ver = Cookbook.latestName
  · -- the latest version of a cookbook without versions is a panic
    rw [if_pos hlt]
    refine ⟨fun h => ?_, fun h => absurd hlt h.1⟩
    cases hl : c.latestVersion with
    | mk r d =>
      rw [hl] at h
      cases r with
      | ok _ => cases h
      | error e =>
        obtain rfl := latestVersion_error hl
        cases h
  · rw [if_neg hlt]
    cases c.versions.lookup ver with
    | some _ => simp
    | none =>
      simp only [Cookbook.versionNotFound]
      cases updateVersion baseURL stored (c.blankVersion ver) data false with
      | error e => simp
      | ok cbv =>
        constructor
        · intro h
          cases h
          exact ⟨hlt, trivial, rfl, rfl⟩
        · rintro ⟨-, -, h, rfl⟩
          cases h
          rfl

lemma importVersion_eq_ok_iff {c c' : Cookbook} {ver : Text} :
    importVersion setup stored c (ver, .obj (versionJSON v)) = .ok c' ↔
      ver ≠ Cookbook.latestName ∧ c.versions.lookup ver = none ∧
        ∃ w, updateVersion setup.env.baseURL stored (c.blankVersion ver) (versionJSON v) false = .ok w ∧
          c' = { c with versions := c.versions.insert ver w }.updateLatestVersion := by
  unfold importVersion
  dsimp only
  rw [show castObj (.obj (versionJSON v)) = .ok (versionJSON v) from rfl, ok_bind,
    show attempt (Objects.checkAttrs (versionJSON v)) = .ok (versionJSON v) from rfl, ok_bind]
  constructor
  · intro h
    split at h
    · next w d hn =>
      cases h
      obtain ⟨hl, hf, hw, rfl⟩ := (newVersion_eq_ok_iff stored).mp hn
      exact ⟨hl, hf, w, hw, rfl⟩
    · cases h
  · rintro ⟨hl, hf, w, hw, rfl⟩
    rw [(newVersion_eq_ok_iff stored).mpr ⟨hl, hf, hw, rfl⟩]
    rfl

def versions (c₀ : Cookbook) : Loader Cookbook (Text × Json) CookbookVersion Fault where
  old := c₀.versions.lookup
  write ver v := (ver, .obj (versionJSON v))
  find c := c.versions.lookup
  step := importVersion setup stored
  key ver _ := ver
  Makes ver v w := ver ≠ Cookbook.latestName ∧
    updateVersion setup.env.baseURL stored (c₀.blankVersion ver) (versionJSON v) false = .ok w
  Refuses := True
  Same := Eq
  Inv c := c.name = c₀.name
  unique hw hw' := Except.ok.inj (hw.2.symm.trans hw'.2)
  accepts {c c' ver v} _ hc h := by
    obtain ⟨hlatest, hfree, w, hw, -⟩ := (importVersion_eq_ok_iff setup stored).mp h
    rw [Cookbook.blankVersion, hc] at hw
    exact ⟨fun _ => hfree, w, hlatest, hw⟩
  stores {c ver v w} _ hc hfree hw := by
    obtain ⟨hlatest, hw⟩ := hw
    have hblank : c.blankVersion ver = c₀.blankVersion ver := by rw [Cookbook.blankVersion, hc]; rfl
    rw [← hblank] at hw
    refine ⟨_, (importVersion_eq_ok_iff setup stored).mpr ⟨hlatest, hfree trivial, w, hw, rfl⟩,
      (latestVersion_name _).trans hc, fun j => ?_⟩
    rw [Cookbook.updateLatestVersion, latestVersion_versions]
    split
    · next h => rw [h, lookup_insert]
    · next h => exact lookup_insert_ne h
  key_same _ _ _ := rfl

def SameCookbook (c d : Cookbook) : Prop := c.name = d.name ∧ ∀ ver, c.versions.lookup ver = d.versions.lookup ver

def CookbookReturns (c : Cookbook) : Prop :=
  validateName c.name = true ∧
    ∀ ver v, c.versions.lookup ver = some v → VersionReturns setup.env.baseURL stored c.name ver v

section

variable (c : Cookbook)

lemma versions_old : ∀ e ∈ Table.list c.versions, (versions setup stored c).old e.1 = some e.2 :=
  fun _ he => Table.mem_list.mp he

lemma versions_inv : (versions setup stored c).Inv (Cookbook.blank c.name) := rfl

def loadVersions : Except Fault Cookbook :=
  (versions setup stored c).load (Cookbook.blank c.name) (Table.list c.versions)

variable {setup stored c}

lemma loadVersions_name {w : Cookbook} (h : loadVersions setup stored c = .ok w) : w.name = c.name :=
  Loader.load_inv (versions_old setup stored c) (versions_inv setup stored c) h

lemma versions_returns_iff {ver : Text} {v : CookbookVersion} :
    (versions setup stored c).Returns ver v ↔ VersionReturns setup.env.baseURL stored c.name ver v := by
  constructor
  · rintro ⟨-, w, ⟨-, hw⟩, rfl⟩
    exact updateVersion_self_iff.mp hw
  · intro h
    exact ⟨rfl, v, ⟨Cookbook.ne_latestName h.accepted, updateVersion_self_iff.mpr h⟩, rfl⟩

lemma loadVersions_same_iff : (∃ w, loadVersions setup stored c = .ok w ∧ SameCookbook w c) ↔
    ∀ ver v, c.versions.lookup ver = some v → VersionReturns setup.env.baseURL stored c.name ver v := by
  have he : ∀ ver, (versions setup stored c).find (Cookbook.blank c.name) ver = none := fun _ => rfl
  have hrs := Loader.restored_iff (versions_old setup stored c) (versions_inv setup stored c) he
    fun _ => Table.nodup_list c.versions
  have hs : ∀ w, loadVersions setup stored c = .ok w →
      (SameCookbook w c ↔ (versions setup stored c).Restored w) := by
    intro w hw
    refine ⟨fun h ver => optionRel_eq_iff.mpr (h.2 ver), fun h => ⟨loadVersions_name hw, fun ver => ?_⟩⟩
    exact optionRel_eq_iff.mp (h ver)
  constructor
  · rintro ⟨w, hw, h⟩ ver v hv
    exact versions_returns_iff.mp (hrs.mp ⟨w, hw, (hs w hw).mp h⟩ ver v hv).2
  · intro h
    obtain ⟨w, hw, hr⟩ := hrs.mpr fun ver v hv => ⟨Table.mem_list.mpr hv, versions_returns_iff.mpr (h ver v hv)⟩
    exact ⟨w, hw, (hs w hw).mpr hr⟩

end

lemma new_eq_ok_iff {name : Text} : Cookbook.new name = .ok c ↔ validateName name = true ∧ c = Cookbook.blank name := by
  rw [Cookbook.new]
  split <;> simp [*, eq_comm]

def cookbooks : Table.Reader Json Cookbook Fault where
  write _ c := .obj (cookbookJSON c)
  step := importCookbook setup stored
  key _ c := c.name
  Makes _ c w := validateName c.name = true ∧ loadVersions setup stored c = .ok w
  Refuses := False
  Same := SameCookbook
  step_eq_ok {t t' k c} := by
    change (do
        let c' ← Cookbook.new c.name
        let w ← (versions setup stored c).load c' (Table.list c.versions)
        return t.insert w.name w) = .ok t' ↔ _
    simp only [bind_eq_ok_iff, new_eq_ok_iff, ok_eq_ok_iff]
    constructor
    · rintro ⟨_, ⟨hname, rfl⟩, w, hw, rfl⟩
      exact ⟨False.elim, w, ⟨hname, hw⟩, by rw [loadVersions_name hw]⟩
    · rintro ⟨-, w, ⟨hname, hw⟩, rfl⟩
      exact ⟨_, ⟨hname, rfl⟩, w, hw, by rw [loadVersions_name hw]⟩
  key_same := by
    rintro k u w v ⟨-, hw⟩ ⟨hname, -⟩
    rw [← hname, loadVersions_name hw]

lemma cookbooks_returns_iff :
    (∃ w, (cookbooks setup stored).Makes c.name c w ∧ SameCookbook w c) ↔ CookbookReturns setup stored c := by
  constructor
  · rintro ⟨w, ⟨hn, hw⟩, hs⟩
    exact ⟨hn, loadVersions_same_iff.mp ⟨w, hw, hs⟩⟩
  · rintro ⟨hn, h⟩
    obtain ⟨w, hw, hs⟩ := loadVersions_same_iff.mpr h
    exact ⟨w, ⟨hn, hw⟩, hs⟩

variable {setup stored}

lemma VersionReturns.of_subset {baseURL name ver : Text}
    (h : VersionReturns baseURL stored name ver v) (hsb : stored ⊆ stored') : VersionReturns baseURL stored' name ver v where
  cookbookName := h.cookbookName
  name := h.name
  version := h.version
  accepted := h.accepted
  chefType := h.chefType
  jsonClass := h.jsonClass
  divisions d item hi := by
    obtain ⟨hl, chksum, hs, hi⟩ := h.divisions d item hi
    exact ⟨hl, chksum, hsb hs, hi⟩
  metadata := h.metadata

lemma CookbookReturns.of_subset (h : CookbookReturns setup stored c)
    (hs : stored ⊆ stored') : CookbookReturns setup stored' c :=
  ⟨h.1, fun ver v hv => (h.2 ver v hv).of_subset hs⟩

lemma cookbooks_restored_iff (old : Table Cookbook) :
    (∃ t, (objects cookbookJSON (values old)).foldlM (importCookbook setup stored) ∅ = .ok t ∧
      ∀ k, Option.Rel SameCookbook (t.lookup k) (old.lookup k)) ↔
    ∀ k c, old.lookup k = some c → c.name = k ∧ CookbookReturns setup stored c := by
  rw [objects, values, List.map_map]
  refine ((cookbooks setup stored).restored_iff old).trans (forall₃_congr fun k c _ => and_congr_right fun hn => ?_)
  obtain rfl : c.name = k := hn
  exact cookbooks_returns_iff setup stored

end

section

variable (setup : Setup)

lemma importFile_eq_ok_iff {t t' : Table FileStore} {f : FileStore} :
    importFile setup t (.obj (fileJSON setup.formats f)) = .ok t' ↔
      (∀ g ∈ t.lookup f.chksum, f.data = g.data) ∧ setup.formats.md5 f.data = f.chksum ∧ t' = t.insert f.chksum f := by
  change (do
      let data ← attempt (setup.formats.readBytes (setup.formats.bytes f.data))
      let f ← newFile setup t f.chksum data
      return t.insert f.chksum f) = .ok t' ↔ _
  have hr : attempt (setup.formats.readBytes (setup.formats.bytes f.data)) = .ok f.data := by
    rw [setup.formats.readBytes_bytes]
    rfl
  rw [hr, ok_bind, newFile]
  simp only [bind_eq_ok_iff, demand_eq_ok_iff, ok_eq_ok_iff, exists_unit]
  constructor
  · rintro ⟨_, ⟨hs, hsm, rfl⟩, rfl⟩
    exact ⟨hs, hsm, rfl⟩
  · rintro ⟨hs, hsm, rfl⟩
    exact ⟨f, ⟨hs, hsm, rfl⟩, rfl⟩

variable {old : Table FileStore} (summed : ∀ k f, old.lookup k = some f → f.chksum = k ∧ setup.formats.md5 f.data = k)

def files : Loader (Table FileStore) Json FileStore Fault where
  old := old.lookup
  write _ f := .obj (fileJSON setup.formats f)
  find t := t.lookup
  step := importFile setup
  key k _ := k
  Makes _ f w := w = f
  Refuses := False
  Same := Eq
  Inv t := ∀ k f, t.lookup k = some f → old.lookup k = some f
  unique hw hw' := hw.trans hw'.symm
  accepts _ _ _ := ⟨False.elim, _, rfl⟩
  stores {t k f w} hf ht _ hw := by
    obtain ⟨rfl, hsum⟩ := summed k f hf
    obtain rfl := hw
    have hlookup : ∀ j, (t.insert w.chksum w).lookup j = if j = w.chksum then some w else t.lookup j := by
      intro j
      split
      · next h => rw [h, lookup_insert]
      · next h => exact lookup_insert_ne h
    have hsame : ∀ g ∈ t.lookup w.chksum, w.data = g.data := by
      intro g hg
      cases hf.symm.trans (ht _ g hg)
      rfl
    refine ⟨_, (importFile_eq_ok_iff setup).mpr ⟨hsame, hsum, rfl⟩, fun j g hg => ?_, hlookup⟩
    rw [hlookup] at hg
    split at hg
    · next h =>
      cases hg
      rw [h, hf]
    · exact ht j g hg
  key_same _ _ _ := rfl

include summed in
lemma files_restored : ∃ t, (objects (fileJSON setup.formats) (values old)).foldlM (importFile setup) ∅ = .ok t ∧
    ∀ k, t.lookup k = old.lookup k := by
  rw [objects, values, List.map_map]
  refine (Loader.restored_iff_eq (L := files setup summed) (s := ∅) (fun _ _ => Iff.rfl) (fun _ => Table.mem_list)
    (fun k f h => ?_) (fun _ => rfl) old.nodup_list).mpr fun k f _ => ⟨rfl, f, rfl, rfl⟩
  cases h

end

end Goiardi.Dump
