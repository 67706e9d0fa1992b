import Goiardi.Dump.Import

/-! What the import makes of each object that the export has written, and which objects come back as they were. -/

namespace Goiardi.Dump

open Validation List Option Text
open Actors (Client User World Draw Refusal require require_eq_ok_iff allow invalidKey jsonClassField chefTypeField)
open DataBags (DataBag validateDBagName)
open Objects
open Push (Shovey ShoveyRun)
open Uploads (Cookbook CookbookVersion Fault refuse demand demand_eq_ok_iff)

lemma checkTag_eq_ok_iff {field expected current t u : Text} :
    Client.checkTag field expected current (.str t) = .ok u ↔ t = expected ∧ t = u := by
  rw [Client.checkTag]
  split <;> simp [*]

lemma chkRunList_strings (rl : List Text) : chkRunList (strings rl) = .ok rl := by
  rw [strings, chkRunList]
  exact mapM_eq_ok_self_iff.mpr fun _ _ => rfl

lemma checkRunList_strings {data : JsonMap} {rl : List Text} (h : data.lookup runListField = some (strings rl)) :
    checkRunList data = .ok () := by
  simp only [checkRunList, h, chkRunList_strings]
  rfl

lemma checkAttrs_nodeJSON (n : Node) : checkAttrs (nodeJSON n) = .ok (nodeJSON n) := by
  have hrl : checkRunList (nodeJSON n) = .ok () := checkRunList_strings rfl
  rw [checkAttrs, hrl]
  rfl

lemma checkAttrs_roleJSON (r : Role) : checkAttrs (roleJSON r) = .ok (roleJSON r) := by
  have hrl : checkRunList (roleJSON r) = .ok () := checkRunList_strings rfl
  have he : checkEnvRunLists (roleJSON r) = .ok () := by
    have hl : (roleJSON r).lookup envRunListsField = some (.obj (r.envRunLists.map fun p => (p.1, strings p.2))) := rfl
    simp only [checkEnvRunLists, hl]
    rw [forM_ok]
    · rfl
    · rintro p hp
      obtain ⟨q, -, rfl⟩ := mem_map.mp hp
      simp only [chkRunList_strings]
      rfl
  rw [checkAttrs, hrl, he]
  rfl

section

variable {J α : Type} {R : Table.Reader J α Fault} {write : α → J}

lemma values_restored_iff (hs : ∀ w v, R.Same w v ↔ w = v) (hw : ∀ k v, R.write k v = write v) (old : Table α) :
    (∃ t, ((values old).map write).foldlM R.step ∅ = .ok t ∧ ∀ k, t.lookup k = old.lookup k) ↔
    ∀ k v, old.lookup k = some v → R.key k v = k ∧ R.Makes k v v := by
  rw [values, List.map_map]
  exact R.restored_iff_eq hs hw old

end

def NodeMade (n w : Node) : Prop :=
  validateDBagName n.name = true ∧ validateEnvName n.chefEnvironment = true ∧ n.jsonClass = "Chef::Node" ∧
    n.chefType = "node" ∧ ∃ rl, validateRunList (strings n.runList) = .ok rl ∧
      w = { n with runList := rl, isDown := false }

lemma environmentOf_eq_ok_iff {n : Node} {t u : Text} :
    n.environmentOf (.str t) = .ok u ↔ validateEnvName t = true ∧ t = u := by
  rw [Node.environmentOf]
  split <;> simp [*]

lemma importNode_eq_ok {t t' : Table Node} {n : Node} : importNode t (nodeJSON n) = .ok t' ↔
    (True → t.lookup n.name = none) ∧ ∃ w, NodeMade n w ∧ t' = t.insert n.name w := by
  change (do
      let n ← (do
        require (validateDBagName n.name) _
        require (t.lookup n.name).isNone _
        require (n.name = n.name) _
        let runList ← validateRunList (strings n.runList)
        let chefEnvironment ← (Node.new n.name).environmentOf (.str n.chefEnvironment)
        let jsonClass ← Client.checkTag _ _ _ (.str n.jsonClass)
        let chefType ← Client.checkTag _ _ _ (.str n.chefType)
        return { n with chefEnvironment, jsonClass, chefType, runList, isDown := false } : Except Refusal Node).mapError Fault.refused
      return t.insert n.name n) = .ok t' ↔ _
  simp only [bind_eq_ok_iff, mapError_eq_ok_iff, require_eq_ok_iff, checkTag_eq_ok_iff, environmentOf_eq_ok_iff,
    ok_eq_ok_iff, exists_unit, NodeMade, isNone_iff_eq_none]
  constructor
  · rintro ⟨w, ⟨hn, hf, -, rl, hrl, _, ⟨he, rfl⟩, _, ⟨hc, rfl⟩, _, ⟨ht, rfl⟩, rfl⟩, rfl⟩
    exact ⟨fun _ => hf, _, ⟨hn, he, hc, ht, rl, hrl, rfl⟩, rfl⟩
  · rintro ⟨hf, w, ⟨hn, he, hc, ht, rl, hrl, rfl⟩, rfl⟩
    exact ⟨_, ⟨hn, hf trivial, trivial, rl, hrl, _, ⟨he, rfl⟩, _, ⟨hc, rfl⟩, _, ⟨ht, rfl⟩, rfl⟩, rfl⟩

def NodeReturns (n : Node) : Prop :=
  validateDBagName n.name = true ∧ validateEnvName n.chefEnvironment = true ∧ n.jsonClass = "Chef::Node" ∧
    n.chefType = "node" ∧ validateRunList (strings n.runList) = .ok n.runList ∧ n.isDown = false

lemma nodeMade_self_iff {n : Node} : NodeMade n n ↔ NodeReturns n := by
  constructor
  · rintro ⟨hn, he, hc, ht, rl, hrl, heq⟩
    have hl : n.runList = rl := congrArg Node.runList heq
    exact ⟨hn, he, hc, ht, hl ▸ hrl, congrArg Node.isDown heq⟩
  · rintro ⟨hn, he, hc, ht, hrl, hd⟩
    refine ⟨hn, he, hc, ht, _, hrl, ?_⟩
    rw [← hd]

def nodes : Table.Reader JsonMap Node Fault where
  write _ n := nodeJSON n
  step := importNode
  key _ n := n.name
  Makes _ := NodeMade
  Refuses := True
  Same := Eq
  step_eq_ok := importNode_eq_ok
  key_same := by
    rintro k u w v ⟨-, -, -, -, rl, -, rfl⟩ rfl
    rfl

lemma nodes_restored_iff (old : Table Node) :
    (∃ t, ((values old).map nodeJSON).foldlM importNode ∅ = .ok t ∧ ∀ k, t.lookup k = old.lookup k) ↔
    ∀ k n, old.lookup k = some n → n.name = k ∧ NodeReturns n :=
  (values_restored_iff (R := nodes) (fun _ _ => Iff.rfl) (fun _ _ => rfl) old).trans
    (forall₃_congr fun _ _ _ => and_congr_right' nodeMade_self_iff)

def RoleMade (r w : Role) : Prop :=
  validateDBagName r.name = true ∧ r.jsonClass = "Chef::Role" ∧ r.chefType = "role" ∧
    ∃ rl erl, validateRunList (strings r.runList) = .ok rl ∧
      (r.envRunLists.map fun p => (p.1, strings p.2)).mapM
        (fun p => (validateRunList p.2).map fun rl => (p.1, rl)) = .ok erl ∧
      w = { r with runList := rl, envRunLists := erl }

lemma importRole_eq_ok {t t' : Table Role} {r : Role} : importRole t (roleJSON r) = .ok t' ↔
    (True → t.lookup r.name = none) ∧ ∃ w, RoleMade r w ∧ t' = t.insert r.name w := by
  change (do
      let w ← (do
        require (t.lookup r.name).isNone _
        require (validateDBagName r.name) _
        require (some r.name = some r.name) _
        let runList ← validateRunList (strings r.runList)
        let envRunLists ← (r.envRunLists.map _).mapM _
        let jsonClass ← Client.checkTag _ _ _ (.str r.jsonClass)
        let chefType ← Client.checkTag _ _ _ (.str r.chefType)
        return { r with chefType, jsonClass, runList, envRunLists } : Except Refusal Role).mapError Fault.refused
      return t.insert w.name w) = .ok t' ↔ _
  simp only [bind_eq_ok_iff, mapError_eq_ok_iff, require_eq_ok_iff, checkTag_eq_ok_iff, ok_eq_ok_iff, exists_unit,
    RoleMade, isNone_iff_eq_none]
  constructor
  · rintro ⟨w, ⟨hf, hn, -, rl, hrl, erl, he, _, ⟨hc, rfl⟩, _, ⟨ht, rfl⟩, rfl⟩, rfl⟩
    exact ⟨fun _ => hf, _, ⟨hn, hc, ht, rl, erl, hrl, he, rfl⟩, rfl⟩
  · rintro ⟨hf, w, ⟨hn, hc, ht, rl, erl, hrl, he, rfl⟩, rfl⟩
    exact ⟨_, ⟨hf trivial, hn, trivial, rl, hrl, erl, he, _, ⟨hc, rfl⟩, _, ⟨ht, rfl⟩, rfl⟩, rfl⟩

lemma map_pair_eq_ok_iff {x : Except Refusal (List Text)} {k : Text} {rl : List Text} :
    x.map (fun rl => (k, rl)) = .ok (k, rl) ↔ x = .ok rl := by
  cases x <;> simp [Except.map]

def RoleReturns (r : Role) : Prop :=
  validateDBagName r.name = true ∧ r.jsonClass = "Chef::Role" ∧ r.chefType = "role" ∧
    validateRunList (strings r.runList) = .ok r.runList ∧
    ∀ p ∈ r.envRunLists, validateRunList (strings p.2) = .ok p.2

lemma roleMade_self_iff {r : Role} : RoleMade r r ↔ RoleReturns r := by
  constructor
  · rintro ⟨hn, hc, ht, rl, erl, hrl, he, heq⟩
    obtain rfl : r.runList = rl := congrArg Role.runList heq
    obtain rfl : r.envRunLists = erl := congrArg Role.envRunLists heq
    exact ⟨hn, hc, ht, hrl, fun p hp => map_pair_eq_ok_iff.mp (mapM_eq_ok_self_iff.mp he p hp)⟩
  · rintro ⟨hn, hc, ht, hrl, he⟩
    exact ⟨hn, hc, ht, _, _, hrl,
      mapM_eq_ok_self_iff.mpr fun p hp => map_pair_eq_ok_iff.mpr (he p hp), rfl⟩

def roles : Table.Reader JsonMap Role Fault where
  write _ r := roleJSON r
  step := importRole
  key _ r := r.name
  Makes _ := RoleMade
  Refuses := True
  Same := Eq
  step_eq_ok := importRole_eq_ok
  key_same := by
    rintro k u w v ⟨-, -, -, rl, erl, -, -, rfl⟩ rfl
    rfl

lemma roles_restored_iff (old : Table Role) :
    (∃ t, ((values old).map roleJSON).foldlM importRole ∅ = .ok t ∧ ∀ k, t.lookup k = old.lookup k) ↔
    ∀ k r, old.lookup k = some r → r.name = k ∧ RoleReturns r :=
  (values_restored_iff (R := roles) (fun _ _ => Iff.rfl) (fun _ _ => rfl) old).trans
    (forall₃_congr fun _ _ _ => and_congr_right' roleMade_self_iff)

def EnvironmentMade (e w : ChefEnvironment) : Prop :=
  validateEnvName e.name = true ∧ e.name ≠ ChefEnvironment.defaultName ∧ e.jsonClass = "Chef::Environment" ∧
    e.chefType = "environment" ∧
    ∃ versions, (e.cookbookVersions.map fun p => (p.1, .str p.2)).mapM ChefEnvironment.cookbookVersion = .ok versions ∧
      w = { e with cookbookVersions := versions }

lemma makeEnvironment_eq_ok {t t' : Table ChefEnvironment} {e : ChefEnvironment} :
    makeEnvironment t (environmentJSON e) = .ok t' ↔
      (True → t.lookup e.name = none) ∧ ∃ w, EnvironmentMade e w ∧ t' = t.insert e.name w := by
  change (do
      let w ← (do
        (do
          require (validateEnvName e.name) _
          require ((t.lookup e.name).isNone ∧ e.name ≠ ChefEnvironment.defaultName) _ :
            Except Refusal Unit).mapError Fault.refused
        (do
          require (e.name = e.name) _
          require (e.name ≠ ChefEnvironment.defaultName) _
          let jsonClass ← Client.checkTag _ _ _ (.str e.jsonClass)
          let chefType ← Client.checkTag _ _ _ (.str e.chefType)
          let cookbookVersions ← (e.cookbookVersions.map _).mapM ChefEnvironment.cookbookVersion
          return { e with chefType, jsonClass, cookbookVersions } : Except Refusal ChefEnvironment).mapError Fault.refused)
      demand (w.name ≠ ChefEnvironment.defaultName) _
      return t.insert w.name w) = .ok t' ↔ _
  simp only [bind_eq_ok_iff, mapError_eq_ok_iff, require_eq_ok_iff, demand_eq_ok_iff, checkTag_eq_ok_iff, ok_eq_ok_iff,
    exists_unit, EnvironmentMade, isNone_iff_eq_none]
  constructor
  · rintro ⟨w, ⟨⟨hn, hf, hne⟩, -, -, _, ⟨hc, rfl⟩, _, ⟨ht, rfl⟩, versions, hv, rfl⟩, -, rfl⟩
    exact ⟨fun _ => hf, _, ⟨hn, hne, hc, ht, versions, hv, rfl⟩, rfl⟩
  · rintro ⟨hf, w, ⟨hn, hne, hc, ht, versions, hv, rfl⟩, rfl⟩
    exact ⟨_, ⟨⟨hn, hf trivial, hne⟩, trivial, hne, _, ⟨hc, rfl⟩, _, ⟨ht, rfl⟩, versions, hv, rfl⟩,
      hne, rfl⟩

def EnvironmentReturns (e : ChefEnvironment) : Prop :=
  validateEnvName e.name = true ∧ e.name ≠ ChefEnvironment.defaultName ∧ e.jsonClass = "Chef::Environment" ∧
    e.chefType = "environment" ∧
    ∀ p ∈ e.cookbookVersions, ChefEnvironment.cookbookVersion (p.1, .str p.2) = .ok p

lemma environmentMade_self_iff {e : ChefEnvironment} : EnvironmentMade e e ↔ EnvironmentReturns e := by
  constructor
  · rintro ⟨hn, hne, hc, ht, versions, hv, heq⟩
    obtain rfl : e.cookbookVersions = versions := congrArg ChefEnvironment.cookbookVersions heq
    exact ⟨hn, hne, hc, ht, mapM_eq_ok_self_iff.mp hv⟩
  · rintro ⟨hn, hne, hc, ht, hv⟩
    exact ⟨hn, hne, hc, ht, _, mapM_eq_ok_self_iff.mpr hv, rfl⟩

def stored (t : Table ChefEnvironment) (k : Text) : Option ChefEnvironment :=
  if k = ChefEnvironment.defaultName then none else t.lookup k

lemma stored_eq_some_iff {t : Table ChefEnvironment} {k : Text} {e : ChefEnvironment} :
    stored t k = some e ↔ k ≠ ChefEnvironment.defaultName ∧ t.lookup k = some e := by
  unfold stored
  split <;> simp [*]

def environments (old : Table ChefEnvironment) : Loader (Table ChefEnvironment) JsonMap ChefEnvironment Fault where
  old := stored old
  write _ e := environmentJSON e
  find := stored
  step := makeEnvironment
  key _ e := e.name
  Makes _ := EnvironmentMade
  Refuses := True
  Same := Eq
  Inv _ := True
  unique := by
    rintro k e w w' ⟨-, -, -, -, versions, hversions, rfl⟩ ⟨-, -, -, -, versions', hversions', rfl⟩
    cases hversions.symm.trans hversions'
    rfl
  accepts {t t' k e} _ _ h := by
    obtain ⟨hfree, w, hw, -⟩ := makeEnvironment_eq_ok.mp h
    have hstored : stored t e.name = t.lookup e.name := if_neg hw.2.1
    exact ⟨fun h => hstored.trans (hfree h), w, hw⟩
  stores {t k e w} _ _ hfree hw := by
    have hstored : stored t e.name = t.lookup e.name := if_neg hw.2.1
    refine ⟨_, makeEnvironment_eq_ok.mpr ⟨fun h => hstored.symm.trans (hfree h), w, hw, rfl⟩, trivial, fun j => ?_⟩
    unfold stored
    by_cases hj : j = e.name
    · rw [if_pos hj, hj, if_neg hw.2.1, AList.lookup_insert]
    · rw [if_neg hj, AList.lookup_insert_ne hj]
  key_same := by
    rintro k u w v - ⟨-, -, -, -, versions, -, rfl⟩ rfl
    rfl

lemma findEnvironment_eq_iff {s t : Server} :
    (∀ k, t.findEnvironment k = s.findEnvironment k) ↔ ∀ k, stored t.environments k = stored s.environments k := by
  refine forall_congr' fun k => ?_
  unfold Server.findEnvironment stored
  split
  · exact ⟨fun _ => rfl, fun _ => rfl⟩
  · exact Iff.rfl

lemma importEnvironments_eq (es : List ChefEnvironment) (t : Table ChefEnvironment) :
    (es.map environmentJSON).foldlM importEnvironment t =
      ((es.filter fun e => e.name ≠ ChefEnvironment.defaultName).map environmentJSON).foldlM makeEnvironment t := by
  induction es generalizing t with
  | nil => rfl
  | cons e es ih =>
    rw [map_cons, foldlM_cons, show importEnvironment t (environmentJSON e) =
      if e.name ≠ ChefEnvironment.defaultName then makeEnvironment t (environmentJSON e) else .ok t from rfl, filter_cons]
    by_cases h : e.name = ChefEnvironment.defaultName
    · rw [if_neg (not_not.mpr h), ok_bind, ih, if_neg (by simpa using h)]
    · rw [if_pos h, if_pos (by simpa using h), map_cons, foldlM_cons]
      exact congrArg _ (funext fun t => ih t)

def readEnvironments (t : Table ChefEnvironment) : List (Text × ChefEnvironment) :=
  t.list.filter fun e => e.1 ≠ ChefEnvironment.defaultName && e.2.name ≠ ChefEnvironment.defaultName

lemma allEnvironments_filter (s : Server) : (s.allEnvironments.filter fun e => e.name ≠ ChefEnvironment.defaultName) =
      (readEnvironments s.environments).map Prod.snd := by
  have hky : s.environments.keys = s.environments.list.map Prod.fst := by
    rw [Table.list, List.map_map]
    rfl
  have hen : ∀ e ∈ s.environments.list,
      ((s.findEnvironment e.1).filter fun e => e.name ≠ ChefEnvironment.defaultName) =
        if e.1 ≠ ChefEnvironment.defaultName && e.2.name ≠ ChefEnvironment.defaultName then some e.2 else none := by
    intro e he
    rw [Server.findEnvironment]
    by_cases hk : e.1 = ChefEnvironment.defaultName
    · rw [if_pos hk, hk]
      rfl
    · rw [if_neg hk, Table.mem_list.mp he]
      by_cases hn : e.2.name = ChefEnvironment.defaultName <;> simp [hk, hn]
  have hd : [ChefEnvironment.defaultName].filterMap (fun k =>
      (s.findEnvironment k).filter fun e => e.name ≠ ChefEnvironment.defaultName) = [] := rfl
  rw [Server.allEnvironments, filter_filterMap, filterMap_append, hd, append_nil, hky,
    filterMap_map, readEnvironments, ← filterMap_eq_map, filterMap_filter]
  exact filterMap_congr hen

lemma environments_restored_iff {s : Server} :
    (∃ t, (s.allEnvironments.map environmentJSON).foldlM importEnvironment ∅ = .ok t ∧
      ∀ k, stored t k = stored s.environments k) ↔
    ∀ k e, s.environments.lookup k = some e → k ≠ ChefEnvironment.defaultName → e.name = k ∧ EnvironmentReturns e := by
  have hrd : ∀ e ∈ readEnvironments s.environments, stored s.environments e.1 = some e.2 := by
    intro e he
    obtain ⟨hm, hn⟩ := mem_filter.mp he
    exact stored_eq_some_iff.mpr ⟨by simp_all, Table.mem_list.mp hm⟩
  have hnd : ((readEnvironments s.environments).map Prod.fst).Nodup :=
    (Table.nodup_list s.environments).sublist (filter_sublist.map Prod.fst)
  have hr := (environments s.environments).restored_iff (s := ∅) hrd trivial (fun _ => ite_self none)
    fun _ => hnd
  rw [importEnvironments_eq, allEnvironments_filter, List.map_map]
  constructor
  · rintro ⟨t, ht, hs⟩ k e he hne
    obtain ⟨-, hn, w, hw, rfl⟩ := hr.mp ⟨t, ht, fun k => optionRel_eq_iff.mpr (hs k)⟩ k e
      (stored_eq_some_iff.mpr ⟨hne, he⟩)
    exact ⟨hn, environmentMade_self_iff.mp hw⟩
  · intro h
    obtain ⟨t, ht, hs⟩ := hr.mpr fun k e he => by
      obtain ⟨hne, he⟩ := stored_eq_some_iff.mp he
      obtain ⟨rfl, hrt⟩ := h k e he hne
      refine ⟨mem_filter.mpr ⟨Table.mem_list.mpr he, by simpa using hne⟩, rfl, e, ?_, rfl⟩
      exact environmentMade_self_iff.mpr hrt
    exact ⟨t, ht, fun k => optionRel_eq_iff.mp (hs k)⟩

def readInt (n : ℤ) : ℤ := if (Text.clamp n).2 then n else 0

lemma intify_formatInt (n : ℤ) : intify (.num (formatInt n)) = readInt n := by
  rw [intify, parseInt_formatInt, readInt]
  split
  · next h => rw [clamp_of_fits (fits_of_clamp h)]
  · rfl

lemma readInt_of_fits {n : ℤ} (h : Text.Fits n) : readInt n = n := by
  rw [readInt, clamp_of_fits h]
  rfl

lemma readInt_eq_self_iff {n : ℤ} : readInt n = n ↔ Text.Fits n := by
  refine ⟨fun h => ?_, readInt_of_fits⟩
  unfold readInt at h
  split at h
  · next hn => exact fits_of_clamp hn
  · rw [← h]
    exact ⟨by decide, by decide⟩

lemma readInt_readInt (n : ℤ) : readInt (readInt n) = readInt n := by
  by_cases h : Text.Fits n
  · rw [readInt_of_fits h, readInt_of_fits h]
  · have hz : readInt n = 0 := if_neg fun hn => h (fits_of_clamp hn)
    rw [hz]
    decide

lemma resCount_eq_ok_iff {n m : ℤ} : resCount (.num (formatInt n)) = .ok m ↔ Text.Fits n ∧ n = m := by
  rw [resCount, parseInt_formatInt]
  constructor
  · intro h
    split at h
    · next hn =>
      have hf := fits_of_clamp hn
      rw [clamp_of_fits hf] at h
      exact ⟨hf, Except.ok.inj h⟩
    · cases h
  · rintro ⟨hf, rfl⟩
    rw [clamp_of_fits hf]
    rfl

lemma fits_toNat (n : UInt8) : Text.Fits n.toNat := by
  have hlt := n.toNat_lt
  constructor
  · rw [Text.minInt64]
    omega
  · rw [Text.maxInt64]
    omega

lemma ofInt_toNat (n : UInt8) : UInt8.ofInt n.toNat = n := by
  have hlt := n.toNat_lt
  refine UInt8.toNat_inj.mp ?_
  rw [UInt8.ofInt, UInt8.toNat_ofNat']
  omega

section

variable (formats : Formats)

lemma eq_ok_insert_iff {α : Type} {x : Except Fault (Table α)} {t t' : Table α} {k : Text} {a : α} {p : Prop}
    (h : x = .ok (t.insert k a)) : x = .ok t' ↔ (False → p) ∧ ∃ w, w = a ∧ t' = t.insert k w := by
  subst h
  constructor
  · intro h
    cases h
    exact ⟨False.elim, a, rfl, rfl⟩
  · rintro ⟨-, w, rfl, rfl⟩
    rfl

lemma attempt_readTime (t : ℤ) : attempt (formats.readTime (formats.time t)) = .ok t := by
  rw [formats.readTime_time]
  rfl

lemma attempt_readReportTime (t : ℤ) :
    attempt (formats.readReportTime (formats.reportTime t)) = .ok (t - t % second) := by
  rw [formats.readReportTime_reportTime]
  rfl

lemma mapM_castString (ts : List Text) : (ts.map Json.str).mapM castString = .ok ts :=
  mapM_eq_ok_self_iff.mpr fun _ _ => rfl

def sandboxes : Table.Reader Json Sandbox Fault where
  write _ sb := .obj (sandboxJSON formats sb)
  step := importSandbox formats
  key _ _ := []
  Makes _ sb w := w = { sb with id := [] }
  Refuses := False
  Same := Eq
  step_eq_ok {t t' k sb} := by
    refine eq_ok_insert_iff ?_
    have hmake : importSandbox formats t (.obj (sandboxJSON formats sb)) = (do
        let creationTime ← attempt (formats.readTime (formats.time sb.creationTime))
        let checksums ← (sb.checksums.map Json.str).mapM castString
        return t.insert [] { sb with id := [], creationTime, checksums }) := rfl
    rw [hmake, attempt_readTime, mapM_castString]
    rfl
  key_same _ _ := rfl

lemma sandboxes_restored_iff (old : Table Sandbox) :
    (∃ t, (objects (sandboxJSON formats) (values old)).foldlM (importSandbox formats) ∅ = .ok t ∧
      ∀ k, t.lookup k = old.lookup k) ↔ ∀ k sb, old.lookup k = some sb → k = [] ∧ sb.id = [] := by
  refine (values_restored_iff (R := sandboxes formats) (fun _ _ => Iff.rfl) (fun _ _ => rfl) old).trans ?_
  refine forall₃_congr fun k sb _ => and_congr eq_comm ⟨fun h => congrArg Sandbox.id h, fun h => ?_⟩
  cases sb
  cases h
  rfl

lemma reformat_eq {v : JsonMap} {k : String} {t : ℤ} (h : valueAt v k = .str (formats.time t)) :
    reformat formats v k = .ok (setField v k.toList (.str (formats.reportTime t))) := by
  rw [reformat, h]
  simp only [attempt_readTime]
  rfl

def reportBody (r : Report) : JsonMap :=
  setField (setField (setField (reportJSON formats r) "action" (.str "start"))
    "start_time" (.str (formats.reportTime r.startTime)))
    "end_time" (.str (formats.reportTime r.endTime))

def started (r : Report) : Report where
  runID := r.runID
  startTime := r.startTime - r.startTime % second
  endTime := 0
  totalResCount := 0
  status := "started"
  runList := []
  resources := []
  data := []
  nodeName := r.nodeName
  organizationID := 0
  ended := false

lemma newReport_eq_ok {t : Table Report} {r r' : Report} :
    newReport formats t r.nodeName (reportBody formats r) = .ok r' ↔
      t.lookup r.runID = none ∧ isUUID r.runID = true ∧ r' = started r := by
  change (do
      let startTime ← attempt (formats.readReportTime (formats.reportTime r.startTime))
      demand (t.lookup r.runID).isNone _
      demand (isUUID r.runID) _
      return { started r with startTime }) = .ok r' ↔ _
  rw [attempt_readReportTime]
  simp only [bind_eq_ok_iff, demand_eq_ok_iff, ok_eq_ok_iff, exists_unit, isNone_iff_eq_none]
  constructor
  · rintro ⟨_, heq, hf, hu, rfl⟩
    cases heq
    exact ⟨hf, hu, rfl⟩
  · rintro ⟨hf, hu, rfl⟩
    exact ⟨_, rfl, hf, hu, rfl⟩

lemma updateReport_eq_ok {r w : Report} :
    updateReport formats (started r) (setField (reportBody formats r) "action" (.str "end")) = .ok w ↔
      Text.Fits r.totalResCount ∧ r.status ∈ reportStatuses ∧ r.ended = true ∧
        w = { r with startTime := r.startTime - r.startTime % second, endTime := r.endTime - r.endTime % second,
                     organizationID := 0 } := by
  obtain ⟨r, ended⟩ := r
  cases ended with
  | false =>
    change (do
        let endTime ← attempt (formats.readReportTime (formats.reportTime r.endTime))
        let totalResCount ← resCount (.num (formatInt r.totalResCount))
        demand (r.status ∈ reportStatuses) _
        throw _) = .ok w ↔ _
    simp only [bind_eq_ok_iff]
    constructor
    · rintro ⟨_, -, _, -, _, -, h⟩
      cases h
    · rintro ⟨-, -, h, -⟩
      cases h
  | true =>
    change (do
        let endTime ← attempt (formats.readReportTime (formats.reportTime r.endTime))
        let totalResCount ← resCount (.num (formatInt r.totalResCount))
        demand (r.status ∈ reportStatuses) _
        return { r with startTime := r.startTime - r.startTime % second, endTime, totalResCount, organizationID := 0,
                        ended := true : Report }) = .ok w ↔ _
    rw [attempt_readReportTime]
    simp only [bind_eq_ok_iff, resCount_eq_ok_iff, demand_eq_ok_iff, ok_eq_ok_iff, exists_unit]
    constructor
    · rintro ⟨_, heq, _, ⟨hf, rfl⟩, hs, rfl⟩
      cases heq
      exact ⟨hf, hs, trivial, rfl⟩
    · rintro ⟨hf, hs, -, rfl⟩
      exact ⟨_, rfl, _, ⟨hf, rfl⟩, hs, rfl⟩

def reports : Table.Reader Json Report Fault where
  write _ r := .obj (reportJSON formats r)
  step := importReport formats
  key _ r := r.runID
  Makes _ r w := isUUID r.runID = true ∧ Text.Fits r.totalResCount ∧ r.status ∈ reportStatuses ∧ r.ended = true ∧
    w = { r with startTime := r.startTime - r.startTime % second, endTime := r.endTime - r.endTime % second,
                 organizationID := 0 }
  Refuses := True
  Same := Eq
  step_eq_ok {t t' k r} := by
    have hmake : importReport formats t (.obj (reportJSON formats r)) = (do
        let r' ← newReport formats t r.nodeName (reportBody formats r)
        let w ← updateReport formats r' (setField (reportBody formats r) "action" (.str "end"))
        return t.insert w.runID w) := by
      have hstart : reformat formats (setField (reportJSON formats r) "action" (.str "start"))
        "start_time" = .ok _ := reformat_eq formats rfl
      have hend : reformat formats (setField (setField (reportJSON formats r) "action" (.str "start"))
        "start_time" (.str (formats.reportTime r.startTime))) "end_time" = .ok (reportBody formats r) :=
        reformat_eq formats rfl
      change (reformat formats _ "start_time" >>= _) = _
      rw [hstart]
      change (reformat formats _ "end_time" >>= _) = _
      rw [hend]
      rfl
    rw [hmake]
    simp only [bind_eq_ok_iff, newReport_eq_ok, ok_eq_ok_iff]
    constructor
    · rintro ⟨_, ⟨hfree, huuid, rfl⟩, w, hw, rfl⟩
      obtain ⟨hfits, hstatus, hended, rfl⟩ := (updateReport_eq_ok formats).mp hw
      exact ⟨fun _ => hfree, _, ⟨huuid, hfits, hstatus, hended, rfl⟩, rfl⟩
    · rintro ⟨hfree, w, ⟨huuid, hfits, hstatus, hended, rfl⟩, rfl⟩
      exact ⟨_, ⟨hfree trivial, huuid, rfl⟩, _, (updateReport_eq_ok formats).mpr ⟨hfits, hstatus, hended, rfl⟩, rfl⟩
  key_same := by
    rintro k u w v ⟨-, -, -, -, rfl⟩ rfl
    rfl

def ReportReturns (r : Report) : Prop :=
  isUUID r.runID = true ∧ Text.Fits r.totalResCount ∧ r.status ∈ reportStatuses ∧ r.ended = true ∧
    second ∣ r.startTime ∧ second ∣ r.endTime ∧ r.organizationID = 0

lemma reports_makes_self_iff {k : Text} {r : Report} : (reports formats).Makes k r r ↔ ReportReturns r := by
  constructor
  · rintro ⟨hu, hf, hs, he, heq⟩
    have hst : r.startTime = r.startTime - r.startTime % second := congrArg (fun r => r.startTime) heq
    have hen : r.endTime = r.endTime - r.endTime % second := congrArg (fun r => r.endTime) heq
    have ho : r.organizationID = 0 := congrArg (fun r => r.organizationID) heq
    exact ⟨hu, hf, hs, he, Int.dvd_of_emod_eq_zero (by omega), Int.dvd_of_emod_eq_zero (by omega), ho⟩
  · rintro ⟨hu, hf, hs, he, hst, hen, ho⟩
    refine ⟨hu, hf, hs, he, ?_⟩
    rw [Int.emod_eq_zero_of_dvd hst, Int.emod_eq_zero_of_dvd hen, Int.sub_zero, Int.sub_zero, ← ho]

lemma reports_restored_iff (old : Table Report) :
    (∃ t, (objects (reportJSON formats) (values old)).foldlM (importReport formats) ∅ = .ok t ∧
      ∀ k, t.lookup k = old.lookup k) ↔ ∀ k r, old.lookup k = some r → r.runID = k ∧ ReportReturns r :=
  (values_restored_iff (R := reports formats) (fun _ _ => Iff.rfl) (fun _ _ => rfl) old).trans
    (forall₃_congr fun _ _ _ => and_congr_right' (reports_makes_self_iff formats))

def shoveys : Table.Reader Json Shovey Fault where
  write _ s := .obj (shoveyJSON formats s)
  step := importShovey formats
  key _ s := s.runID
  Makes _ s w := w = { s with timeout := readInt s.timeout }
  Refuses := False
  Same := Eq
  step_eq_ok {t t' k s} := by
    refine eq_ok_insert_iff ?_
    have hnames : castStrings (valueAt (shoveyJSON formats s) "nodes") = .ok s.nodeNames := mapM_castString s.nodeNames
    have hcreated : formats.readTime (formats.time s.createdAt) = .ok s.createdAt := formats.readTime_time _
    have hupdated : formats.readTime (formats.time s.updatedAt) = .ok s.updatedAt := formats.readTime_time _
    have hca : castString (valueAt (shoveyJSON formats s) "created_at") = .ok (formats.time s.createdAt) := rfl
    have hua : castString (valueAt (shoveyJSON formats s) "updated_at") = .ok (formats.time s.updatedAt) := rfl
    have htimeout : intify (valueAt (shoveyJSON formats s) "timeout") = readInt s.timeout := intify_formatInt _
    rw [importShovey]
    simp only [castObj, ok_bind, hnames, hca, hcreated, hua, hupdated, htimeout]
    rfl
  key_same := by
    rintro k u w v rfl rfl
    rfl

lemma shoveys_restored_iff (old : Table Shovey) :
    (∃ t, (objects (shoveyJSON formats) (values old)).foldlM (importShovey formats) ∅ = .ok t ∧
      ∀ k, t.lookup k = old.lookup k) ↔ ∀ k sh, old.lookup k = some sh → sh.runID = k ∧ Text.Fits sh.timeout := by
  refine (values_restored_iff (R := shoveys formats) (fun _ _ => Iff.rfl) (fun _ _ => rfl) old).trans ?_
  refine forall₃_congr fun k sh _ => and_congr_right' ?_
  rw [← readInt_eq_self_iff]
  refine ⟨fun h => (congrArg Shovey.timeout h).symm, fun h => ?_⟩
  change sh = { sh with timeout := readInt sh.timeout }
  rw [h]

def runs : Table.Reader Json ShoveyRun Fault where
  write _ sr := .obj (runJSON formats sr)
  step := importRun formats
  key _ sr := sr.shoveyUUID ++ sr.nodeName
  Makes _ sr w := w = sr
  Refuses := False
  Same := Eq
  step_eq_ok {t t' k sr} := by
    refine eq_ok_insert_iff ?_
    have hack : timeOrZero formats (valueAt (runJSON formats sr) "ack_time") = .ok sr.ackTime :=
      attempt_readTime formats _
    have hend : timeOrZero formats (valueAt (runJSON formats sr) "end_time") = .ok sr.endTime :=
      attempt_readTime formats _
    have hexit : UInt8.ofInt (intify (valueAt (runJSON formats sr) "exit_status")) = sr.exitStatus := by
      have hread : intify (valueAt (runJSON formats sr) "exit_status") = readInt sr.exitStatus.toNat :=
        intify_formatInt _
      rw [hread, readInt_of_fits (fits_toNat _), ofInt_toNat]
    rw [importRun]
    simp only [castObj, ok_bind, hack, hend, hexit]
    rfl
  key_same := by
    rintro k u w v rfl rfl
    rfl

def streams : Table.Reader Json ShoveyRunStream Fault where
  write _ srs := .obj (streamJSON formats srs)
  step := importStream formats
  key _ srs := ofStream { srs with seq := readInt srs.seq }
  Makes _ srs w := w = { srs with seq := readInt srs.seq }
  Refuses := False
  Same := Eq
  step_eq_ok {t t' k srs} := by
    refine eq_ok_insert_iff ?_
    have hcreated : readTime formats (valueAt (streamJSON formats srs) "CreatedAt") = .ok srs.createdAt :=
      attempt_readTime formats _
    have hseq : intify (valueAt (streamJSON formats srs) "Seq") = readInt srs.seq := intify_formatInt _
    rw [importStream]
    simp only [castObj, ok_bind, hcreated, hseq]
    rfl
  key_same := by
    rintro k u w v rfl rfl
    simp only [readInt_readInt]

end

end Goiardi.Dump
