import Goiardi.Actors.Privilege
import Goiardi.Actors.Stored
import Goiardi.Indexing.Frame

/-! Requests that write a client, a user, a node, a role or an environment: whether the object is stored when the
request is answered with success. -/

namespace Goiardi.Objects

open Validation Except AList

def Target (url : Option Text) (data : JsonMap) (name : Text) : Prop :=
  match lookupField data nameField, url with
  | .str (c :: t), _ => name = c :: t
  | _, some url => name = url
  | .str [], none => name = []
  | _, none => False

section

variable {data : JsonMap}

structure Node.Carries (data : JsonMap) (n : Node) : Prop where
  runList : validateRunList (lookupField data runListField) = .ok n.runList
  normal : attributes data "normal" = .ok n.normal
  automatic : attributes data "automatic" = .ok n.automatic
  default : attributes data "default" = .ok n.default
  override : attributes data "override" = .ok n.override
  chefEnvironment : ∀ t, lookupField data chefEnvironmentField = .str t → n.chefEnvironment = t

structure Role.Carries (data : JsonMap) (r : Role) : Prop where
  runList : validateRunList (lookupField data runListField) = .ok r.runList
  envRunLists : Role.envRunListsOf data = .ok r.envRunLists
  description : r.description = Role.descriptionOf data
  default : attributes data "default_attributes" = .ok r.default
  override : attributes data "override_attributes" = .ok r.override

structure ChefEnvironment.Carries (data : JsonMap) (e : ChefEnvironment) : Prop where
  description : ChefEnvironment.descriptionOf data = .ok e.description
  default : attributes data "default_attributes" = .ok e.default
  override : attributes data "override_attributes" = .ok e.override
  versions : ∃ versions, attributes data cookbookVersionsField = .ok versions ∧
    versions.mapM ChefEnvironment.cookbookVersion = .ok e.cookbookVersions

lemma Node.updateFromJSON_carries {n n' : Node} (h : n.updateFromJSON data = .ok n') :
    n'.Carries data ∧ n'.name = n.name ∧ lookupField data nameField = .str n'.name := by
  obtain ⟨nodeName, hnm, h⟩ := bind_eq_ok h
  obtain ⟨_, hs, h⟩ := bind_eq_ok h
  obtain ⟨-, -, h⟩ := bind_eq_ok h
  obtain ⟨runList, hrl, h⟩ := bind_eq_ok h
  obtain ⟨normal, hn, h⟩ := bind_eq_ok h
  obtain ⟨automatic, ha, h⟩ := bind_eq_ok h
  obtain ⟨default, hd, h⟩ := bind_eq_ok h
  obtain ⟨override, ho, h⟩ := bind_eq_ok h
  obtain ⟨env, he, h⟩ := bind_eq_ok h
  obtain ⟨jsonClass, -, h⟩ := bind_eq_ok h
  obtain ⟨chefType, -, h⟩ := bind_eq_ok h
  cases h
  refine ⟨⟨hrl, hn, ha, hd, ho, fun t ht => ?_⟩, rfl, ?_⟩
  · rw [ht, Node.environmentOf] at he
    split at he
    · exact (ok.inj he).symm
    · cases he
  · rw [Actors.validateAsString_ok hnm, ← Actors.require_ok hs]

lemma Role.updateFromJSON_carries {r r' : Role} (h : r.updateFromJSON data = .ok r') :
    r'.Carries data ∧ r'.name = r.name ∧ lookupField data nameField = .str r'.name := by
  obtain ⟨_, hsm, h⟩ := bind_eq_ok h
  obtain ⟨-, -, h⟩ := bind_eq_ok h
  obtain ⟨runList, hrl, h⟩ := bind_eq_ok h
  obtain ⟨envRunLists, he, h⟩ := bind_eq_ok h
  obtain ⟨default, hd, h⟩ := bind_eq_ok h
  obtain ⟨override, ho, h⟩ := bind_eq_ok h
  obtain ⟨jsonClass, -, h⟩ := bind_eq_ok h
  obtain ⟨chefType, -, h⟩ := bind_eq_ok h
  cases h
  refine ⟨⟨hrl, he, rfl, hd, ho⟩, rfl, ?_⟩
  have hs := Actors.require_ok hsm
  cases hv : Actors.validateAsString (lookupField data nameField) with
  | error e =>
    rw [hv] at hs
    cases hs
  | ok t =>
    rw [hv] at hs
    cases hs
    exact Actors.validateAsString_ok hv

lemma ChefEnvironment.updateFromJSON_carries {e e' : ChefEnvironment} (h : e.updateFromJSON data = .ok e') :
    e'.Carries data ∧ e'.name = e.name ∧ lookupField data nameField = .str e'.name ∧ e'.name ≠ defaultName := by
  obtain ⟨name, hn, h⟩ := bind_eq_ok h
  obtain ⟨_, hs, h⟩ := bind_eq_ok (mapError_eq_ok_iff.mp h)
  obtain ⟨_, hdf, h⟩ := bind_eq_ok h
  obtain ⟨-, -, h⟩ := bind_eq_ok h
  obtain ⟨default, hd, h⟩ := bind_eq_ok h
  obtain ⟨override, ho, h⟩ := bind_eq_ok h
  obtain ⟨jsonClass, -, h⟩ := bind_eq_ok h
  obtain ⟨chefType, -, h⟩ := bind_eq_ok h
  obtain ⟨versions, hv, h⟩ := bind_eq_ok h
  obtain ⟨cookbookVersions, hc, h⟩ := bind_eq_ok h
  obtain ⟨description, hds, h⟩ := bind_eq_ok h
  cases h
  refine ⟨⟨hds, hd, ho, versions, hv, hc⟩, rfl, ?_, Actors.require_ok hdf⟩
  unfold castName at hn
  split at hn
  · next hl => rw [hl, ok.inj hn, ← Actors.require_ok hs]
  · cases hn

lemma attributes_setField_ne {j : Json} {k : Text} (hk : k ≠ nameField) :
    attributes (setField data nameField j) k = attributes data k := by
  rw [attributes, attributes, lookupField_setField_ne data j hk]

lemma Node.Carries.of_setField {n : Node} {j : Json} (h : n.Carries (setField data nameField j)) : n.Carries data := by
  have hl {k : Text} (hk : k ≠ nameField) := lookupField_setField_ne data j hk
  refine ⟨?_, ?_, ?_, ?_, ?_, ?_⟩
  · rw [← hl (by decide)]
    exact h.runList
  · rw [← attributes_setField_ne (by decide)]
    exact h.normal
  · rw [← attributes_setField_ne (by decide)]
    exact h.automatic
  · rw [← attributes_setField_ne (by decide)]
    exact h.default
  · rw [← attributes_setField_ne (by decide)]
    exact h.override
  · intro t ht
    rw [← hl (by decide)] at ht
    exact h.chefEnvironment t ht

lemma Role.Carries.of_setField {r : Role} {j : Json} (h : r.Carries (setField data nameField j)) : r.Carries data := by
  have hl {k : Text} (hk : k ≠ nameField) := lookupField_setField_ne data j hk
  refine ⟨?_, ?_, ?_, ?_, ?_⟩
  · rw [← hl (by decide)]
    exact h.runList
  · rw [Role.envRunListsOf, ← hl (by decide)]
    exact h.envRunLists
  · rw [Role.descriptionOf, ← hl (by decide)]
    exact h.description
  · rw [← attributes_setField_ne (by decide)]
    exact h.default
  · rw [← attributes_setField_ne (by decide)]
    exact h.override

end

end Goiardi.Objects

namespace Goiardi.Indexing

open Validation
open Actors (Answer answer answerInParts Draw Actor)
open Objects (Node Role ChefEnvironment Target)
open Uploads (Fault)

section

variable {α β : Type} {s s' : Server} {a : α}

variable {x : Except Actors.Refusal α} {f : α → Handler β} {b : β}

lemma attain_inv {x : Except Fault α} (h : attain x s = .ok a s') : x = .ok a ∧ s' = s := by
  cases x with
  | error e => cases h
  | ok b =>
    cases h
    exact ⟨rfl, rfl⟩

lemma check_bind_inv (h : (check x >>= f) s = .ok b s') : ∃ a, x = .ok a ∧ f a s = .ok b s' := by
  obtain ⟨a, t, hx, hf⟩ := run_bind_inv h
  cases x <;> cases hx
  exact ⟨a, rfl, hf⟩

lemma attain_bind_inv {x : Except Fault α} (h : (attain x >>= f) s = .ok b s') : ∃ a, x = .ok a ∧ f a s = .ok b s' := by
  obtain ⟨a, t, hx, hf⟩ := run_bind_inv h
  obtain ⟨ha, rfl⟩ := attain_inv hx
  exact ⟨a, ha, hf⟩

lemma get_bind_inv {f : Server → Handler β} (h : (get >>= f) s = .ok b s') : f s s = .ok b s' := h

end

section

variable (env : Settings) (op : Actor)

def NodeStored (url : Option Text) (body : Body) (s : Server) : Prop :=
  ∃ data n, readBody body = .ok data ∧ Target url data n.name ∧ n.Carries data ∧ s.nodes.lookup n.name = some n

def RoleStored (url : Option Text) (body : Body) (s : Server) : Prop :=
  ∃ data r, readBody body = .ok data ∧ Target url data r.name ∧ r.Carries data ∧ s.roles.lookup r.name = some r

def EnvironmentStored (url : Option Text) (body : Body) (s : Server) : Prop :=
  ∃ data e, readBody body = .ok data ∧ Target url data e.name ∧ e.Carries data ∧ findEnvironment s e.name = some e

variable {env op} {body : Body} {s s' : Server} {url : Text}

variable {data : JsonMap} {name : Text} {n : Node} {r : Role} {e : ChefEnvironment}

lemma target_of_str {u : Option Text} (h : lookupField data nameField = .str name)
    (hu : name = [] → u = none ∨ u = some []) : Target u data name := by
  unfold Target
  rw [h]
  cases name with
  | nil =>
    rcases hu rfl with rfl | rfl <;> rfl
  | cons c t => rfl

lemma nodeCreate_stored (h : nodeCreate env op body s = .ok n s') : NodeStored none body s' := by
  obtain ⟨_, -, h⟩ := check_bind_inv h
  obtain ⟨data, hd, h⟩ := check_bind_inv h
  obtain ⟨name, hnm, h⟩ := check_bind_inv h
  obtain ⟨_, -, h⟩ := check_bind_inv (get_bind_inv h)
  obtain ⟨n', hnw, h⟩ := check_bind_inv (get_bind_inv h)
  cases h
  obtain ⟨_, -, hnw⟩ := bind_eq_ok hnw
  obtain ⟨_, -, hnw⟩ := bind_eq_ok hnw
  obtain ⟨_, -, hnw⟩ := bind_eq_ok hnw
  obtain ⟨hc, -, hn⟩ := Node.updateFromJSON_carries hnw
  exact ⟨data, n, hd, target_of_str hn fun _ => .inl rfl, hc, AList.lookup_insert _⟩

lemma withName_ok {data data' : JsonMap} (h : withName url (some data) = .ok data') :
    data' = data ∨ data.lookup nameField = none ∧ data' = setField data nameField (.str url) := by
  rw [withName] at h
  split at h
  · next hl => exact .inr ⟨Option.isNone_iff_eq_none.mp hl, (Except.ok.inj h).symm⟩
  · exact .inl (Except.ok.inj h).symm

lemma target_of_none (h : data.lookup nameField = none) : Target (some url) data url := by
  simp [Target, lookupField, h]

lemma nodeData_ok {data data' : JsonMap} (h : nodeData url data = .ok data') (hc : n.Carries data')
    (hn : lookupField data' nameField = .str n.name) :
    n.Carries data ∧ n.name = url ∧ (lookupField data nameField = .str url ∨ lookupField data nameField = .str []) := by
  obtain ⟨jsonName, hnm, h⟩ := bind_eq_ok h
  obtain ⟨_, hsm, h⟩ := bind_eq_ok h
  have hs := Actors.validateAsString_ok hnm
  cases h
  by_cases he : jsonName = []
  · subst he
    rw [if_pos rfl] at hc hn
    rw [lookupField_setField] at hn
    exact ⟨hc.of_setField, (Json.str.inj hn).symm, .inr hs⟩
  · rw [if_neg he] at hc hn
    have hu : url = jsonName := (Actors.require_ok hsm).resolve_right he
    rw [hs] at hn
    exact ⟨hc, (Json.str.inj hn).symm.trans hu.symm, .inl (hu ▸ hs)⟩

lemma nodePut_stored (h : nodePut env op url body s = .ok n s') : NodeStored (some url) body s' := by
  obtain ⟨_, -, h⟩ := check_bind_inv h
  obtain ⟨parsed, hp, h⟩ := check_bind_inv h
  obtain ⟨n₀, -, h⟩ := (looks_getNode s url).bind_inv h
  obtain ⟨data₁, hw, h⟩ := attain_bind_inv h
  obtain ⟨data₂, hd, h⟩ := check_bind_inv h
  obtain ⟨n₁, hup, h⟩ := check_bind_inv h
  cases h
  obtain ⟨hc, -, hn⟩ := Node.updateFromJSON_carries hup
  cases parsed with
  | none => cases hw
  | some data =>
    obtain ⟨hc', hu, hs⟩ := nodeData_ok hd hc hn
    have hr : readBody body = .ok data := by
      rw [readBody, hp]
      rfl
    rcases withName_ok hw with rfl | ⟨hnn, rfl⟩
    · refine ⟨data₁, n, hr, ?_, hc', AList.lookup_insert _⟩
      rw [hu]
      rcases hs with hs | hs
      · exact target_of_str hs fun hnl => .inr (congrArg some hnl)
      · simp [Target, hs]
    · refine ⟨data, n, hr, ?_, hc'.of_setField, AList.lookup_insert _⟩
      rw [hu]
      exact target_of_none hnn

lemma roleCreate_stored (h : roleCreate env op body s = .ok r s') : RoleStored none body s' := by
  obtain ⟨_, -, h⟩ := check_bind_inv h
  obtain ⟨data, hd, h⟩ := check_bind_inv h
  obtain ⟨name, hnm, h⟩ := check_bind_inv h
  obtain ⟨_, -, h⟩ := check_bind_inv (get_bind_inv h)
  obtain ⟨r', hnw, h⟩ := attain_bind_inv (get_bind_inv h)
  cases h
  obtain ⟨_, -, hnw⟩ := bind_eq_ok hnw
  obtain ⟨_, -, hnw⟩ := bind_eq_ok (mapError_eq_ok_iff.mp hnw)
  obtain ⟨_, -, hnw⟩ := bind_eq_ok hnw
  obtain ⟨hc, -, hn⟩ := Role.updateFromJSON_carries hnw
  exact ⟨data, r, hd, target_of_str hn fun _ => .inl rfl, hc, AList.lookup_insert _⟩

lemma rolePut_stored (h : rolePut env op url body s = .ok r s') : RoleStored (some url) body s' := by
  obtain ⟨r₀, -, h⟩ := (looks_getRole s url).bind_inv h
  obtain ⟨_, -, h⟩ := check_bind_inv h
  obtain ⟨parsed, hp, h⟩ := check_bind_inv h
  obtain ⟨data₁, hw, h⟩ := attain_bind_inv h
  obtain ⟨_, hs, h⟩ := check_bind_inv h
  obtain ⟨r₁, hup, h⟩ := check_bind_inv h
  cases h
  obtain ⟨hc, -, hn⟩ := Role.updateFromJSON_carries hup
  cases parsed with
  | none => cases hw
  | some data =>
    have hr : readBody body = .ok data := by
      rw [readBody, hp]
      rfl
    obtain ⟨jsonName, hnm, hs⟩ := bind_eq_ok hs
    have hst := Actors.validateAsString_ok hnm
    rw [← Actors.require_ok hs] at hst
    have hu : r.name = url := Json.str.inj (hn.symm.trans hst)
    rcases withName_ok hw with rfl | ⟨hnn, rfl⟩
    · refine ⟨data₁, r, hr, ?_, hc, AList.lookup_insert _⟩
      rw [hu]
      exact target_of_str hst fun hnl => .inr (congrArg some hnl)
    · refine ⟨data, r, hr, ?_, hc.of_setField, AList.lookup_insert _⟩
      rw [hu]
      exact target_of_none hnn

lemma saveEnvironment_run (h : e.name ≠ ChefEnvironment.defaultName) (s : Server) :
    saveEnvironment env e s = .ok () { s with
      environments := s.environments.insert e.name e, pending := s.pending ++ [env.indexable (.environment e)] } := by
  have hr : Actors.require (e.name ≠ ChefEnvironment.defaultName) ChefEnvironment.notModified = .ok () := if_pos h
  rw [saveEnvironment, hr]
  rfl

lemma findEnvironment_saved (h : e.name ≠ ChefEnvironment.defaultName) (s : Server) (pending : List Indexable) :
    findEnvironment { s with environments := s.environments.insert e.name e, pending } e.name = some e := by
  rw [findEnvironment, if_neg h]
  exact AList.lookup_insert _

lemma Environment.newFromJSON_carries (h : Environment.newFromJSON s data = .ok e) :
    e.Carries data ∧ lookupField data nameField = .str e.name ∧ e.name ≠ ChefEnvironment.defaultName := by
  obtain ⟨_, -, h⟩ := bind_eq_ok h
  obtain ⟨_, -, h⟩ := bind_eq_ok h
  obtain ⟨hc, -, hn, hd⟩ := ChefEnvironment.updateFromJSON_carries h
  exact ⟨hc, hn, hd⟩

lemma environmentCreate_stored (h : environmentCreate env op body s = .ok e s') : EnvironmentStored none body s' := by
  obtain ⟨_, -, h⟩ := check_bind_inv h
  obtain ⟨data, hdt, h⟩ := check_bind_inv h
  obtain ⟨name, hnm, h⟩ := check_bind_inv h
  obtain ⟨_, -, h⟩ := check_bind_inv (get_bind_inv h)
  obtain ⟨e', hnw, h⟩ := attain_bind_inv (get_bind_inv h)
  obtain ⟨hc, hn, hd⟩ := Environment.newFromJSON_carries hnw
  rw [run_bind_ok (saveEnvironment_run hd s)] at h
  cases h
  exact ⟨data, e, hdt, target_of_str hn fun _ => .inl rfl, hc, findEnvironment_saved hd s _⟩

def environmentPutStart (env : Settings) (op : Actor) (envName : Text) (body : Body) :
    Handler (ChefEnvironment × Bool) := do
  let e ← getEnvironment envName
  check (Actors.require (op.isAdmin env.actors.useAuth) notAllowed)
  let data ← check (parseObjJSON body)
  let data ← check (environmentData data)
  let jsonName ← check (putName data)
  let e ← (if envName ≠ jsonName then renameEnvironment envName jsonName data else attain (e.updateFromJSON data) :
    Handler ChefEnvironment)
  return (e, envName ≠ jsonName)

def environmentPutEnd (env : Settings) (e : ChefEnvironment) : Handler ChefEnvironment := do
  saveEnvironment env e
  return e

lemma renameEnvironment_inv {envName jsonName : Text}
    (h : renameEnvironment envName jsonName data s = .ok e s') : Environment.newFromJSON s data = .ok e := by
  obtain ⟨_, -, h⟩ := check_bind_inv (get_bind_inv h)
  obtain ⟨e', hn, h⟩ := attain_bind_inv (get_bind_inv h)
  have hl := get_bind_inv h
  cases hf : findEnvironment s envName with
  | none =>
    rw [hf] at hl
    cases hl
    exact hn
  | some old =>
    rw [hf] at hl
    obtain ⟨_, t, -, hl⟩ := run_bind_inv hl
    cases hl
    exact hn

lemma putName_ok (h : putName data = .ok name) : lookupField data nameField = .str name ∧ name ≠ [] := by
  obtain ⟨_, -, h⟩ := bind_eq_ok h
  obtain ⟨jsonName, hn, h⟩ := bind_eq_ok h
  obtain ⟨_, hne, h⟩ := bind_eq_ok h
  cases h
  exact ⟨Actors.validateAsString_ok hn, Actors.require_ok hne⟩

lemma environmentPutStart_inv {written : Bool} (h : environmentPutStart env op url body s = .ok (e, written) s') :
    ∃ data, readBody body = .ok data ∧ Target (some url) data e.name ∧ e.Carries data ∧
      e.name ≠ ChefEnvironment.defaultName := by
  obtain ⟨e₀, -, h⟩ := (looks_getEnvironment s url).bind_inv h
  obtain ⟨_, -, h⟩ := check_bind_inv h
  obtain ⟨parsed, hp, h⟩ := check_bind_inv h
  obtain ⟨data, hdt, h⟩ := check_bind_inv h
  obtain ⟨jsonName, hnm, h⟩ := check_bind_inv h
  obtain ⟨e₁, t, he, h⟩ := run_bind_inv h
  cases h
  obtain ⟨hst, hne⟩ := putName_ok hnm
  have hr : readBody body = .ok data := by
    rw [readBody, hp]
    cases parsed with
    | none => cases hdt
    | some d =>
      cases hdt
      rfl
  have hv : e.Carries data ∧ lookupField data nameField = .str e.name ∧ e.name ≠ ChefEnvironment.defaultName := by
    split at he
    · exact Environment.newFromJSON_carries (renameEnvironment_inv he)
    · obtain ⟨hup, -⟩ := attain_inv he
      obtain ⟨hc, -, hn, hd⟩ := ChefEnvironment.updateFromJSON_carries hup
      exact ⟨hc, hn, hd⟩
  obtain ⟨hc, hn, hd⟩ := hv
  have hs : e.name = jsonName := Json.str.inj (hn.symm.trans hst)
  exact ⟨data, hr, target_of_str hn fun hnl => absurd (hs.symm.trans hnl) hne, hc, hd⟩

end

section

inductive Write
  | createClient
  | putClient (name : Text)
  | createUser
  | putUser (name : Text)
  | createNode
  | putNode (name : Text)
  | createRole
  | putRole (name : Text)
  | createEnvironment
  | putEnvironment (name : Text)

def actorBody (body : Body) : Except Text JsonMap := (readBody body).mapError Actors.Refusal.message

def onServer (s : Server) (r : Answer Actors.World) : Answer Server := ⟨r.success, { s with actors := r.after }⟩

variable (env : Settings) (op : Actor) (draw : Draw) (s : Server) (body : Body)

def Write.answer : Write → Answer Server
  | createClient => onServer s (Actors.answer (Actors.clientCreate env.actors op draw (actorBody body)) s.actors)
  | putClient name => onServer s (Actors.clientPutAnswer env.actors op draw name (actorBody body) s.actors)
  | createUser => onServer s (Actors.answer (Actors.userCreate env.actors op draw (actorBody body)) s.actors)
  | putUser name => onServer s (Actors.userPutAnswer env.actors op draw name (actorBody body) s.actors)
  | createNode => Actors.answer (nodeCreate env op body) s
  | putNode name => Actors.answer (nodePut env op name body) s
  | createRole => Actors.answer (roleCreate env op body) s
  | putRole name => Actors.answer (rolePut env op name body) s
  | createEnvironment => Actors.answer (environmentCreate env op body) s
  | putEnvironment name => answerInParts (environmentPutStart env op name body) (environmentPutEnd env) s

def Write.Stored (s' : Server) : Write → Prop
  | createClient | putClient _ => Actors.ClientStored (actorBody body) s'.actors
  | createUser | putUser _ => Actors.UserStored env.actors.crypto (actorBody body) s'.actors
  | createNode => NodeStored none body s'
  | putNode name => NodeStored (some name) body s'
  | createRole => RoleStored none body s'
  | putRole name => RoleStored (some name) body s'
  | createEnvironment => EnvironmentStored none body s'
  | putEnvironment name => EnvironmentStored (some name) body s'

def Write.Taken : Write → Prop
  | createClient | putClient _ => Actors.ClientTaken s.actors (actorBody body)
  | createUser | putUser _ => Actors.UserTaken s.actors (actorBody body)
  | _ => False

/-- The request is answered with success all the same: a user that is created or a client that is written has a name of
the other kind, so that `Save` fails, or a client or user is renamed and the rest of the body is refused. -/
def Write.Slips : Write → Prop
  | putClient name => Actors.ClientPutSlips env.actors op draw s.actors name (actorBody body)
  | createUser => ∃ data u json, actorBody body = .ok data ∧
      Actors.User.created env.actors op draw s.actors data = .ok (u, json) ∧ s.actors.clients.get u.username ≠ none
  | putUser name => Actors.UserPutSlips env.actors op draw s.actors name (actorBody body)
  | _ => False

variable {env op draw s body}

lemma honest_onServer {r : Answer Actors.World} {stored : Actors.World → Prop} {taken : Prop} :
    (onServer s r).Honest (fun s' => stored s'.actors) taken ↔ r.Honest stored taken :=
  ⟨fun h => ⟨h.stored, h.refused⟩, fun h => ⟨h.stored, h.refused⟩⟩

lemma honest_of_stored {α : Type} {x : Handler α} {stored : Server → Prop}
    (h : ∀ a s', x s = .ok a s' → stored s') : (Actors.answer x s).Honest stored False := by
  refine ⟨fun hs => ?_, False.elim⟩
  cases hx : x s with
  | ok a s' =>
    rw [Actors.answer_ok hx]
    exact h a s' hx
  | error e s' =>
    rw [Actors.answer_error hx] at hs
    cases hs

lemma environmentPut_honest (env : Settings) (op : Actor) (name : Text) (body : Body) (s : Server) :
    (answerInParts (environmentPutStart env op name body) (environmentPutEnd env) s).Honest
      (EnvironmentStored (some name) body) False := by
  cases hx : environmentPutStart env op name body s with
  | error e s' =>
    rw [answerInParts, hx]
    exact Actors.honest_of_refused rfl
  | ok p s' =>
    obtain ⟨e, written⟩ := p
    obtain ⟨data, hr, ht, hc, hd⟩ := environmentPutStart_inv hx
    obtain ⟨t, he, hf⟩ : ∃ t, environmentPutEnd env e s' = .ok e t ∧ findEnvironment t e.name = some e :=
      ⟨_, run_bind_ok (saveEnvironment_run hd s'), findEnvironment_saved hd s' _⟩
    have ha : answerInParts (environmentPutStart env op name body) (environmentPutEnd env) s = ⟨true, t⟩ := by
      rw [answerInParts, hx]
      dsimp only
      rw [Actors.answer_ok he, ite_self]
    rw [ha]
    exact ⟨fun _ => ⟨data, e, hr, ht, hc, hf⟩, False.elim⟩

/-- Success means that the object is stored, and a name of the other kind of actor is refused, exactly where none of the
three slips occurs. -/
theorem write_honest_iff (env : Settings) (op : Actor) (draw : Draw) (s : Server) (body : Body) (r : Write) :
    (r.answer env op draw s body).Honest (fun s' => r.Stored env body s') (r.Taken s body) ↔
      ¬ r.Slips env op draw s body := by
  cases r with
  | createClient =>
    exact iff_of_true (honest_onServer.mpr (Actors.clientCreate_honest env.actors op draw _ _)) not_false
  | putClient name => exact honest_onServer.trans (Actors.clientPut_honest_iff env.actors op draw name _ _)
  | createUser =>
    refine honest_onServer.trans ((Actors.userCreate_honest_iff env.actors op draw _ _).trans ?_)
    simp only [Write.Slips, not_exists, not_and, not_not]
  | putUser name => exact honest_onServer.trans (Actors.userPut_honest_iff env.actors op draw name _ _)
  | createNode => exact iff_of_true (honest_of_stored fun _ _ => nodeCreate_stored) not_false
  | putNode name => exact iff_of_true (honest_of_stored fun _ _ => nodePut_stored) not_false
  | createRole => exact iff_of_true (honest_of_stored fun _ _ => roleCreate_stored) not_false
  | putRole name => exact iff_of_true (honest_of_stored fun _ _ => rolePut_stored) not_false
  | createEnvironment => exact iff_of_true (honest_of_stored fun _ _ => environmentCreate_stored) not_false
  | putEnvironment name => exact iff_of_true (environmentPut_honest env op name body s) not_false

def bossUser : Actors.User := { Actors.annaUser with admin := true }

def webUser : JsonMap :=
  [(nameField, .str "web"), (Actors.passwordField, .str "secret")]

theorem write_not_honest :
    ((Write.createUser.answer plainSettings (.user bossUser) Actors.freshDraw webServer (.ok webUser)).success = true ∧
      (Write.createUser.answer plainSettings (.user bossUser) Actors.freshDraw webServer
        (.ok webUser)).after.actors.users.find "web" = none) ∧
    ¬ (Write.createUser.answer plainSettings (.user bossUser) Actors.freshDraw webServer (.ok webUser)).Honest
      (fun s' => Write.createUser.Stored plainSettings (.ok webUser) s')
      (Write.createUser.Taken webServer (.ok webUser)) ∧
    ((Write.putClient "web").answer plainSettings (.client Actors.webClient) Actors.noDraw webServer
      (.ok Actors.badRename)).success = true ∧
    ((Write.putClient "web").answer plainSettings (.client Actors.webClient) Actors.noDraw webServer
      (.ok Actors.badRename)).after.actors.clients.find "app" = none := by
  have hr : (Write.createUser.answer plainSettings (.user bossUser) Actors.freshDraw webServer
      (.ok webUser)).success = true ∧
    (Write.createUser.answer plainSettings (.user bossUser) Actors.freshDraw webServer
        (.ok webUser)).after.actors.users.find "web" = none := by decide +kernel
  refine ⟨hr, fun h => ?_, by decide +kernel, by decide +kernel⟩
  obtain ⟨data, u, hd, hu, hf⟩ := h.stored hr.1
  cases hd
  rw [← Json.str.inj (hu.name : lookupField webUser nameField = _), hr.2] at hf
  cases hf

end

end Goiardi.Indexing
