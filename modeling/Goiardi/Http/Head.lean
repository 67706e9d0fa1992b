import Goiardi.Actors.Privilege
import Goiardi.Cookbooks.Requests
import Goiardi.Indexing.Frame
import Goiardi.Objects.Kinds

/-! `HEAD` and `GET` on a single object. A `HEAD` request takes a way of its own, through a test for the object and a test
of the permission, to a status that should be the one of the `GET` request. -/

namespace Goiardi.Uploads

open Validation

section

variable (baseURL method : Text)

def putMethod : Text := "PUT"

def isStoreLink (j : Json) : Bool :=
  match j with
  | .str t => t = [] || decide ("/file_store/" <:+: t)
  | _ => true

def methodizeField (chkSum k : Text) (j : Json) : Option (Text × Json) :=
  if method = putMethod ∧ k = urlField then none
  else if k = urlField ∧ isStoreLink j then some (k, .str (itemURL baseURL chkSum))
  else some (k, j)

def methodizeItem (item : JsonMap) : Except Fault Json :=
  match checksum item with
  | none => .error (.panic .typeAssertion)
  | some chkSum => .ok (.obj (item.filterMap fun p => methodizeField baseURL method chkSum p.1 p.2))

def methodize (cbThing : List JsonMap) : Except Fault Json := return .arr (← cbThing.mapM (methodizeItem baseURL method))

def Division.others : List Division :=
  [providers, definitions, libraries, attributes, resources, templates, rootFiles, files]

def CookbookVersion.toJSON (cbv : CookbookVersion) : Except Fault JsonMap := do
  let recipes ← methodize baseURL method (cbv.divisions .recipes)
  let others ← (Division.others.filter fun d => ¬ (cbv.divisions d).isEmpty).mapM fun d =>
    return (d.field, ← methodize baseURL method (cbv.divisions d))
  let version := if cbv.version = "0.0.0" then [] else [(versionField, Json.str cbv.version)]
  return [(nameField, .str cbv.name), (cookbookNameField, .str cbv.cookbookName)] ++ version ++
    [(Actors.chefTypeField, .str cbv.chefType), (Actors.jsonClassField, .str cbv.jsonClass),
      (frozenField, .bool cbv.isFrozen), (Division.recipes.field, recipes), (metadataField, .obj cbv.metadata)] ++ others

def CookbookVersion.Summed (cbv : CookbookVersion) : Prop := ∀ d, ∀ item ∈ cbv.divisions d, (checksum item).isSome

variable {baseURL method} {cbv : CookbookVersion}

lemma methodize_error {cbThing : List JsonMap} {e : Fault} (h : methodize baseURL method cbThing = .error e) :
    e = .panic .typeAssertion ∧ ∃ item ∈ cbThing, checksum item = none := by
  rw [methodize] at h
  cases hm : cbThing.mapM (methodizeItem baseURL method) with
  | error e' =>
    rw [hm] at h
    cases h
    obtain ⟨item, hmm, hi⟩ := mapM_error hm
    rw [methodizeItem] at hi
    cases hc : checksum item with
    | none =>
      rw [hc] at hi
      exact ⟨(Except.error.inj hi).symm, item, hmm, hc⟩
    | some chkSum =>
      rw [hc] at hi
      cases hi
  | ok r =>
    rw [hm] at h
    cases h

lemma methodize_ok {cbThing : List JsonMap} {j : Json} (h : methodize baseURL method cbThing = .ok j) :
    ∀ item ∈ cbThing, (checksum item).isSome := by
  obtain ⟨r, hr, -⟩ := bind_eq_ok h
  intro item hm
  obtain ⟨b, -, hb⟩ := forall₂_mem_right (mapM_eq_ok_iff.mp hr).flip hm
  cases hc : checksum item with
  | none =>
    rw [methodizeItem, hc] at hb
    cases hb
  | some chkSum => rfl

lemma CookbookVersion.toJSON_error {e : Fault} (h : cbv.toJSON baseURL method = .error e) :
    e = .panic .typeAssertion ∧ ¬ cbv.Summed := by
  have hn {d : Division} {e : Fault} (hd : methodize baseURL method (cbv.divisions d) = .error e) :
      e = .panic .typeAssertion ∧ ¬ cbv.Summed := by
    obtain ⟨he, item, hmm, hc⟩ := methodize_error hd
    refine ⟨he, fun hs => ?_⟩
    have hsm := hs d item hmm
    rw [hc] at hsm
    cases hsm
  rw [toJSON] at h
  cases hr : methodize baseURL method (cbv.divisions .recipes) with
  | error e' =>
    rw [hr] at h
    cases h
    exact hn hr
  | ok recipes =>
    rw [hr, ok_bind] at h
    cases ho : (Division.others.filter fun d => ¬ (cbv.divisions d).isEmpty).mapM fun d =>
        (return (d.field, ← methodize baseURL method (cbv.divisions d)) : Except Fault (Text × Json)) with
    | error e' =>
      rw [ho] at h
      cases h
      obtain ⟨d, -, hd⟩ := mapM_error ho
      cases hm : methodize baseURL method (cbv.divisions d) with
      | error e' =>
        rw [hm] at hd
        cases hd
        exact hn hm
      | ok j =>
        rw [hm] at hd
        cases hd
    | ok others =>
      rw [ho] at h
      cases h

lemma CookbookVersion.summed_of_toJSON {json : JsonMap} (h : cbv.toJSON baseURL method = .ok json) : cbv.Summed := by
  obtain ⟨recipes, hr, h⟩ := bind_eq_ok h
  obtain ⟨others, ho, -⟩ := bind_eq_ok h
  intro d item hm
  by_cases hd : d = .recipes
  · subst hd
    exact methodize_ok hr item hm
  · have hf : d ∈ Division.others.filter fun d => ¬ (cbv.divisions d).isEmpty := by
      refine List.mem_filter.mpr ⟨by cases d <;> first | exact absurd rfl hd | decide, ?_⟩
      simpa using List.ne_nil_of_mem hm
    obtain ⟨p, -, hp⟩ := forall₂_mem_right (mapM_eq_ok_iff.mp ho).flip hf
    obtain ⟨j, hj, -⟩ := bind_eq_ok hp
    exact methodize_ok hj item hm

end

end Goiardi.Uploads

namespace Goiardi.Http

open Validation
open Actors (Actor Env Refusal World require)
open Objects (Node Role ChefEnvironment LogInfo)
open Uploads (Cookbook Fault)

structure Store where
  server : Indexing.Server
  uploads : Uploads.Server
  logs : AList fun _ : ℤ => LogInfo

abbrev Responder := EStateM Panic (List ℕ)

def writeHeader (status : ℕ) : Responder Unit := modify (· ++ [status])

/-- The status of the response: only the first one that is written counts, and 200 stands for none. A handler that panics
before it writes one sends no response. -/
def sent (x : Responder Unit) : Option ℕ :=
  match x [] with
  | .ok _ written => some (written.headD 200)
  | .error _ written => written.head?

/-- A handler that ends with `jsonErrorReport` or with a body. -/
def respond {α : Type} : Except Fault α → Responder Unit
  | .ok _ => pure ()
  | .error (.refused e) => writeHeader e.status
  | .error (.panic p) => throw p

abbrev Exists := Text → Responder (Bool × Option Refusal)

abbrev PermChecker := Text → Option Refusal

def nilPermCheck : PermChecker := fun _ => none

def headForbidden : Refusal := ⟨"forbidden", 403⟩

def headError : Option Refusal → Responder Unit
  | none => pure ()
  | some e => writeHeader e.status

-- nothing returns after a status has been written
def headChecking (resource : Text) (doesExist : Exists) (permCheck : PermChecker) : Responder Unit := do
  let (found, err) ← doesExist resource
  headError err
  headError (permCheck resource)
  if ¬ found then writeHeader 404
  writeHeader 200

def inStore (has : Text → Bool) : Exists := fun resource => pure (has resource, none)

section

variable (env : Env) (op : Actor) (s : Store)

def validatorCheck : PermChecker := fun _ => if op.isValidator env.useAuth then some headForbidden else none

def outcome {ε σ α : Type} (x : EStateM ε σ α) (s : σ) : Except ε α :=
  match x s with
  | .ok a _ => .ok a
  | .error e _ => .error e

def clientHead (name : Text) : Responder Unit :=
  headChecking name (inStore fun name => (s.server.actors.clients.get name).isSome) fun name =>
    if op.isAdmin env.useAuth then none
    else
      match s.server.actors.clients.get name with
      | none => some (Actors.clientNotFound name)
      | some h => if op.isSelf env.useAuth (.client h.val) then none else some headForbidden

def clientGet (name : Text) : Responder Unit :=
  respond ((outcome (Actors.clientGet env op name) s.server.actors).mapError Fault.refused)

def userMissing (name : Text) : Refusal := ⟨"User " ++ name ++ " not found", 400⟩

def notSame : Refusal := ⟨"not same", 403⟩

def userHead (name : Text) : Responder Unit :=
  headChecking name (inStore fun name => (s.server.actors.users.get name).isSome) fun name =>
    if op.isAdmin env.useAuth then none
    else
      match s.server.actors.users.get name with
      | none => some (userMissing name)
      | some h => if op.isSelf env.useAuth (.user h.val) then none else some notSame

def userGet (name : Text) : Responder Unit :=
  respond ((outcome (Actors.userGet env op name) s.server.actors).mapError Fault.refused)

def nodeHead (name : Text) : Responder Unit :=
  headChecking name (inStore fun name => (s.server.nodes.lookup name).isSome) (validatorCheck env op)

def readNode (name : Text) : Indexing.Handler Node := do
  Indexing.check (require (¬ op.isValidator env.useAuth) Indexing.notAllowed)
  Indexing.getNode name

def nodeGet (name : Text) : Responder Unit := respond (outcome (readNode env op name) s.server)

def roleHead (name : Text) : Responder Unit :=
  headChecking name (inStore fun name => (s.server.roles.lookup name).isSome) (validatorCheck env op)

def readRole (name : Text) : Indexing.Handler Role := do
  let chefRole ← Indexing.getRole name
  Indexing.check (require (¬ op.isValidator env.useAuth) Indexing.notAllowed)
  return chefRole

def roleGet (name : Text) : Responder Unit := respond (outcome (readRole env op name) s.server)

-- the test does not know that there always is a default environment
def environmentHead (name : Text) : Responder Unit :=
  headChecking name (inStore fun name => (s.server.environments.lookup name).isSome) (validatorCheck env op)

def readEnvironment (name : Text) : Indexing.Handler ChefEnvironment := do
  let e ← Indexing.getEnvironment name
  Indexing.check (require (¬ op.isValidator env.useAuth) Indexing.notAllowed)
  return e

def environmentGet (name : Text) : Responder Unit := respond (outcome (readEnvironment env op name) s.server)

def bagHead (name : Text) : Responder Unit :=
  if op.isValidator env.useAuth then writeHeader 403
  else headChecking name (inStore fun name => (s.server.bags.lookup name).isSome) (validatorCheck env op)

def readBag (name : Text) : Indexing.Handler (List Text) := do
  Indexing.check (require (¬ op.isValidator env.useAuth) Indexing.notAllowed)
  let chefDbag ← Indexing.getBag name (.refused ⟨"Cannot load data bag " ++ name, 404⟩)
  return chefDbag.items.keys

def bagGet (name : Text) : Responder Unit := respond (outcome (readBag env op name) s.server)

def itemHead (bag id : Text) : Responder Unit :=
  if op.isValidator env.useAuth then writeHeader 403
  else
    match s.server.bags.lookup bag with
    | none => writeHeader 404
    | some chefDbag => headChecking id (inStore fun id => (chefDbag.items.lookup id).isSome) (validatorCheck env op)

def itemNotFound (bag id : Text) : Fault :=
  .refused ⟨"Cannot load data bag item " ++ id ++ " for data bag " ++ bag, 404⟩

def readItem (bag id : Text) : Indexing.Handler JsonMap := do
  Indexing.check (require (¬ op.isValidator env.useAuth) Indexing.notAllowed)
  let chefDbag ← Indexing.getBag bag (itemNotFound bag id)
  Indexing.attain (Uploads.demand (chefDbag.items.lookup id).isSome (itemNotFound chefDbag.name id))
  let dbi ← Indexing.attain (Indexing.getDBItem chefDbag id)
  return dbi.rawData

def itemGet (bag id : Text) : Responder Unit := respond (outcome (readItem env op bag id) s.server)

def pathVersion (path : Text) : Except Fault Text :=
  if path = Cookbook.latestName then .ok path else Uploads.pathVersion path

def Store.cookbook (name : Text) : Option Cookbook :=
  (s.uploads.get ⟨env.mode, env.baseURL⟩ name).map Cell.val

def doesVersionExist (cb : Cookbook) : Exists := fun ver =>
  match (cb.getVersion ver).1 with
  | .ok _ => pure (true, none)
  | .error (.refused e) => pure (false, some e)
  | .error (.panic p) => throw p

def cookbookVersionHead (name path : Text) : Responder Unit :=
  match pathVersion path with
  | .error e => respond (.error e : Except Fault Unit)
  | .ok ver =>
    if op.isValidator env.useAuth then writeHeader 403
    else
      match s.cookbook env name with
      | none => writeHeader 404
      | some cb => headChecking ver (doesVersionExist cb) nilPermCheck

def reportedAs (status : ℕ) : Fault → Fault
  | .refused e => .refused { e with status }
  | .panic p => .panic p

def readVersion (name path : Text) : Except Fault JsonMap := do
  let ver ← pathVersion path
  Uploads.demand (¬ op.isValidator env.useAuth) Uploads.notAllowed
  match s.cookbook env name with
  | none => .error (Uploads.cookbookNotFound name)
  | some cb => do
    let cbv ← (cb.getVersion ver).1.mapError (reportedAs 404)
    cbv.toJSON env.baseURL "GET"

def cookbookVersionGet (name path : Text) : Responder Unit := respond (readVersion env op s name path)

/-- `strconv.Atoi` -/
def atoi (t : Text) : Except Text ℤ :=
  match Text.parseInt t with
  | (n, true) => .ok n
  | (n, false) =>
    .error ("strconv.Atoi: parsing \"".toList ++ t ++
      (if n = 0 then "\": invalid syntax".toList else "\": value out of range".toList))

def noLogInfo (id : ℤ) : Text := "Log info with id " ++ Text.formatInt id ++ " not found"

def getLogInfo (id : ℤ) : Except Text LogInfo :=
  match s.logs.lookup id with
  | none => .error (noLogInfo id)
  | some le => .ok { le with id }

def doesEventExist : Exists := fun eventID =>
  match atoi eventID >>= getLogInfo s with
  | .error e => pure (false, some ⟨e, 400⟩)
  | .ok _ => pure (true, none)

-- the request of an actor that is no administrator ends without a status
def eventHead (eventID : Text) : Responder Unit :=
  match atoi eventID with
  | .error _ => writeHeader 400
  | .ok _ =>
    if op.isAdmin env.useAuth then
      headChecking eventID (doesEventExist s) fun _ => if op.isAdmin env.useAuth then none else some headForbidden
    else pure ()

def readEvent (eventID : Text) : Except Refusal LogInfo := do
  let id ← (atoi eventID).mapError fun e => (⟨e, 400⟩ : Refusal)
  require (op.isAdmin env.useAuth) (Actors.forbidden "You must be an admin to do that")
  (getLogInfo s id).mapError fun e => ⟨e, 404⟩

def eventGet (eventID : Text) : Responder Unit := respond ((readEvent env op s eventID).mapError Fault.refused)

end

inductive Resource
  | client (name : Text)
  | user (name : Text)
  | node (name : Text)
  | role (name : Text)
  | environment (name : Text)
  | bag (name : Text)
  | item (dbName id : Text)
  | cookbookVersion (name version : Text)
  | event (id : Text)

namespace Resource

variable (env : Env) (op : Actor) (s : Store)

def head : Resource → Responder Unit
  | client name => clientHead env op s name
  | user name => userHead env op s name
  | node name => nodeHead env op s name
  | role name => roleHead env op s name
  | environment name => environmentHead env op s name
  | bag name => bagHead env op s name
  | item dbName id => itemHead env op s dbName id
  | cookbookVersion name version => cookbookVersionHead env op s name version
  | event id => eventHead env op s id

def get : Resource → Responder Unit
  | client name => clientGet env op s name
  | user name => userGet env op s name
  | node name => nodeGet env op s name
  | role name => roleGet env op s name
  | environment name => environmentGet env op s name
  | bag name => bagGet env op s name
  | item dbName id => itemGet env op s dbName id
  | cookbookVersion name version => cookbookVersionGet env op s name version
  | event id => eventGet env op s id

def Slips : Resource → Prop
  -- the error of `user.Get` has the status 400
  | user name => op.isAdmin env.useAuth = false ∧ s.server.actors.users.get name = none
  -- the permission is tested first, and the `GET` request looks for the object first
  | role name => op.isValidator env.useAuth = true ∧ s.server.roles.lookup name = none
  | environment name =>
    if name = ChefEnvironment.defaultName then
      op.isValidator env.useAuth = false ∧ s.server.environments.lookup name = none
    else op.isValidator env.useAuth = true ∧ s.server.environments.lookup name = none
  -- the rendition of the version panics
  | cookbookVersion name version =>
    ∃ ver cb cbv, pathVersion version = .ok ver ∧ op.isValidator env.useAuth = false ∧
      s.cookbook env name = some cb ∧ (cb.getVersion ver).1 = .ok cbv ∧ ¬ cbv.Summed
  -- no status is written for an actor that is no administrator, and the error for a missing event has the status 400
  | event id => ∃ n, atoi id = .ok n ∧ ¬ (op.isAdmin env.useAuth = true ∧ (s.logs.lookup n).isSome)
  | _ => False

end Resource

section

variable {env : Env} {op : Actor} {s : Store} {resource : Text} {doesExist : Exists} {permCheck : PermChecker}

def firstStatus (found : Bool) (err perm : Option Refusal) : ℕ :=
  match err, perm with
  | some e, _ => e.status
  | none, some e => e.status
  | none, none => if found then 200 else 404

lemma sent_headChecking {found : Bool} {err : Option Refusal} (h : doesExist resource = pure (found, err)) :
    sent (headChecking resource doesExist permCheck) = some (firstStatus found err (permCheck resource)) := by
  rw [headChecking, h]
  cases err with
  | some e => cases permCheck resource <;> cases found <;> rfl
  | none => cases permCheck resource <;> cases found <;> rfl

lemma sent_headChecking_inStore (has : Text → Bool) :
    sent (headChecking resource (inStore has) permCheck) = some (firstStatus (has resource) none (permCheck resource)) :=
  sent_headChecking rfl

section

variable {ε σ α β : Type} {t : σ} {o : Option α} {e : ε} {x : EStateM ε σ α}

lemma outcome_of_looks (h : Looks x t o e) : outcome x t = o.elim (.error e) .ok := by
  rw [outcome, h]
  cases o <;> rfl

lemma outcome_bind_of_looks (h : Looks x t o e) (f : α → EStateM ε σ β) :
    outcome (x >>= f) t = o.elim (.error e) fun a => outcome (f a) t := by
  cases o with
  | none =>
    rw [outcome, run_bind_error h]
    rfl
  | some a =>
    rw [outcome, run_bind_ok h]
    rfl

variable {t : Indexing.Server}

lemma outcome_check {x : Except Refusal α} {f : α → Indexing.Handler β} :
    outcome (Indexing.check x >>= f) t = x.mapError Fault.refused >>= fun a => outcome (f a) t := by
  cases x <;> rfl

lemma outcome_attain {x : Except Fault α} {f : α → Indexing.Handler β} :
    outcome (Indexing.attain x >>= f) t = x >>= fun a => outcome (f a) t := by
  cases x <;> rfl

end

section

lemma ne_of_statuses {x y : Option ℕ} (a b : ℕ) (hx : x = some a) (hy : y = some b) (h : a ≠ b) : x ≠ y := by
  rw [hx, hy]
  exact fun he => h (Option.some.inj he)

lemma client_agrees (name : Text) : sent (clientHead env op s name) = sent (clientGet env op s name) := by
  rw [clientHead, sent_headChecking_inStore, clientGet, Actors.clientGet, outcome_bind_of_looks (Actors.looks_getClient _ name)]
  cases hg : s.server.actors.clients.get name with
  | none => cases ha : op.isAdmin env.useAuth <;> rfl
  | some h =>
    cases ha : op.isAdmin env.useAuth with
    | true => rfl
    | false =>
      simp only [Option.elim_some]
      cases hs : op.isSelf env.useAuth (.client h.val) <;> rfl

lemma user_agrees_iff (name : Text) :
    sent (userHead env op s name) = sent (userGet env op s name) ↔ ¬ (Resource.user name).Slips env op s := by
  rw [userHead, sent_headChecking_inStore, userGet, Actors.userGet, outcome_bind_of_looks (Actors.looks_getUser _ name), Resource.Slips]
  cases hg : s.server.actors.users.get name with
  | none =>
    cases ha : op.isAdmin env.useAuth with
    | true => exact iff_of_true rfl (by simp)
    | false => exact iff_of_false (ne_of_statuses 400 404 rfl rfl (by decide)) (by simp)
  | some h =>
    refine iff_of_true ?_ (by simp)
    cases ha : op.isAdmin env.useAuth with
    | true => rfl
    | false =>
      simp only [Option.elim_some]
      cases hs : op.isSelf env.useAuth (.user h.val) <;> rfl

lemma node_agrees (name : Text) : sent (nodeHead env op s name) = sent (nodeGet env op s name) := by
  rw [nodeHead, sent_headChecking_inStore, nodeGet, readNode, outcome_check, validatorCheck,
    outcome_of_looks (Indexing.looks_getNode _ name)]
  cases hv : op.isValidator env.useAuth <;> cases hl : s.server.nodes.lookup name <;> rfl

lemma role_agrees_iff (name : Text) :
    sent (roleHead env op s name) = sent (roleGet env op s name) ↔ ¬ (Resource.role name).Slips env op s := by
  rw [roleHead, sent_headChecking_inStore, roleGet, readRole, outcome_bind_of_looks (Indexing.looks_getRole _ name), validatorCheck,
    Resource.Slips]
  cases hl : s.server.roles.lookup name with
  | none =>
    cases hv : op.isValidator env.useAuth with
    | true => exact iff_of_false (ne_of_statuses 403 404 rfl rfl (by decide)) (by simp)
    | false => exact iff_of_true rfl (by simp)
  | some r =>
    refine iff_of_true ?_ (by simp)
    cases hv : op.isValidator env.useAuth <;> rfl

lemma environment_agrees_iff (name : Text) :
    sent (environmentHead env op s name) = sent (environmentGet env op s name) ↔
      ¬ (Resource.environment name).Slips env op s := by
  rw [environmentHead, sent_headChecking_inStore, environmentGet, readEnvironment,
    outcome_bind_of_looks (Indexing.looks_getEnvironment _ name), validatorCheck, Resource.Slips, Indexing.findEnvironment]
  by_cases hn : name = ChefEnvironment.defaultName
  · rw [if_pos hn, if_pos hn]
    cases hv : op.isValidator env.useAuth with
    | true => exact iff_of_true rfl (by simp)
    | false =>
      cases hl : s.server.environments.lookup name with
      | none => exact iff_of_false (ne_of_statuses 404 200 rfl rfl (by decide)) (by simp)
      | some e => exact iff_of_true rfl (by simp)
  · rw [if_neg hn, if_neg hn]
    cases hl : s.server.environments.lookup name with
    | none =>
      cases hv : op.isValidator env.useAuth with
      | true => exact iff_of_false (ne_of_statuses 403 404 rfl rfl (by decide)) (by simp)
      | false => exact iff_of_true rfl (by simp)
    | some e =>
      refine iff_of_true ?_ (by simp)
      cases hv : op.isValidator env.useAuth <;> rfl

lemma bag_agrees (name : Text) : sent (bagHead env op s name) = sent (bagGet env op s name) := by
  rw [bagHead, bagGet, readBag, outcome_check, outcome_bind_of_looks (Indexing.looks_getBag _ name _)]
  cases hv : op.isValidator env.useAuth with
  | true => rfl
  | false =>
    rw [if_neg Bool.false_ne_true, sent_headChecking_inStore, validatorCheck, hv]
    cases hl : s.server.bags.lookup name <;> rfl

lemma item_agrees (dbName id : Text) : sent (itemHead env op s dbName id) = sent (itemGet env op s dbName id) := by
  rw [itemHead, itemGet, readItem, outcome_check, outcome_bind_of_looks (Indexing.looks_getBag _ dbName _)]
  cases hv : op.isValidator env.useAuth with
  | true => rfl
  | false =>
    cases hl : s.server.bags.lookup dbName with
    | none => rfl
    | some chefDbag =>
      simp only [Option.elim_some, outcome_attain, Indexing.getDBItem]
      rw [if_neg Bool.false_ne_true, sent_headChecking_inStore, validatorCheck, hv]
      cases hi : chefDbag.items.lookup id <;> rfl

lemma sent_versionHead (cb : Cookbook) (ver : Text) :
    sent (headChecking ver (doesVersionExist cb) nilPermCheck) = sent (respond (cb.getVersion ver).1) := by
  cases hv : (cb.getVersion ver).1 with
  | ok cbv =>
    have hx : doesVersionExist cb ver = pure (true, none) := by rw [doesVersionExist, hv]
    exact sent_headChecking hx
  | error e =>
    cases e with
    | refused e =>
      have hx : doesVersionExist cb ver = pure (false, some e) := by rw [doesVersionExist, hv]
      exact sent_headChecking hx
    | panic p =>
      have hx : doesVersionExist cb ver = throw p := by rw [doesVersionExist, hv]
      rw [headChecking, hx]
      rfl

lemma version_agrees_iff (baseURL method : Text) (cb : Cookbook) (ver : Text) : sent (respond (cb.getVersion ver).1) =
        sent (respond ((cb.getVersion ver).1.mapError (reportedAs 404) >>= fun cbv => cbv.toJSON baseURL method)) ↔
      ∀ cbv, (cb.getVersion ver).1 = .ok cbv → cbv.Summed := by
  cases hv : (cb.getVersion ver).1 with
  | error e =>
    refine iff_of_true ?_ fun cbv h => by cases h
    cases e with
    | refused e =>
      refine congrArg some ?_
      rw [Uploads.Cookbook.getVersion] at hv
      split at hv
      · rw [Uploads.Cookbook.latestVersion] at hv
        split at hv
        · cases hv
        · split at hv <;> cases hv
      · split at hv <;> cases hv
        rfl
    | panic p => rfl
  | ok cbv =>
    have hg : ((.ok cbv : Except Fault Uploads.CookbookVersion).mapError (reportedAs 404) >>= fun cbv =>
      cbv.toJSON baseURL method) = cbv.toJSON baseURL method := rfl
    rw [hg]
    cases hj : cbv.toJSON baseURL method with
    | ok json =>
      refine iff_of_true rfl fun cbv' h => ?_
      cases h
      exact Uploads.CookbookVersion.summed_of_toJSON hj
    | error e =>
      obtain ⟨rfl, hs⟩ := Uploads.CookbookVersion.toJSON_error hj
      exact iff_of_false (Option.some_ne_none _) fun h => hs (h cbv rfl)

lemma cookbookVersion_agrees_iff (name path : Text) :
    sent (cookbookVersionHead env op s name path) = sent (cookbookVersionGet env op s name path) ↔
      ¬ (Resource.cookbookVersion name path).Slips env op s := by
  rw [cookbookVersionHead, cookbookVersionGet, readVersion, Resource.Slips]
  cases hp : pathVersion path with
  | error e =>
    refine iff_of_true ?_ (by simp)
    cases e <;> rfl
  | ok ver =>
    cases hv : op.isValidator env.useAuth with
    | true => exact iff_of_true rfl (by simp)
    | false =>
      cases hc : s.cookbook env name with
      | none => exact iff_of_true rfl (by simp)
      | some cb =>
        refine (Eq.congr_left (sent_versionHead cb ver)).trans ((version_agrees_iff env.baseURL _ cb ver).trans ?_)
        constructor
        · rintro ha ⟨ver', cb', cbv, hp', -, hc', hvr, hs⟩
          cases hp'
          cases hc'
          exact hs (ha cbv hvr)
        · intro hn cbv hvr
          by_contra hs
          exact hn ⟨ver, cb, cbv, rfl, rfl, rfl, hvr, hs⟩

lemma event_agrees_iff (id : Text) :
    sent (eventHead env op s id) = sent (eventGet env op s id) ↔ ¬ (Resource.event id).Slips env op s := by
  rw [eventHead, eventGet, readEvent, Resource.Slips]
  cases hid : atoi id with
  | error e => exact iff_of_true rfl (by simp)
  | ok n =>
    cases ha : op.isAdmin env.useAuth with
    | false => exact iff_of_false (ne_of_statuses 200 403 rfl rfl (by decide)) (by simp)
    | true =>
      simp only [if_true]
      cases hl : s.logs.lookup n with
      | none =>
        have hx : doesEventExist s id = pure (false, some ⟨noLogInfo n, 400⟩) := by
          rw [doesEventExist, hid, ok_bind, getLogInfo, hl]
        have hg : getLogInfo s n = .error (noLogInfo n) := by rw [getLogInfo, hl]
        refine iff_of_false (ne_of_statuses 400 404 (sent_headChecking hx) ?_ (by decide)) (by simp [hl])
        simp only [ok_bind, Except.mapError, hg]
        rfl
      | some le =>
        have hx : doesEventExist s id = pure (true, none) := by
          rw [doesEventExist, hid, ok_bind, getLogInfo, hl]
        have hg : getLogInfo s n = .ok { le with id := n } := by rw [getLogInfo, hl]
        refine iff_of_true ((sent_headChecking hx).trans ?_) (by simp [hl])
        simp only [ok_bind, Except.mapError, hg]
        rfl

end

/-- The two statuses are the same, except where one of the slips is. -/
theorem head_eq_get_iff (env : Env) (op : Actor) (s : Store) (r : Resource) :
    sent (r.head env op s) = sent (r.get env op s) ↔ ¬ r.Slips env op s := by
  cases r with
  | client name => exact iff_of_true (client_agrees name) not_false
  | user name => exact user_agrees_iff name
  | node name => exact iff_of_true (node_agrees name) not_false
  | role name => exact role_agrees_iff name
  | environment name => exact environment_agrees_iff name
  | bag name => exact iff_of_true (bag_agrees name) not_false
  | item dbName id => exact iff_of_true (item_agrees dbName id) not_false
  | cookbookVersion name path => exact cookbookVersion_agrees_iff name path
  | event id => exact event_agrees_iff id

def quietStore : Store where
  server := { Indexing.webServer with
    environments := (∅ : AList fun _ : Text => ChefEnvironment).insert ChefEnvironment.defaultName
      ChefEnvironment.defaultEnvironment }
  uploads := ⟨Shelf.empty, []⟩
  logs := (∅ : AList fun _ : ℤ => LogInfo).insert 1
    ⟨none, [], "user", 0, "create", "node", "web", [], 1⟩

theorem head_ne_get : sent ((Resource.event "1").head Actors.copyingEnv (.user Actors.annaUser) quietStore) = some 200 ∧
    sent ((Resource.event "1").get Actors.copyingEnv (.user Actors.annaUser) quietStore) = some 403 ∧
    sent ((Resource.event "2").head Actors.copyingEnv (.user { Actors.annaUser with admin := true }) quietStore) =
      some 400 ∧
    sent ((Resource.event "2").get Actors.copyingEnv (.user { Actors.annaUser with admin := true }) quietStore) =
      some 404 ∧
    sent ((Resource.user "bert").head Actors.copyingEnv (.user Actors.annaUser) quietStore) = some 400 ∧
    sent ((Resource.user "bert").get Actors.copyingEnv (.user Actors.annaUser) quietStore) = some 404 ∧
    sent ((Resource.role "app").head Actors.copyingEnv (.client Actors.validatorClient) quietStore) = some 403 ∧
    sent ((Resource.role "app").get Actors.copyingEnv (.client Actors.validatorClient) quietStore) = some 404 ∧
    sent ((Resource.environment "prod").head Actors.copyingEnv (.client Actors.validatorClient) quietStore) =
      some 403 ∧
    sent ((Resource.environment "prod").get Actors.copyingEnv (.client Actors.validatorClient) quietStore) =
      some 404 := by
  decide +kernel

end

end Goiardi.Http
