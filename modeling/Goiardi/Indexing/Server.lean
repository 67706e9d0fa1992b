import Goiardi.Actors.Changes
import Goiardi.DataBags.Items
import Goiardi.Indexing.FileIndex
import Goiardi.Objects.Records

/-! The request handlers for nodes, roles, environments, clients, data bags and their items over the in-memory store,
with the work they give to the indexer. -/

namespace Goiardi.Indexing

open Validation
open Search (FileIndex IdxDoc)
open Actors (Client Refusal require allow Draw World Actor badRequest forbidden validateAsString)
open DataBags (DataBag DataBagItem validateDBagName rawDataBagJSON itemId idField)
open Objects (Node Role ChefEnvironment checkAttrs castName nameInvalid)
open Uploads (Fault)

inductive Object
  | node (n : Node)
  | role (r : Role)
  | client (c : Client)
  | environment (e : ChefEnvironment)
  | item (i : DataBagItem)

/-- `strings.Replace(t, sub, "", 1)` -/
def removeFirst (sub : Text) : Text → Text
  | [] => []
  | c :: t => if sub.isPrefixOf (c :: t) then (c :: t).drop sub.length else c :: removeFirst sub t

def itemDocID (i : DataBagItem) : Text :=
  match lookupField i.rawData idField with
  | .str did => did
  | _ => removeFirst i.dataBagName i.name

namespace Object

def index : Object → Text
  | node _ => "node"
  | role _ => "role"
  | client _ => "client"
  | environment _ => "environment"
  | item i => i.dataBagName

def docID : Object → Text
  | node n => n.name
  | role r => r.name
  | client c => c.name
  | environment e => e.name
  | item i => itemDocID i

end Object

structure Settings where
  actors : Actors.Env
  flatten : Object → List Text
  build : List Text → Option IdxDoc

structure Server where
  actors : World
  nodes : AList fun _ : Text => Node
  roles : AList fun _ : Text => Role
  environments : AList fun _ : Text => ChefEnvironment
  bags : AList fun _ : Text => DataBag
  index : FileIndex
  pending : List Indexable

abbrev Handler := EStateM Fault Server

section

variable (env : Settings)

def onActors {α : Type} (x : Actors.Handler α) : Handler α := fun s =>
  match x s.actors with
  | .ok a w => .ok a { s with actors := w }
  | .error e w => .error (.refused e) { s with actors := w }

def check {α : Type} : Except Refusal α → Handler α
  | .ok a => pure a
  | .error e => throw (.refused e)

def attain {α : Type} : Except Fault α → Handler α
  | .ok a => pure a
  | .error e => throw e

def Settings.indexable (o : Object) : Indexable := ⟨o.index, o.docID, env.flatten o⟩

def indexObj (o : Object) : Handler Unit := modify fun s => { s with pending := s.pending ++ [env.indexable o] }

def deleteItemFromCollection (idx doc : Text) : Handler Unit :=
  modify fun s => { s with index := attempt s.index (deleteItem s.index idx doc) }

/-- The outcome of the decoder. The body `null` gives a nil map, which can be read as an empty one. -/
abbrev Body := Except Text (Option JsonMap)

def parseObjJSON (body : Body) : Except Refusal (Option JsonMap) :=
  (do
    match ← body with
    | none => return none
    | some data => return some (← checkAttrs data) : Except Text (Option JsonMap)).mapError (⟨·, 400⟩)

def readBody (body : Body) : Except Refusal JsonMap := (parseObjJSON body).map (·.getD [])

def notAllowed : Refusal := forbidden "You are not allowed to perform this action"

def actionForbidden : Refusal := forbidden "You are not allowed to take this action."

/-- The body of a `PUT` with the name of the object where it has none. A nil map cannot be written to. -/
def withName (name : Text) : Option JsonMap → Except Fault JsonMap
  | none => .error (.panic .nilMap)
  | some data => .ok (if (data.lookup nameField).isNone then setField data nameField (.str name) else data)

section

def saveNode (n : Node) : Handler Unit := do
  modify fun s => { s with nodes := s.nodes.insert n.name n }
  indexObj env (.node n)

def deleteNode (n : Node) : Handler Unit := do
  modify fun s => { s with nodes := s.nodes.erase n.name }
  deleteItemFromCollection "node" n.name

def nodeNotFound (name : Text) : Refusal := ⟨"node '" ++ name ++ "' not found", 404⟩

def getNode (name : Text) : Handler Node := do
  match (← get).nodes.lookup name with
  | some n => return n
  | none => throw (.refused (nodeNotFound name))

def ownNode (nodeName : Text) : Actor → Bool
  | .client c => c.nodeName = nodeName
  | .user _ => false

variable (op : Actor)

def Node.newFromJSON (s : Server) (data : JsonMap) : Except Refusal Node := do
  let name ← validateAsString (lookupField data nameField)
  require (validateDBagName name) nameInvalid
  require ((s.nodes.lookup name).isNone) ⟨"Node " ++ name ++ " already exists", 409⟩
  (Objects.Node.new name).updateFromJSON data

def nodeCreate (body : Body) : Handler Node := do
  check (require (¬ op.isValidator env.actors.useAuth) actionForbidden)
  let data ← check (readBody body)
  let name ← check (validateAsString (lookupField data nameField))
  check (require (((← get).nodes.lookup name).isNone) ⟨"Node already exists", 409⟩)
  let n ← check (Node.newFromJSON (← get) data)
  saveNode env n
  return n

/-- The body of a `PUT` with the name that it leaves out or leaves empty. -/
def nodeData (nodeName : Text) (data : JsonMap) : Except Refusal JsonMap := do
  let jsonName ← validateAsString (lookupField data nameField)
  require (nodeName = jsonName ∨ jsonName = []) (badRequest "Node name mismatch.")
  return if jsonName = [] then setField data nameField (.str nodeName) else data

def nodePut (nodeName : Text) (body : Body) : Handler Node := do
  check (require (op.isAdmin env.actors.useAuth ∨ ownNode nodeName op) notAllowed)
  let data ← check (parseObjJSON body)
  let n ← getNode nodeName
  let data ← attain (withName nodeName data)
  let data ← check (nodeData nodeName data)
  let n ← check (n.updateFromJSON data)
  saveNode env n
  return n

def nodeDelete (nodeName : Text) : Handler Node := do
  check (require (¬ op.isValidator env.actors.useAuth ∧ (op.isAdmin env.actors.useAuth ∨ ownNode nodeName op)) notAllowed)
  let n ← getNode nodeName
  deleteNode n
  return n

end

section

def saveRole (r : Role) : Handler Unit := do
  modify fun s => { s with roles := s.roles.insert r.name r }
  indexObj env (.role r)

def deleteRole (r : Role) : Handler Unit := do
  modify fun s => { s with roles := s.roles.erase r.name }
  deleteItemFromCollection "role" r.name

def getRole (name : Text) : Handler Role := do
  match (← get).roles.lookup name with
  | some r => return r
  | none => throw (.refused ⟨"Cannot load role " ++ name, 404⟩)

variable (op : Actor)

def Role.newFromJSON (s : Server) (data : JsonMap) : Except Fault Role := do
  let name ← castName data
  (show Except Refusal Role from do
    require ((s.roles.lookup name).isNone) ⟨"Role " ++ name ++ " already exists", 409⟩
    require (validateDBagName name) nameInvalid
    (Objects.Role.new name).updateFromJSON data).mapError .refused

def roleCreate (body : Body) : Handler Role := do
  check (require (op.isAdmin env.actors.useAuth) actionForbidden)
  let data ← check (readBody body)
  let name ← check ((validateAsString (lookupField data nameField)).mapError fun _ => badRequest "Role name missing")
  check (require (((← get).roles.lookup name).isNone) ⟨"Role already exists", 409⟩)
  let r ← attain (Role.newFromJSON (← get) data)
  saveRole env r
  return r

def checkRoleName (roleName : Text) (data : JsonMap) : Except Refusal Unit := do
  let jsonName ← validateAsString (lookupField data nameField)
  require (roleName = jsonName) (badRequest "Role name mismatch")

def rolePut (roleName : Text) (body : Body) : Handler Role := do
  let r ← getRole roleName
  check (require (op.isAdmin env.actors.useAuth) notAllowed)
  let data ← check (parseObjJSON body)
  let data ← attain (withName roleName data)
  check (checkRoleName roleName data)
  let r ← check (r.updateFromJSON data)
  saveRole env r
  return r

def roleDelete (roleName : Text) : Handler Role := do
  let r ← getRole roleName
  check (require (¬ op.isValidator env.actors.useAuth ∧ op.isAdmin env.actors.useAuth) notAllowed)
  deleteRole r
  return r

end

section

def saveEnvironment (e : ChefEnvironment) : Handler Unit := do
  check (require (e.name ≠ ChefEnvironment.defaultName) ChefEnvironment.notModified)
  modify fun s => { s with environments := s.environments.insert e.name e }
  indexObj env (.environment e)

def deleteEnvironment (e : ChefEnvironment) : Handler Unit := do
  check (require (e.name ≠ ChefEnvironment.defaultName) ChefEnvironment.notModified)
  modify fun s => { s with environments := s.environments.erase e.name }
  deleteItemFromCollection "environment" e.name

def findEnvironment (s : Server) (name : Text) : Option ChefEnvironment :=
  if name = ChefEnvironment.defaultName then some ChefEnvironment.defaultEnvironment else s.environments.lookup name

def getEnvironment (name : Text) : Handler ChefEnvironment := do
  match findEnvironment (← get) name with
  | some e => return e
  | none => throw (.refused ⟨"Cannot load environment " ++ name, 404⟩)

variable (op : Actor)

def environmentExists (status : ℕ) : Refusal := ⟨"Environment already exists", status⟩

def Environment.newFromJSON (s : Server) (data : JsonMap) : Except Fault ChefEnvironment := do
  let name ← castName data
  (show Except Refusal Unit from do
    require (Objects.validateEnvName name) nameInvalid
    require ((s.environments.lookup name).isNone ∧ name ≠ ChefEnvironment.defaultName)
      (environmentExists 400)).mapError .refused
  (ChefEnvironment.new name).updateFromJSON data

def nameMissing : Refusal := badRequest "Environment name missing"

def environmentName (data : JsonMap) : Except Refusal Text :=
  match lookupField data nameField with
  | .str (c :: t) => .ok (c :: t)
  | _ => .error nameMissing

def environmentCreate (body : Body) : Handler ChefEnvironment := do
  check (require (op.isAdmin env.actors.useAuth) notAllowed)
  let data ← check (readBody body)
  let name ← check (environmentName data)
  check (require ((findEnvironment (← get) name).isNone) (environmentExists 409))
  let e ← attain (Environment.newFromJSON (← get) data)
  saveEnvironment env e
  return e

def environmentData : Option JsonMap → Except Refusal JsonMap
  | none => .error (badRequest "No environment data in body at all!")
  | some data => .ok data

def putName (data : JsonMap) : Except Refusal Text := do
  require ((data.lookup nameField).isSome) nameMissing
  let jsonName ← validateAsString (lookupField data nameField)
  require (jsonName ≠ []) nameMissing
  return jsonName

def quietly (x : Handler Unit) : Handler Unit := fun s =>
  match x s with
  | .ok _ s' | .error _ s' => .ok () s'

def renameEnvironment (envName jsonName : Text) (data : JsonMap) : Handler ChefEnvironment := do
  check (require ((findEnvironment (← get) jsonName).isNone) (environmentExists 409))
  let e ← attain (Environment.newFromJSON (← get) data)
  match findEnvironment (← get) envName with
  | some old => quietly (deleteEnvironment old)
  | none => pure ()
  return e

def environmentPut (envName : Text) (body : Body) : Handler ChefEnvironment := do
  let e ← getEnvironment envName
  check (require (op.isAdmin env.actors.useAuth) notAllowed)
  let data ← check (parseObjJSON body)
  let data ← check (environmentData data)
  let jsonName ← check (putName data)
  let e ← (if envName ≠ jsonName then renameEnvironment envName jsonName data else attain (e.updateFromJSON data) :
    Handler ChefEnvironment)
  saveEnvironment env e
  return e

def environmentDelete (envName : Text) : Handler ChefEnvironment := do
  let e ← getEnvironment envName
  check (require (op.isAdmin env.actors.useAuth) notAllowed)
  check (require (envName ≠ ChefEnvironment.defaultName) ChefEnvironment.notModified)
  deleteEnvironment e
  return e

end

section

def saveBag (db : DataBag) : Handler Unit := modify fun s => { s with bags := s.bags.insert db.name db }

def newDataBag (name : Text) : Handler DataBag := do
  check (require (validateDBagName name) nameInvalid)
  check (require (((← get).bags.lookup name).isNone) ⟨"Data bag " ++ name ++ " already exists", 409⟩)
  modify fun s => { s with index := createCollection s.index name }
  return ⟨name, ∅⟩

def getBag (name : Text) (missing : Fault) : Handler DataBag := do
  match (← get).bags.lookup name with
  | some db => return db
  | none => throw missing

def newDBItem (db : DataBag) (data : JsonMap) : Handler DataBagItem := do
  let db' ← attain (db.newDBItem data)
  let id ← attain (itemId data)
  saveBag db'
  indexObj env (.item (db.newItem id data))
  return db.newItem id data

def getDBItem (db : DataBag) (id : Text) : Except Fault DataBagItem :=
  match db.items.lookup id with
  | some item => .ok item
  | none => .error (.refused ⟨"data bag item " ++ id ++ " in " ++ db.name ++ " not found", 500⟩)

def updateDBItem (db : DataBag) (id : Text) (data : JsonMap) : Handler DataBagItem := do
  let item ← attain (getDBItem db id)
  let item := { item with rawData := data }
  saveBag { db with items := db.items.insert id item }
  indexObj env (.item item)
  return item

def deleteDBItem (db : DataBag) (id : Text) : Handler DataBag := do
  let db := db.deleteDBItem id
  saveBag db
  deleteItemFromCollection db.name id
  return db

def deleteDBItems (db : DataBag) : List Text → Handler Unit
  | [] => pure ()
  | id :: ids => do
    let db ← deleteDBItem db id
    deleteDBItems db ids

def deleteBag (db : DataBag) : Handler Unit := do
  deleteDBItems db db.items.keys
  modify fun s => { s with bags := s.bags.erase db.name }
  modify fun s => { s with index := attempt s.index (deleteCollection s.index db.name) }

variable (op : Actor)

def bagName (data : JsonMap) : Except Refusal Text :=
  match lookupField data nameField with
  | .str (c :: t) => .ok (c :: t)
  | _ => .error (badRequest "Field 'name' missing")

def bagCreate (body : Body) : Handler DataBag := do
  check (require (op.isAdmin env.actors.useAuth) notAllowed)
  let data ← check (readBody body)
  let name ← check (bagName data)
  check (require (((← get).bags.lookup name).isNone) ⟨"Data bag " ++ name ++ " already exists.", 409⟩)
  let db ← newDataBag name
  saveBag db
  return db

def mayChange : Except Refusal Unit :=
  require (¬ op.isValidator env.actors.useAuth ∧ op.isAdmin env.actors.useAuth) notAllowed

def bagDelete (name : Text) : Handler DataBag := do
  check (mayChange env op)
  let db ← getBag name (.refused ⟨"Cannot load data bag " ++ name, 404⟩)
  deleteBag db
  return db

open DataBags.ItemRequest (cannotLoad checkId)

def itemCreate (bag : Text) (body : JsonMap) : Handler DataBagItem := do
  check (mayChange env op)
  let db ← getBag bag (DataBags.ItemRequest.noBag bag (.post body))
  let data ← attain (rawDataBagJSON body)
  newDBItem env db data

def itemPut (bag id : Text) (body : JsonMap) : Handler DataBagItem := do
  check (mayChange env op)
  let db ← getBag bag (DataBags.ItemRequest.noBag bag (.put id body))
  attain (Uploads.demand (db.items.lookup id).isSome
    (cannotLoad ("Cannot load data bag item " ++ id ++ " for data bag " ++ db.name)))
  let data ← attain (rawDataBagJSON body)
  attain (checkId id data)
  updateDBItem env db id data

def itemDelete (bag id : Text) : Handler DataBag := do
  check (mayChange env op)
  let db ← getBag bag (DataBags.ItemRequest.noBag bag (.delete id))
  attain (Uploads.demand (db.items.lookup id).isSome
    (cannotLoad ("Cannot load data bag " ++ db.name ++ " item " ++ id)))
  deleteDBItem db id

end

section

def saveClient (h : Cell Client) : Handler Unit := do
  onActors (Actors.Client.save env.actors h)
  indexObj env (.client h.val)

variable (op : Actor)

open Actors (getClient clientKind createChecks lastAdminDeleted)

def clientCreate (draw : Draw) (body : Body) : Handler Client := do
  let data ← check (readBody body)
  let name ← check (createChecks env.actors op data)
  let c ← check (Actors.Client.newFromJSON (← get).actors name data)
  let (c, _) ← check (clientKind.newKey env.actors draw data c)
  saveClient env ((← get).actors.clients.fresh c)
  return c

def clientPut (draw : Draw) (clientName : Text) (body : Body) : Handler Client := do
  let data ← check (readBody body)
  let h ← onActors (getClient clientName)
  let jsonName ← check (h.val.putChecks env.actors op data)
  let h ← (if clientName ≠ jsonName then onActors (Actors.Client.rename env.actors h jsonName) else pure h :
    Handler (Cell Client))
  let c ← check (h.val.updateFromJSON (clientKind.isLastAdmin (← get).actors h.val) data)
  let h ← onActors (clientKind.assign env.actors h c)
  let (h, _) ← onActors (clientKind.putKeys env.actors draw data h [])
  quietly (saveClient env h)
  return h.val

def clientDelete (clientName : Text) : Handler Client := do
  let h ← onActors (getClient clientName)
  check (require (op.isAdmin env.actors.useAuth || op.isSelf env.actors.useAuth (.client h.val))
    (forbidden "Deleting that client is forbidden"))
  check (require (¬ clientKind.isLastAdmin (← get).actors h.val) lastAdminDeleted)
  modify fun s => { s with actors := s.actors.withoutClient h.val.name }
  deleteItemFromCollection "client" h.val.name
  return h.val

end

end

section

variable (s : Server) (name : Text)

lemma looks_getNode : Looks (getNode name) s (s.nodes.lookup name) (.refused (nodeNotFound name)) := by
  refine (run_bind_ok (x := get) rfl).trans ?_
  cases s.nodes.lookup name <;> rfl

lemma looks_getRole : Looks (getRole name) s (s.roles.lookup name) (.refused ⟨"Cannot load role " ++ name, 404⟩) := by
  refine (run_bind_ok (x := get) rfl).trans ?_
  cases s.roles.lookup name <;> rfl

lemma looks_getEnvironment : Looks (getEnvironment name) s (findEnvironment s name)
      (.refused ⟨"Cannot load environment " ++ name, 404⟩) := by
  refine (run_bind_ok (x := get) rfl).trans ?_
  cases findEnvironment s name <;> rfl

lemma looks_getBag (missing : Fault) : Looks (getBag name missing) s (s.bags.lookup name) missing := by
  refine (run_bind_ok (x := get) rfl).trans ?_
  cases s.bags.lookup name <;> rfl

end

end Goiardi.Indexing
