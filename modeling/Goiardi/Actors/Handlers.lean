import Goiardi.Actors.Records

/-! The request handlers for clients and users over the in-memory store. A handler that refuses a request leaves the
store as it is at that point: nothing is rolled back. -/

namespace Goiardi.Actors

open Validation

structure World where
  clients : Shelf Client
  users : Shelf User

structure Env where
  mode : Mode
  useAuth : Bool
  crypto : Crypto
  baseURL : Text

abbrev Handler := EStateM Refusal World

structure Kind (α : Type) where
  shelf : World → Shelf α
  withShelf : Shelf α → World → World
  admin : α → Bool
  key : α → Text
  withKey : Text → α → α
  shelf_withShelf : ∀ s w, shelf (withShelf s w) = s
  withShelf_withShelf : ∀ s t w, withShelf s (withShelf t w) = withShelf s w
  withShelf_shelf : ∀ w, withShelf (shelf w) w = w

def clientKind : Kind Client where
  shelf := World.clients
  withShelf s w := { w with clients := s }
  admin := Client.admin
  key := Client.pubKey
  withKey pk c := { c with pubKey := pk }
  shelf_withShelf _ _ := rfl
  withShelf_withShelf _ _ _ := rfl
  withShelf_shelf _ := rfl

def userKind : Kind User where
  shelf := World.users
  withShelf s w := { w with users := s }
  admin := User.admin
  key := User.pubKey
  withKey pk u := { u with pubKey := pk }
  shelf_withShelf _ _ := rfl
  withShelf_withShelf _ _ _ := rfl
  withShelf_shelf _ := rfl

def check {α : Type} : Except Refusal α → Handler α
  | .ok a => pure a
  | .error e => throw e

section

variable (crypto : Crypto) (draw : Draw) (data : JsonMap)

/-- The public key in the body of a `PUT`. -/
def bodyKey : Except Refusal (Option Text) :=
  match data.lookup publicKeyField with
  | none | some .null => .ok none
  | some (.str pk) =>
    match crypto.validatePublicKey pk with
    | some e => .error ⟨e, 400⟩
    | none => .ok (some pk)
  | some _ => .error (badRequest "Bad request")

/-- The private and the public key that the body of a `PUT` asks for. -/
def bodyPair : Except Refusal (Option (Text × Text)) :=
  match data.lookup privateKeyField with
  | none | some (.bool false) => .ok none
  | some (.bool true) =>
    match draw.keys with
    | .error e => .error ⟨e, 500⟩
    | .ok pair => .ok (some pair)
  | some _ => .error (badRequest "Bad request")

end

namespace Kind

variable {α : Type} (kind : Kind α) (env : Env)

def isLastAdmin (w : World) (a : α) : Bool := kind.admin a && (kind.shelf w).count kind.admin = 1

def assign (h : Cell α) (a : α) : Handler (Cell α) := do
  modify fun w => kind.withShelf ((kind.shelf w).assign env.mode h a) w
  return ⟨h.id, a⟩

-- the callers drop the error of an invalid key
def setPublicKey (pk : Text) (a : α) : α :=
  if env.crypto.validatePublicKey pk = none then kind.withKey pk a else a

def putPublicKey (data : JsonMap) (h : Cell α) (json : JsonMap) : Handler (Cell α × JsonMap) := do
  match ← check (bodyKey env.crypto data) with
  | none => return (h, json)
  | some pk => do
    let h ← kind.assign env h (kind.setPublicKey env pk h.val)
    return (h, setField json publicKeyField (.str pk))

def putPrivateKey (draw : Draw) (data : JsonMap) (h : Cell α) (json : JsonMap) : Handler (Cell α × JsonMap) := do
  match ← check (bodyPair draw data) with
  | none => return (h, json)
  | some (privPem, pubPem) => do
    let h ← kind.assign env h (kind.setPublicKey env pubPem h.val)
    return (h, setField (setField json privateKeyField (.str privPem)) publicKeyField (.str (kind.key h.val)))

def putKeys (draw : Draw) (data : JsonMap) (h : Cell α) (json : JsonMap) : Handler (Cell α × JsonMap) := do
  let (h, json) ← kind.putPublicKey env data h json
  kind.putPrivateKey env draw data h json

def newKey (draw : Draw) (data : JsonMap) (a : α) : Except Refusal (α × JsonMap) :=
  match data.lookup publicKeyField with
  | none | some .null =>
    match draw.keys with
    | .error e => .error ⟨e, 500⟩
    | .ok (privPem, pubPem) => .ok (kind.setPublicKey env pubPem a, [(privateKeyField, .str privPem)])
  | some (.str pk) =>
    match env.crypto.validatePublicKey pk with
    | some e => .error ⟨e, 400⟩
    | none => .ok (kind.setPublicKey env pk a, [])
  | some _ => .error (badRequest "Bad public key")

end Kind

section

variable (env : Env)

def clientNotFound (name : Text) : Refusal := ⟨"Client " ++ name ++ " not found", 404⟩

def userNotFound (name : Text) : Refusal := ⟨"User " ++ name ++ " not found", 404⟩

def getClient (name : Text) : Handler (Cell Client) := do
  match (← get).clients.get name with
  | some c => return c
  | none => throw (clientNotFound name)

def getUser (name : Text) : Handler (Cell User) := do
  match (← get).users.get name with
  | some u => return u
  | none => throw (userNotFound name)

def userConflict (name : Text) : Refusal :=
  ⟨"a user named " ++ name ++ " was found that would conflict with this client", 409⟩

def clientConflict (name : Text) : Refusal :=
  ⟨"a client named " ++ name ++ " was found that would conflict with this user", 409⟩

def chkInMemUser (w : World) (name : Text) : Except Refusal Unit :=
  require (w.users.get name = none) (userConflict name)

def chkInMemClient (w : World) (name : Text) : Except Refusal Unit :=
  require (w.clients.get name = none) (clientConflict name)

def alreadyExists (kind newName name : Text) : Refusal :=
  ⟨kind ++ " " ++ newName ++ " already exists, cannot rename " ++ name, 409⟩

def lastAdminRenamed : Refusal := forbidden "Cannot rename the last admin"

def lastAdminDeleted : Refusal := forbidden "Cannot delete the last admin"

def invalidClientName (name : Text) : Refusal :=
  ⟨"Invalid client name '" ++ name ++
    "' using regex: 'Malformed client name.  Must be A-Z, a-z, 0-9, _, -, or .'.", 400⟩

def invalidUserName : Refusal := badRequest "Field 'name' invalid"

def Client.renameChecks (w : World) (c : Client) (newName : Text) : Except Refusal Unit := do
  require (validateName newName) (invalidClientName newName)
  require (¬ clientKind.isLastAdmin w c) lastAdminRenamed
  chkInMemUser w newName
  require (w.clients.get newName = none) (alreadyExists "Client" newName c.name)

def Client.rename (h : Cell Client) (newName : Text) : Handler (Cell Client) := do
  check (h.val.renameChecks (← get) newName)
  modify fun w => { w with clients := w.clients.remove h.val.name }
  clientKind.assign env h { h.val with name := newName }

def User.renameChecks (w : World) (u : User) (newName : Text) : Except Refusal Unit := do
  require (validateUserName newName) invalidUserName
  require (¬ userKind.isLastAdmin w u) lastAdminRenamed
  chkInMemClient w newName
  require (w.users.get newName = none) (alreadyExists "User" newName u.username)

-- the source removes the old name from the clients
def User.rename (h : Cell User) (newName : Text) : Handler (Cell User) := do
  check (h.val.renameChecks (← get) newName)
  modify fun w => { w with clients := w.clients.remove h.val.username }
  userKind.assign env h { h.val with username := newName }

def Client.save (h : Cell Client) : Handler Unit := do
  check (chkInMemUser (← get) h.val.name)
  modify fun w => { w with clients := w.clients.put env.mode h.val.name h }

def User.save (h : Cell User) : Handler Unit := do
  check (chkInMemClient (← get) h.val.username)
  modify fun w => { w with users := w.users.put env.mode h.val.username h }

def quietly (x : Handler Unit) : Handler Unit := fun w =>
  match x w with
  | .ok _ w' | .error _ w' => .ok () w'

end

section

variable (env : Env) (op : Actor)

def notAllowed : Refusal := forbidden "You are not allowed to perform that action."

def actionForbidden : Refusal := forbidden "You are not allowed to take this action."

def Client.checkEdit (data : JsonMap) : Except Refusal Unit :=
  if op.isAdmin env.useAuth then .ok ()
  else
    let aerr := checkPermEdit data adminField
    let verr := if op.isValidator env.useAuth then none else checkPermEdit data validatorField
    if aerr.isSome && verr.isSome then .error notBoth else allow (aerr <|> verr)

/-- The checks of `clientHandler` on a `PUT` before a rename, which give the name in the body. -/
def Client.putChecks (c : Client) (data : JsonMap) : Except Refusal Text := do
  allow (checkAdminPlusValidator data)
  require (op.isAdmin env.useAuth || op.isSelf env.useAuth (.client c)) notAllowed
  Client.checkEdit env op data
  validateAsString (lookupField data nameField)

def Client.revise (draw : Draw) (data : JsonMap) (h : Cell Client) (json : JsonMap) : Handler JsonMap := do
  let c ← check (h.val.updateFromJSON (clientKind.isLastAdmin (← get) h.val) data)
  let h ← clientKind.assign env h c
  let (h, json) ← clientKind.putKeys env draw data h json
  quietly (Client.save env h)
  return json

def clientPut (draw : Draw) (clientName : Text) (body : Except Text JsonMap) : Handler JsonMap := do
  let data ← check (body.mapError (⟨·, 400⟩))
  let h ← getClient clientName
  let jsonName ← check (h.val.putChecks env op data)
  let json := h.val.toJSON
  let h ← (if clientName ≠ jsonName then Client.rename env h jsonName else pure h : Handler (Cell Client))
  Client.revise env draw data h json

def clientDelete (clientName : Text) : Handler JsonMap := do
  let h ← getClient clientName
  check (require (op.isAdmin env.useAuth || op.isSelf env.useAuth (.client h.val))
    (forbidden "Deleting that client is forbidden"))
  check (require (¬ clientKind.isLastAdmin (← get) h.val) lastAdminDeleted)
  modify fun w => { w with clients := w.clients.remove h.val.name }
  return h.val.toJSON

def clientGet (clientName : Text) : Handler JsonMap := do
  let h ← getClient clientName
  check (require (op.isAdmin env.useAuth || op.isSelf env.useAuth (.client h.val)) notAllowed)
  return h.val.toJSON

def createEdit (data : JsonMap) : Except Refusal Unit :=
  if op.isAdmin env.useAuth then .ok ()
  else do
    allow (checkPermEdit data adminField)
    allow (checkPermEdit data validatorField)

def newName (data : JsonMap) : Except Refusal Text :=
  match lookupField data nameField with
  | .str (c :: t) => .ok (c :: t)
  | _ => .error (badRequest "Field 'name' missing")

def createChecks (data : JsonMap) : Except Refusal Text := do
  allow (checkAdminPlusValidator data)
  require (op.isAdmin env.useAuth || op.isValidator env.useAuth) actionForbidden
  createEdit env op data
  newName data

def Client.newFromJSON (w : World) (name : Text) (data : JsonMap) : Except Refusal Client := do
  require (w.clients.get name = none) ⟨"Client already exists", 409⟩
  require (validateName name) (invalidClientName name)
  (Client.new name).updateFromJSON (clientKind.isLastAdmin w (Client.new name)) data

def uriField : Text := "uri"

def objURL (urlType name : Text) : Text := env.baseURL ++ '/' :: urlType ++ '/' :: name

def clientCreate (draw : Draw) (body : Except Text JsonMap) : Handler JsonMap := do
  let data ← check (body.mapError (⟨·, 400⟩))
  let name ← check (createChecks env op data)
  let c ← check (Client.newFromJSON (← get) name data)
  let (c, json) ← check (clientKind.newKey env draw data c)
  Client.save env ((← get).clients.fresh c)
  return setField (setField json publicKeyField (.str c.pubKey)) uriField
    (.str (objURL env (c.chefType ++ ['s']) c.name))

def listOf {α : Type} (urlType : Text) (s : Shelf α) : JsonMap :=
  s.cells.keys.map fun k => (k, .str (env.baseURL ++ '/' :: urlType ++ '/' :: k))

def clientList : Handler JsonMap := do return listOf env "clients" (← get).clients

end

section

variable (env : Env) (op : Actor)

def User.checkEdit (data : JsonMap) : Except Refusal Unit :=
  if op.isAdmin env.useAuth then .ok () else allow (checkPermEdit data adminField)

def User.putChecks (u : User) (data : JsonMap) : Except Refusal Text := do
  allow (checkAdminPlusValidator data)
  require (op.isAdmin env.useAuth || op.isSelf env.useAuth (.user u)) notAllowed
  User.checkEdit env op data
  validateAsString (lookupField data nameField)

def User.revise (draw : Draw) (data : JsonMap) (h : Cell User) (json : JsonMap) : Handler JsonMap := do
  let (u, e) := h.val.updateFromJSON env.crypto (userKind.isLastAdmin (← get) h.val) data
  let h ← userKind.assign env h u
  check (allow e)
  let (h, json) ← userKind.putKeys env draw data h json
  User.save env h
  return json

def userPut (draw : Draw) (userName : Text) (body : Except Text JsonMap) : Handler JsonMap := do
  let data ← check (body.mapError (⟨·, 400⟩))
  let h ← getUser userName
  let jsonName ← check (h.val.putChecks env op data)
  let json := h.val.toJSON.filter fun p => p.1 ≠ publicKeyField
  let h ← (if userName ≠ jsonName then User.rename env h jsonName else pure h : Handler (Cell User))
  User.revise env draw data h json

def userDelete (userName : Text) : Handler JsonMap := do
  let h ← getUser userName
  check (require (op.isAdmin env.useAuth || op.isSelf env.useAuth (.user h.val))
    (forbidden "Deleting that user is forbidden"))
  check (require (¬ userKind.isLastAdmin (← get) h.val) lastAdminDeleted)
  modify fun w => { w with users := w.users.remove h.val.username }
  return h.val.toJSON

def userGet (userName : Text) : Handler JsonMap := do
  let h ← getUser userName
  check (require (op.isAdmin env.useAuth || op.isSelf env.useAuth (.user h.val)) notAllowed)
  return h.val.toJSON

def User.newFromJSON (draw : Draw) (w : World) (name : Text) (data : JsonMap) : Except Refusal User := do
  require (w.users.get name = none) ⟨"User '" ++ name ++ "' already exists", 409⟩
  require (validateUserName name) invalidUserName
  let salt ← draw.salt.mapError (⟨·, 400⟩)
  require ((data.lookup passwordField).isSome) (badRequest "Field 'password' missing")
  match (User.new name salt).updateFromJSON env.crypto (userKind.isLastAdmin w (User.new name salt)) data with
  | (u, none) => return u
  | (_, some e) => throw e

def userCreate (draw : Draw) (body : Except Text JsonMap) : Handler JsonMap := do
  let data ← check (body.mapError (⟨·, 400⟩))
  let name ← check (createChecks env op data)
  let u ← check (User.newFromJSON env draw (← get) name data)
  let (u, json) ← check (userKind.newKey env draw data u)
  quietly (User.save env ((← get).users.fresh u))
  return setField (setField json publicKeyField (.str u.pubKey)) uriField (.str (objURL env "users" u.username))

def userList : Handler JsonMap := do return listOf env "users" (← get).users

end

inductive Operation
  | listClients
  | createClient (body : Except Text JsonMap)
  | getClient (name : Text)
  | putClient (name : Text) (body : Except Text JsonMap)
  | deleteClient (name : Text)
  | listUsers
  | createUser (body : Except Text JsonMap)
  | getUser (name : Text)
  | putUser (name : Text) (body : Except Text JsonMap)
  | deleteUser (name : Text)

structure Request where
  user : Text
  operation : Operation
  draw : Draw

variable (env : Env)

def noSuchActor (name : Text) : Refusal :=
  ⟨"Neither a client nor a user named '" ++ name ++
    "' could be found. In addition, the following errors were reported: " ++ (clientNotFound name).message ++
    " -- " ++ (userNotFound name).message, 401⟩

def World.actor (w : World) (name : Text) : Option Actor :=
  match w.clients.find name with
  | some c => some (.client c)
  | none => (w.users.find name).map .user

def getReqUser (name : Text) : Handler Actor := do
  let name := if env.useAuth then name else adminField
  match (← get).actor name with
  | some a => return a
  | none => throw (noSuchActor name)

def handle (op : Actor) (draw : Draw) : Operation → Handler JsonMap
  | .listClients => clientList env
  | .createClient body => clientCreate env op draw body
  | .getClient name => clientGet env op name
  | .putClient name body => clientPut env op draw name body
  | .deleteClient name => clientDelete env op name
  | .listUsers => userList env
  | .createUser body => userCreate env op draw body
  | .getUser name => userGet env op name
  | .putUser name body => userPut env op draw name body
  | .deleteUser name => userDelete env op name

def serve (r : Request) : Handler JsonMap := do
  let op ← getReqUser env r.user
  handle env op r.draw r.operation

def World.after {α : Type} (w : World) (x : Handler α) : World :=
  match x w with
  | .ok _ w' | .error _ w' => w'

def World.serveAll (w : World) (rs : List Request) : World := rs.foldl (fun w r => w.after (serve env r)) w

end Goiardi.Actors
