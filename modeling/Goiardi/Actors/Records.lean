import Goiardi.Base.Shelf
import Goiardi.Cookbooks.Validation

/-! Clients and users, and what a request body does to one. -/

namespace Goiardi.Actors

open Validation

structure Client where
  name : Text
  nodeName : Text
  jsonClass : Text
  chefType : Text
  validator : Bool
  orgname : Text
  pubKey : Text
  admin : Bool
  certificate : Text
deriving DecidableEq

structure User where
  username : Text
  name : Text
  email : Text
  admin : Bool
  pubKey : Text
  passwd : Text
  salt : List UInt8
deriving DecidableEq

structure Refusal where
  message : Text
  status : ℕ
deriving DecidableEq, Repr

def badRequest (message : String) : Refusal := ⟨message.toList, 400⟩

def forbidden (message : String) : Refusal := ⟨message.toList, 403⟩

def require (p : Prop) [Decidable p] (e : Refusal) : Except Refusal Unit := if p then .ok () else .error e

lemma require_eq_ok_iff {p : Prop} [Decidable p] {e : Refusal} {u : Unit} : require p e = .ok u ↔ p := by
  unfold require
  split <;> simp [*]

def allow : Option Refusal → Except Refusal Unit
  | none => .ok ()
  | some e => .error e

/-- The outside library for keys and passwords: the error of an invalid public key, and the password digest. -/
structure Crypto where
  validatePublicKey : Text → Option Text
  digest : Text → List UInt8 → Text

structure Draw where
  keys : Except Text (Text × Text)
  salt : Except Text (List UInt8)

def validateAsString : Json → Except Refusal Text
  | .str t => .ok t
  | .null => .error (badRequest "Field 'name' missing")
  | _ => .error (badRequest "Field 'name' invalid")

def validateAsBool : Json → Except Refusal Bool
  | .bool b => .ok b
  | _ => .error (badRequest "Invalid bool")

def validateUserName (name : Text) : Bool :=
  name.all fun c => c.isLower || c.isDigit || c = '_' || c = '.' || c = '-'

def adminField : Text := "admin"

def validatorField : Text := "validator"

def passwordField : Text := "password"

def publicKeyField : Text := "public_key"

def privateKeyField : Text := "private_key"

def jsonClassField : Text := "json_class"

def chefTypeField : Text := "chef_type"

def apiClient : Text := "Chef::ApiClient"

def clientType : Text := "client"

def notBoth : Refusal := badRequest "Client can be either an admin or a validator, but not both."

def adminInvalid : Refusal := badRequest "Field 'admin' invalid"

def lastAdminKept : Refusal := forbidden "Cannot remove admin status from the last admin"

/-- The field as `ValidateAsBool` reads it where its error is dropped. -/
def readBool (data : JsonMap) (field : Text) : Bool :=
  match data.lookup field with
  | some (.bool b) => b
  | _ => false

def checkAdminPlusValidator (data : JsonMap) : Option Refusal :=
  if readBool data adminField && readBool data validatorField then some notBoth else none

def checkPermEdit (data : JsonMap) (perm : Text) : Option Refusal :=
  if readBool data perm then some (forbidden "You are not allowed to take this action.") else none

def invalidKey (valid : List Text) (data : JsonMap) : Option Refusal :=
  (data.find? fun p => p.1 ∉ valid).map fun p =>
    ⟨"Invalid key " ++ p.1 ++ " in request body", 400⟩

def nameMismatch (kind name other : Text) : Refusal :=
  ⟨kind ++ " name " ++ name ++ " and " ++ other ++ " from JSON do not match", 400⟩

namespace Client

def validElements : List Text :=
  ["name", "json_class", "chef_type", "validator", "org_name", "orgname", "public_key", "private_key", "admin",
    "certificate", "password", "node_name", "clientname", "create_key"].map String.toList

def checkTag (field expected current : Text) : Json → Except Refusal Text
  | .null => .ok current
  | .str t =>
    if t = expected then .ok t else .error ⟨"Field '" ++ field ++ "' invalid", 400⟩
  | _ => .error (badRequest "Field 'name' missing")

def adminFlag (lastAdmin : Bool) (c : Client) (data : JsonMap) : Except Refusal Bool :=
  match data.lookup adminField with
  | none => .ok false
  | some j =>
    match validateAsBool j with
    | .error _ => .error adminInvalid
    | .ok ab => if c.admin && !ab && lastAdmin then .error lastAdminKept else .ok ab

def validatorFlag (data : JsonMap) : Except Refusal Bool :=
  match data.lookup validatorField with
  | none => .ok false
  | some j => validateAsBool j

def updateFromJSON (lastAdmin : Bool) (c : Client) (data : JsonMap) : Except Refusal Client := do
  let actorName ← validateAsString (lookupField data nameField)
  require (c.name = actorName) (nameMismatch "Client" c.name actorName)
  allow (invalidKey validElements data)
  let jsonClass ← checkTag jsonClassField apiClient c.jsonClass (lookupField data jsonClassField)
  let chefType ← checkTag chefTypeField clientType c.chefType (lookupField data chefTypeField)
  let ab ← c.adminFlag lastAdmin data
  let vb ← validatorFlag data
  require (¬ (ab && vb)) notBoth
  return { c with admin := ab, validator := vb, chefType, jsonClass }

def toJSON (c : Client) : JsonMap :=
  [(nameField, .str c.name), (adminField, .bool c.admin), (publicKeyField, .str c.pubKey),
    (validatorField, .bool c.validator), (jsonClassField, .str c.jsonClass), (chefTypeField, .str c.chefType)]

def new (name : Text) : Client :=
  { name, nodeName := name, chefType := clientType, jsonClass := apiClient, validator := false, orgname := [],
    pubKey := [], admin := false, certificate := [] }

end Client

namespace User

def validElements : List Text :=
  ["username", "name", "org_name", "public_key", "private_key", "admin", "password", "email", "salt", "chef_type",
    "display_name", "json_class", "openid"].map String.toList

def byteLength (t : Text) : ℕ := (t.map Char.utf8Size).sum

def setPasswd (crypto : Crypto) (password : Text) (u : User) : Except Refusal User :=
  if byteLength password < 6 then .error (badRequest "Password must have at least 6 characters")
  else .ok { u with passwd := crypto.digest password u.salt }

def updatePasswd (crypto : Crypto) (u : User) (data : JsonMap) : Except Refusal User :=
  match lookupField data passwordField with
  | .null => .ok u
  | j => do
    let passwd ← validateAsString j
    if passwd = [] then return u else u.setPasswd crypto passwd

def updateFromJSON (crypto : Crypto) (lastAdmin : Bool) (u : User) (data : JsonMap) : User × Option Refusal :=
  match validateAsString (lookupField data nameField) with
  | .error e => (u, some e)
  | .ok userName =>
    if u.username ≠ userName then (u, some (nameMismatch "User" u.username userName))
    else
      match invalidKey validElements data with
      | some e => (u, some e)
      | none =>
        match u.updatePasswd crypto data with
        | .error e => (u, some e)
        | .ok u =>
          match data.lookup adminField with
          | none => (u, none)
          | some j =>
            match validateAsBool j with
            | .error _ => (u, some adminInvalid)
            | .ok ab => if u.admin && !ab && lastAdmin then (u, some lastAdminKept) else ({ u with admin := ab }, none)

def toJSON (u : User) : JsonMap :=
  [(nameField, .str u.name), (adminField, .bool u.admin), (publicKeyField, .str u.pubKey)]

def new (name : Text) (salt : List UInt8) : User :=
  { username := name, name, admin := false, email := [], pubKey := [], passwd := [], salt }

end User

inductive Actor
  | client (c : Client)
  | user (u : User)
deriving DecidableEq

namespace Actor

variable (useAuth : Bool)

def name : Actor → Text
  | client c => c.name
  | user u => u.username

def isAdmin : Actor → Bool
  | client c => !useAuth || c.admin
  | user u => !useAuth || u.admin

def isValidator : Actor → Bool
  | client c => useAuth && (c.chefType = clientType && c.validator)
  | user _ => false

def isSelf : Actor → Actor → Bool
  | client c, client other => !useAuth || c.name = other.name
  | user u, user other => !useAuth || u.username = other.username
  | _, _ => !useAuth

end Actor

section

variable {lastAdmin : Bool} {c c' : Client} {data : JsonMap}

lemma Client.adminFlag_last {ab : Bool} (h : c.adminFlag lastAdmin data = .ok ab) (hc : c.admin = true)
    (hl : lastAdmin = true) (hd : (data.lookup adminField).isSome = true) : ab = true := by
  obtain ⟨j, hj⟩ := Option.isSome_iff_exists.mp hd
  simp only [adminFlag, hj] at h
  cases hb : validateAsBool j with
  | error e => simp [hb] at h
  | ok b =>
    simp only [hb, hc, hl, Bool.true_and, Bool.and_true] at h
    cases b with
    | true => simpa using h.symm
    | false => simp at h

structure Client.Updated (lastAdmin : Bool) (data : JsonMap) (c c' : Client) : Prop where
  name : c'.name = c.name
  named : lookupField data nameField = .str c.name
  admin : c.adminFlag lastAdmin data = .ok c'.admin
  validator : validatorFlag data = .ok c'.validator
  rest : c' = { c with admin := c'.admin, validator := c'.validator, chefType := c'.chefType, jsonClass := c'.jsonClass }

lemma validateAsString_ok {j : Json} {t : Text} (h : validateAsString j = .ok t) : j = .str t := by
  cases j with
  | str s => cases h; rfl
  | _ => cases h

lemma require_ok {p : Prop} [Decidable p] {e : Refusal} (h : require p e = .ok ()) : p := by
  unfold require at h
  split at h
  · assumption
  · cases h

lemma Client.updateFromJSON_ok (h : c.updateFromJSON lastAdmin data = .ok c') : Updated lastAdmin data c c' := by
  obtain ⟨actorName, hnm, h⟩ := bind_eq_ok h
  obtain ⟨_, hs, h⟩ := bind_eq_ok h
  obtain ⟨-, -, h⟩ := bind_eq_ok h
  obtain ⟨jsonClass, -, h⟩ := bind_eq_ok h
  obtain ⟨chefType, -, h⟩ := bind_eq_ok h
  obtain ⟨ab, hab, h⟩ := bind_eq_ok h
  obtain ⟨vb, hvb, h⟩ := bind_eq_ok h
  obtain ⟨-, -, h⟩ := bind_eq_ok h
  cases h
  have hn : c.name = actorName := require_ok hs
  exact ⟨rfl, by rw [hn]; exact validateAsString_ok hnm, hab, hvb, rfl⟩

lemma User.updatePasswd_ok {crypto : Crypto} {u u' : User} (h : u.updatePasswd crypto data = .ok u') :
    ∃ passwd, u' = { u with passwd } := by
  have hs : ∀ p, u.setPasswd crypto p = .ok u' → ∃ passwd, u' = { u with passwd } := by
    intro p hp
    unfold setPasswd at hp
    split at hp
    · cases hp
    · cases hp
      exact ⟨_, rfl⟩
  unfold updatePasswd at h
  split at h
  · cases h
    exact ⟨u.passwd, rfl⟩
  · obtain ⟨passwd, -, h⟩ := bind_eq_ok h
    split at h
    · cases h
      exact ⟨u.passwd, rfl⟩
    · exact hs passwd h

structure User.Updated (lastAdmin : Bool) (data : JsonMap) (u u' : User) : Prop where
  rest : u' = { u with passwd := u'.passwd, admin := u'.admin }
  admin : u'.admin = u.admin ∨ data.lookup adminField = some (.bool u'.admin) ∧
    (u.admin = true → lastAdmin = true → u'.admin = true)

lemma User.Updated.refl (lastAdmin : Bool) (data : JsonMap) (u : User) : Updated lastAdmin data u u := ⟨rfl, .inl rfl⟩

lemma validateAsBool_ok {j : Json} {b : Bool} (h : validateAsBool j = .ok b) : j = .bool b := by
  cases j with
  | bool s => cases h; rfl
  | _ => cases h

lemma User.updateFromJSON_updated (crypto : Crypto) (lastAdmin : Bool) (u : User) (data : JsonMap) :
    Updated lastAdmin data u (u.updateFromJSON crypto lastAdmin data).1 := by
  unfold updateFromJSON
  split
  · exact .refl ..
  split
  · exact .refl ..
  split
  · exact .refl ..
  split
  · exact .refl ..
  next u' hp =>
  obtain ⟨passwd, rfl⟩ := updatePasswd_ok hp
  split
  · exact ⟨rfl, .inl rfl⟩
  next j hj =>
  split
  · exact ⟨rfl, .inl rfl⟩
  next ab hab =>
  split
  · exact ⟨rfl, .inl rfl⟩
  next hls =>
  refine ⟨rfl, .inr ⟨by rw [hj, validateAsBool_ok hab], fun hu hl => ?_⟩⟩
  cases ab with
  | true => rfl
  | false => simp [hu, hl] at hls

end

end Goiardi.Actors
