import Goiardi.Dump.Document

/-! `importAll`: the objects of a document are made anew, one kind after the other, and each goes through the checks that
it would go through in a request. The decoder gives numbers as their literals. -/

namespace Goiardi.Dump

open Validation
open Actors (Client User World Draw Refusal badRequest validateAsString passwordField publicKeyField check)
open DataBags (DataBag validateDBagName)
open Nodes (StatusStore)
open Objects (Node Role ChefEnvironment Sandbox ShoveyRunStream LogInfo checkAttrs castName nameInvalid)
open Push (Shovey ShoveyRun)
open Retention (NodeStatus)
open Uploads (Cookbook Fault refuse demand)

def typeAssertion : Fault := .panic .typeAssertion

def castObj : Json → Except Fault JsonMap
  | .obj m => .ok m
  | _ => .error typeAssertion

def castString : Json → Except Fault Text
  | .str t => .ok t
  | _ => .error typeAssertion

def castBool : Json → Except Fault Bool
  | .bool b => .ok b
  | _ => .error typeAssertion

def castArray : Json → Except Fault (List Json)
  | .arr elems => .ok elems
  | _ => .error typeAssertion

-- a number is a `json.Number` here, never a `float64`
def castFloat64 (_ : Json) : Except Fault ℤ := .error typeAssertion

def castStrings (j : Json) : Except Fault (List Text) := do
  let elems ← castArray j
  elems.mapM castString

def readString : Json → Text
  | .str t => t
  | _ => []

def readBool : Json → Bool
  | .bool b => b
  | _ => false

def readStrings : Json → Except Fault (List Text)
  | .arr elems => elems.mapM castString
  | _ => .ok []

/-- Go's `%T` of a decoded value. -/
def typeName : Json → Text
  | .null => "<nil>"
  | .bool _ => "bool"
  | .num _ => "json.Number"
  | .str _ => "string"
  | .arr _ => "[]interface \x7b\x7d"
  | .obj _ => "map[string]interface \x7b\x7d"

def intify : Json → ℤ
  | .num literal => if (Text.parseInt literal).2 then (Text.parseInt literal).1 else 0
  | _ => 0

def attempt {α : Type} (x : Except Text α) : Except Fault α := x.mapError refuse

def valueAt (data : JsonMap) (k : String) : Json := lookupField data k.toList

structure Setup where
  formats : Formats
  env : Actors.Env
  draw : Text → Draw

section

variable (setup : Setup)

def setPublicKey : Json → Except Refusal Text
  | .str pk =>
    match setup.env.crypto.validatePublicKey pk with
    | none => .ok pk
    | some e => .error ⟨e, 400⟩
  | j => .error ⟨"invalid type " ++ typeName j ++ " for public key", 400⟩

def perform (x : Actors.Handler Unit) (w : World) : Except Fault World :=
  match x w with
  | .ok _ w => .ok w
  | .error e _ => .error (.refused e)

def importClient (w : World) (v : Json) : Except Fault World := do
  let data ← castObj v
  perform (do
    let name ← check (validateAsString (lookupField data nameField))
    let c ← check (Client.newFromJSON (← get) name data)
    let pubKey ← check (setPublicKey setup (lookupField data publicKeyField))
    Client.save setup.env ((← get).clients.fresh { c with pubKey })) w

-- the password in the document is a digest, and goes past the check of its length
def importUser (w : World) (v : Json) : Except Fault World := do
  let data ← castObj v
  let pwhash := readString (lookupField data passwordField)
  let data := setField data passwordField (.str [])
  perform (do
    let name ← check (validateAsString (lookupField data nameField))
    let u ← check (User.newFromJSON setup.env (setup.draw name) (← get) name data)
    let u := if pwhash = [] then u else { u with passwd := pwhash }
    let pubKey ← check (setPublicKey setup (lookupField data publicKeyField))
    User.save setup.env ((← get).users.fresh { u with pubKey })) w

end

section

variable (setup : Setup)

def newFile (t : Table FileStore) (chksum : Text) (data : List UInt8) : Except Fault FileStore := do
  demand (∀ f ∈ t.lookup chksum, data = f.data) (refuse ("File with checksum " ++ chksum ++ " already exists."))
  demand (setup.formats.md5 data = chksum)
    (refuse ("Checksum " ++ setup.formats.md5 data ++ " did not match original " ++ chksum ++ ['!']))
  return ⟨chksum, data⟩

def importFile (t : Table FileStore) (v : Json) : Except Fault (Table FileStore) := do
  let v ← castObj v
  let text ← castString (valueAt v "Data")
  let data ← attempt (setup.formats.readBytes text)
  let chksum ← castString (valueAt v "Chksum")
  let f ← newFile setup t chksum data
  return t.insert f.chksum f

variable (stored : List Text)

def importVersion (c : Cookbook) (p : Text × Json) : Except Fault Cookbook := do
  let data ← castObj p.2
  let data ← attempt (checkAttrs data)
  match c.newVersion setup.env.baseURL stored p.1 data with
  | (.ok _, c) => return c
  | (.error e, _) => throw e

-- a cookbook that is there already is replaced by the new one
def importCookbook (t : Table Cookbook) (v : Json) : Except Fault (Table Cookbook) := do
  let v ← castObj v
  let name ← castString (valueAt v "Name")
  let c ← Cookbook.new name
  let versions ← castObj (valueAt v "Versions")
  let c ← versions.foldlM (importVersion setup stored) c
  return t.insert c.name c

end

def importItem (db : DataBag) (p : Text × Json) : Except Fault DataBag := do
  let item ← castObj p.2
  let rawData ← castObj (valueAt item "raw_data")
  db.newDBItem rawData

def importBag (t : Table DataBag) (v : Json) : Except Fault (Table DataBag) := do
  let v ← castObj v
  let name ← castString (valueAt v "Name")
  demand (validateDBagName name) (.refused nameInvalid)
  demand (t.lookup name).isNone (.refused ⟨"Data bag " ++ name ++ " already exists", 409⟩)
  let items ← castObj (valueAt v "DataBagItems")
  let db ← items.foldlM importItem ⟨name, ∅⟩
  return t.insert db.name db

def serverWith (environments : Table ChefEnvironment) (nodes : Table Node) (roles : Table Role) : Indexing.Server where
  actors := ⟨Shelf.empty, Shelf.empty⟩
  nodes := nodes
  roles := roles
  environments := environments
  bags := ∅
  index := ⟨[]⟩
  pending := []

def makeEnvironment (t : Table ChefEnvironment) (data : JsonMap) : Except Fault (Table ChefEnvironment) := do
  let e ← Indexing.Environment.newFromJSON (serverWith t ∅ ∅) data
  demand (e.name ≠ ChefEnvironment.defaultName) (.refused ChefEnvironment.notModified)
  return t.insert e.name e

def importEnvironment (t : Table ChefEnvironment) (data : JsonMap) : Except Fault (Table ChefEnvironment) := do
  let name ← castName data
  if name ≠ ChefEnvironment.defaultName then makeEnvironment t data else return t

def importNode (t : Table Node) (data : JsonMap) : Except Fault (Table Node) := do
  let n ← (Indexing.Node.newFromJSON (serverWith ∅ t ∅) data).mapError .refused
  return t.insert n.name n

def importRole (t : Table Role) (data : JsonMap) : Except Fault (Table Role) := do
  let r ← Indexing.Role.newFromJSON (serverWith ∅ ∅ t) data
  return t.insert r.name r

/-- The loop over objects with attributes. An object that fails the check of its attributes ends the import, and no error
is returned; the flag says that the loop has gone through. -/
def loadChecked {α : Type} (step : Table α → JsonMap → Except Fault (Table α)) :
    Table α → List Json → Except Fault (Table α × Bool)
  | t, [] => .ok (t, true)
  | t, v :: vs => do
    let data ← castObj v
    match checkAttrs data with
    | .error _ => return (t, false)
    | .ok data => loadChecked step (← step t data) vs

section

variable (formats : Formats)

def readTime (j : Json) : Except Fault ℤ := do
  let t ← castString j
  attempt (formats.readTime t)

def importSandbox (t : Table Sandbox) (v : Json) : Except Fault (Table Sandbox) := do
  let v ← castObj v
  let creationTime ← attempt (formats.readTime (readString (valueAt v "CreationTime")))
  let checksums ← readStrings (valueAt v "Checksums")
  let sb : Sandbox := ⟨readString (valueAt v "Id"), creationTime, readBool (valueAt v "Completed"), checksums⟩
  return t.insert sb.id sb

def importLog (t : AList fun _ : ℤ => LogInfo) (v : Json) : Except Fault (AList fun _ : ℤ => LogInfo) := do
  let v ← castObj v
  let action ← castString (valueAt v "action")
  let actorType ← castString (valueAt v "actor_type")
  let actorInfo ← castString (valueAt v "actor_info")
  let objectType ← castString (valueAt v "object_type")
  let objectName ← castString (valueAt v "object_name")
  let extendedInfo ← castString (valueAt v "extended_info")
  let id ← castFloat64 (valueAt v "id")
  let text ← castString (valueAt v "time")
  match formats.readTime text with
  | .error _ => return t
  | .ok time =>
    return t.insert id
      { actor := none, actorInfo, actorType, time, action, objectType, objectName, extendedInfo, id }

def reformat (v : JsonMap) (k : String) : Except Fault JsonMap :=
  match valueAt v k with
  | .str st => do
    let t ← attempt (formats.readTime st)
    return setField v k.toList (.str (formats.reportTime t))
  | _ => .ok v

def reportNode (v : JsonMap) : Except Fault Text :=
  match v.lookup "node_name".toList, v.lookup "nodeName".toList with
  | some n, _ => castString n
  | none, some n => castString n
  | none, none => .ok []

def isHex (c : Char) : Bool := c.isDigit || ('a' ≤ c && c ≤ 'f') || ('A' ≤ c && c ≤ 'F')

/-- The places of a text that `uuid.Parse` reads as digits. -/
def hexPlaces : List ℕ := [0, 2, 4, 6, 9, 11, 14, 16, 19, 21, 24, 26, 28, 30, 32, 34]

def isPlainUUID (t : Text) : Bool :=
  t.length = 36 && [8, 13, 18, 23].all (fun i => t[i]? = some '-') &&
    hexPlaces.all fun i => (t[i]?.any isHex) && (t[i + 1]?.any isHex)

def isUUID (t : Text) : Bool :=
  isPlainUUID t || ((t.take 9).map Char.toLower = "urn:uuid:" && isPlainUUID (t.drop 9))

def castAction (v : JsonMap) (expected : Text) : Except Fault Unit :=
  match valueAt v "action" with
  | .str action => demand (action = expected) (refuse ("invalid action " ++ action))
  | _ => .error (refuse "invalid action")

def stringOr (message : Text) : Json → Except Fault Text
  | .str t => .ok t
  | _ => .error (refuse message)

def newReport (t : Table Report) (nodeName : Text) (v : JsonMap) : Except Fault Report := do
  let runID ← stringOr "invalid run id" (valueAt v "run_id")
  castAction v "start"
  let stime ← stringOr "invalid start time" (valueAt v "start_time")
  let startTime ← attempt (formats.readReportTime stime)
  demand (t.lookup runID).isNone (.refused ⟨"Report already exists", 409⟩)
  demand (isUUID runID) (refuse "run id was not a valid uuid")
  return { runID, startTime, endTime := 0, totalResCount := 0, status := "started", runList := [],
           resources := [], data := [], nodeName, organizationID := 0, ended := false }

def notConverted (literal function : Text) : Fault :=
  refuse ("Error converting ".toList ++ literal ++ " to int: strconv.".toList ++ function ++ ": parsing \"".toList ++
    literal ++ "\": ".toList ++ if (Text.parseInt literal).1 = 0 then "invalid syntax".toList else "value out of range".toList)

def resCount : Json → Except Fault ℤ
  | .num literal =>
    if (Text.parseInt literal).2 then .ok (Text.parseInt literal).1 else .error (notConverted literal "ParseInt")
  | .str t => if (Text.parseInt t).2 then .ok (Text.parseInt t).1 else .error (notConverted t "Atoi")
  | j => .error (refuse ("invalid total_res_count " ++ typeName j))

def reportStatuses : List Text := ["success", "failure", "started"].map String.toList

def updateReport (r : Report) (v : JsonMap) : Except Fault Report := do
  castAction v "end"
  let etime ← stringOr "invalid end time" (valueAt v "end_time")
  let endTime ← attempt (formats.readReportTime etime)
  let totalResCount ← resCount (valueAt v "total_res_count")
  let status ← stringOr "invalid status" (valueAt v "status")
  demand (status ∈ reportStatuses) (refuse ("invalid status " ++ status))
  let runList ← stringOr "invalid run_list" (valueAt v "run_list")
  match valueAt v "resources", valueAt v "data" with
  | .arr resources, .obj data => return { r with endTime, totalResCount, status, runList, resources, data, ended := true }
  | .arr _, _ => throw (refuse "invalid data")
  | j, _ => throw (refuse ("invalid resources " ++ typeName j))

def importReport (t : Table Report) (v : Json) : Except Fault (Table Report) := do
  let v ← castObj v
  let nodeName ← reportNode v
  let v := setField v "action" (.str "start")
  let v ← reformat formats v "start_time"
  let v ← reformat formats v "end_time"
  let r ← newReport formats t nodeName v
  let r ← updateReport formats r (setField v "action" (.str "end"))
  return t.insert r.runID r

def importStatus (nodes : Table Node) (st : StatusStore NodeStatus) (v : Json) : Except Fault (StatusStore NodeStatus) := do
  let v ← castObj v
  let n ← castObj (valueAt v "Node")
  let status ← castString (valueAt v "Status")
  let updatedAt ← readTime formats (valueAt v "UpdatedAt")
  let name ← castName n
  match nodes.lookup name with
  | none => return st
  | some node => return st.record node.name ⟨node, status, updatedAt⟩

-- a time that cannot be read drops the job, and no error is returned
def importShovey (t : Table Shovey) (v : Json) : Except Fault (Table Shovey) := do
  let v ← castObj v
  let runID ← castString (valueAt v "id")
  let nodeNames ← castStrings (valueAt v "nodes")
  let command ← castString (valueAt v "command")
  let ca ← castString (valueAt v "created_at")
  match formats.readTime ca with
  | .error _ => return t
  | .ok createdAt =>
    let ua ← castString (valueAt v "updated_at")
    match formats.readTime ua with
    | .error _ => return t
    | .ok updatedAt =>
      let status ← castString (valueAt v "status")
      let quorum ← castString (valueAt v "quorum")
      return t.insert runID
        { runID, nodeNames, command, createdAt, updatedAt, status, timeout := intify (valueAt v "timeout"), quorum }

def timeOrZero : Json → Except Fault ℤ
  | .str t => attempt (formats.readTime t)
  | _ => .ok 0

def importRun (t : Table ShoveyRun) (v : Json) : Except Fault (Table ShoveyRun) := do
  let v ← castObj v
  let shoveyUUID ← castString (valueAt v "run_id")
  let nodeName ← castString (valueAt v "node_name")
  let status ← castString (valueAt v "status")
  let ackTime ← timeOrZero formats (valueAt v "ack_time")
  let endTime ← timeOrZero formats (valueAt v "end_time")
  let error ← castString (valueAt v "error")
  return t.insert (shoveyUUID ++ nodeName)
    { shoveyUUID, nodeName, status, ackTime, endTime, error, exitStatus := UInt8.ofInt (intify (valueAt v "exit_status")) }

def ofStream (srs : ShoveyRunStream) : Text :=
  streamKey srs.shoveyUUID srs.nodeName srs.outputType (Text.formatInt srs.seq)

def importStream (t : Table ShoveyRunStream) (v : Json) : Except Fault (Table ShoveyRunStream) := do
  let v ← castObj v
  let shoveyUUID ← castString (valueAt v "ShoveyUUID")
  let nodeName ← castString (valueAt v "NodeName")
  let outputType ← castString (valueAt v "OutputType")
  let output ← castString (valueAt v "Output")
  let isLast ← castBool (valueAt v "IsLast")
  let createdAt ← readTime formats (valueAt v "CreatedAt")
  let srs : ShoveyRunStream := { shoveyUUID, nodeName, seq := intify (valueAt v "Seq"), outputType, output, isLast, createdAt }
  return t.insert (ofStream srs) srs

end

section

variable (setup : Setup) (doc : ExportData)

def ExportData.list (kind : String) : List Json := (doc.data.lookup kind.toList).getD []

def importFirst : Except Fault Server := do
  let actors ← (doc.list "client").foldlM (importClient setup) Server.empty.actors
  let actors ← (doc.list "user").foldlM (importUser setup) actors
  let files ← (doc.list "filestore").foldlM (importFile setup) ∅
  let cookbooks ← (doc.list "cookbook").foldlM (importCookbook setup files.keys) ∅
  let bags ← (doc.list "data_bag").foldlM importBag ∅
  return { Server.empty with actors, files, cookbooks, bags }

def importChecked (s : Server) : Except Fault (Server × Bool) := do
  let (environments, goes) ← loadChecked importEnvironment ∅ (doc.list "environment")
  if !goes then return ({ s with environments }, false)
  let (nodes, goes) ← loadChecked importNode ∅ (doc.list "node")
  if !goes then return ({ s with environments, nodes }, false)
  let (roles, goes) ← loadChecked importRole ∅ (doc.list "role")
  return ({ s with environments, nodes, roles }, goes)

def importRest (s : Server) : Except Fault Server := do
  let sandboxes ← (doc.list "sandbox").foldlM (importSandbox setup.formats) ∅
  let logs ← (doc.list "loginfo").foldlM (importLog setup.formats) ∅
  let reports ← (doc.list "report").foldlM (importReport setup.formats) ∅
  let s := { s with sandboxes, logs, reports }
  if doc.minorVersion ≠ 1 then return s
  let statuses ← (doc.list "node_status").foldlM (importStatus setup.formats s.nodes) s.statuses
  let shoveys ← (doc.list "shovey").foldlM (importShovey setup.formats) ∅
  let runs ← (doc.list "shovey_run").foldlM (importRun setup.formats) ∅
  let streams ← (doc.list "shovey_run_stream").foldlM (importStream setup.formats) ∅
  return { s with statuses, shoveys, runs, streams }

def unsupported : Fault :=
  refuse ("goiardi export data version " ++ Text.formatNat doc.majorVersion ++ '.' ::
    Text.formatNat doc.minorVersion ++ " is not supported by this version of goiardi")

def importAll : Except Fault Server := do
  demand (doc.majorVersion = 1 ∧ (doc.minorVersion = 0 ∨ doc.minorVersion = 1)) (unsupported doc)
  let s ← importFirst setup doc
  let (s, goes) ← importChecked doc s
  if goes then importRest setup doc s else return s

end

end Goiardi.Dump
