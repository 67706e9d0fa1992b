import Goiardi.Indexing.Server
import Goiardi.Objects.Kinds

/-! The document that `exportAll` writes: a list of JSON objects for each kind of object in the store. -/

namespace Goiardi.Dump

open Validation
open Actors (Client User World)
open DataBags (DataBag DataBagItem)
open Nodes (StatusStore StatusFault)
open Objects (Node Role ChefEnvironment Sandbox ShoveyRunStream LogInfo)
open Push (Shovey ShoveyRun)
open Retention (NodeStatus)
open Uploads (Cookbook CookbookVersion Division)

def second : ℤ := 10 ^ 9

/-- The texts of the outside library: a time as the encoder writes it, a time in a report, which has no part of a second,
bytes, and the sum of a file. -/
structure Formats where
  time : ℤ → Text
  readTime : Text → Except Text ℤ
  readTime_time : ∀ t, readTime (time t) = .ok t
  reportTime : ℤ → Text
  readReportTime : Text → Except Text ℤ
  readReportTime_reportTime : ∀ t, readReportTime (reportTime t) = .ok (t - t % second)
  bytes : List UInt8 → Text
  readBytes : Text → Except Text (List UInt8)
  readBytes_bytes : ∀ b, readBytes (bytes b) = .ok b
  md5 : List UInt8 → Text

structure FileStore where
  chksum : Text
  data : List UInt8

structure Report extends Retention.Report where
  /-- The data is a map. It is nil until the end of the run is reported. -/
  ended : Bool

structure Server where
  actors : World
  files : Table FileStore
  cookbooks : Table Cookbook
  bags : Table DataBag
  environments : Table ChefEnvironment
  nodes : Table Node
  roles : Table Role
  sandboxes : Table Sandbox
  logs : AList fun _ : ℤ => LogInfo
  reports : Table Report
  statuses : StatusStore NodeStatus
  shoveys : Table Shovey
  runs : Table ShoveyRun
  streams : Table ShoveyRunStream

namespace Server

def empty : Server where
  actors := ⟨Shelf.empty, Shelf.empty⟩
  files := ∅
  cookbooks := ∅
  bags := ∅
  environments := ∅
  nodes := ∅
  roles := ∅
  sandboxes := ∅
  logs := ∅
  reports := ∅
  statuses := ⟨none, none⟩
  shoveys := ∅
  runs := ∅
  streams := ∅

def findEnvironment (s : Server) (name : Text) : Option ChefEnvironment :=
  if name = ChefEnvironment.defaultName then some ChefEnvironment.defaultEnvironment else s.environments.lookup name

end Server

section

def field (k : String) (j : Json) : Text × Json := (k.toList, j)

def string (k : String) (t : Text) : Text × Json := field k (.str t)

def number (k : String) (n : ℤ) : Text × Json := field k (.num (Text.formatInt n))

def strings (ts : List Text) : Json := .arr (ts.map .str)

def clientJSON (c : Client) : JsonMap :=
  [string "name" c.name, string "node_name" c.nodeName, string "json_class" c.jsonClass, string "chef_type" c.chefType,
    field "validator" (.bool c.validator), string "orgname" c.orgname, string "public_key" c.pubKey,
    field "admin" (.bool c.admin), string "certificate" c.certificate]

def versionJSON (v : CookbookVersion) : JsonMap :=
  [string "cookbook_name" v.cookbookName, string "name" v.name, string "version" v.version,
    string "chef_type" v.chefType, string "json_class" v.jsonClass] ++
  Division.all.map (fun d => (d.field, .arr ((v.divisions d).map .obj))) ++
  [field "frozen?" (.bool v.isFrozen), field "metadata" (.obj v.metadata)]

def cookbookJSON (c : Cookbook) : JsonMap :=
  [string "Name" c.name, field "Versions" (.obj ((Table.list c.versions).map fun e => (e.1, .obj (versionJSON e.2))))]

def itemJSON (i : DataBagItem) : JsonMap :=
  [string "name" i.name, string "chef_type" i.chefType, string "json_class" i.jsonClass,
    string "data_bag" i.dataBagName, field "raw_data" (.obj i.rawData)]

def bagJSON (db : DataBag) : JsonMap :=
  [string "Name" db.name, field "DataBagItems" (.obj ((Table.list db.items).map fun e => (e.1, .obj (itemJSON e.2))))]

def environmentJSON (e : ChefEnvironment) : JsonMap :=
  [string "name" e.name, string "chef_type" e.chefType, string "json_class" e.jsonClass,
    string "description" e.description, field "default_attributes" (.obj e.default),
    field "override_attributes" (.obj e.override),
    field "cookbook_versions" (.obj (e.cookbookVersions.map fun p => (p.1, .str p.2)))]

def nodeJSON (n : Node) : JsonMap :=
  [string "name" n.name, string "chef_environment" n.chefEnvironment, field "run_list" (strings n.runList),
    string "json_class" n.jsonClass, string "chef_type" n.chefType, field "automatic" (.obj n.automatic),
    field "normal" (.obj n.normal), field "default" (.obj n.default), field "override" (.obj n.override)]

def roleJSON (r : Role) : JsonMap :=
  [string "name" r.name, string "chef_type" r.chefType, string "json_class" r.jsonClass,
    field "run_list" (strings r.runList),
    field "env_run_lists" (.obj (r.envRunLists.map fun p => (p.1, strings p.2))),
    string "description" r.description, field "default_attributes" (.obj r.default),
    field "override_attributes" (.obj r.override)]

variable (formats : Formats)

def time (k : String) (t : ℤ) : Text × Json := string k (formats.time t)

def userJSON (u : User) : JsonMap :=
  [string "username" u.username, string "name" u.name, string "email" u.email, field "admin" (.bool u.admin),
    string "public_key" u.pubKey, string "password" u.passwd, string "salt" (formats.bytes u.salt)]

def fileJSON (f : FileStore) : JsonMap := [string "Chksum" f.chksum, string "Data" (formats.bytes f.data)]

def sandboxJSON (sb : Sandbox) : JsonMap :=
  [string "ID" sb.id, time formats "CreationTime" sb.creationTime, field "Completed" (.bool sb.completed),
    field "Checksums" (strings sb.checksums)]

def logJSON (le : LogInfo) : JsonMap :=
  [string "actor_info" le.actorInfo, string "actor_type" le.actorType, time formats "time" le.time,
    string "action" le.action, string "object_type" le.objectType, string "object_name" le.objectName,
    string "extended_info" le.extendedInfo, number "id" le.id]

def reportJSON (r : Report) : JsonMap :=
  [string "run_id" r.runID, time formats "start_time" r.startTime, time formats "end_time" r.endTime,
    number "total_res_count" r.totalResCount, string "status" r.status, string "run_list" r.runList,
    field "resources" (.arr r.resources), field "data" (if r.ended then .obj r.data else .null),
    string "node_name" r.nodeName]

def statusJSON (ns : NodeStatus) : JsonMap :=
  [field "Node" (.obj (nodeJSON ns.node)), string "Status" ns.status, time formats "UpdatedAt" ns.updatedAt]

def shoveyJSON (s : Shovey) : JsonMap :=
  [string "id" s.runID, field "nodes" (strings s.nodeNames), string "command" s.command,
    time formats "created_at" s.createdAt, time formats "updated_at" s.updatedAt, string "status" s.status,
    number "timeout" s.timeout, string "quorum" s.quorum]

def runJSON (sr : ShoveyRun) : JsonMap :=
  [string "run_id" sr.shoveyUUID, string "node_name" sr.nodeName, string "status" sr.status,
    time formats "ack_time" sr.ackTime, time formats "end_time" sr.endTime, string "error" sr.error,
    number "exit_status" sr.exitStatus.toNat]

def streamJSON (srs : ShoveyRunStream) : JsonMap :=
  [string "ShoveyUUID" srs.shoveyUUID, string "NodeName" srs.nodeName, number "Seq" srs.seq,
    string "OutputType" srs.outputType, string "Output" srs.output, field "IsLast" (.bool srs.isLast),
    time formats "CreatedAt" srs.createdAt]

end

namespace Server

variable (s : Server)

/-- `time.Unix(0, 0)` -/
def epoch : ℤ := 62135596800 * second

def allLogInfos (now : ℤ) : List LogInfo :=
  (s.logs.keys.insertionSort (· ≥ ·)).filterMap fun i =>
    ((s.logs.lookup i).filter fun le => epoch < le.time && le.time < now).map fun le => { le with id := i }

-- the default environment is listed also where it is stored
def allEnvironments : List ChefEnvironment :=
  (s.environments.keys ++ [ChefEnvironment.defaultName]).filterMap s.findEnvironment

def allNodeStatuses : Except StatusFault (List NodeStatus) := do
  let statuses ← s.nodes.list.mapM fun e => s.statuses.allNodeStatuses e.2.name
  return statuses.flatten

def getNodeRuns (sh : Shovey) : List ShoveyRun := sh.nodeNames.filterMap fun n => s.runs.lookup (sh.runID ++ n)

def allShoveyRuns : List ShoveyRun := s.shoveys.list.flatMap fun e => s.getNodeRuns e.2

end Server

def streamKey (uuid nodeName outputType seq : Text) : Text :=
  uuid ++ '_' :: nodeName ++ '_' :: outputType ++ '_' :: seq

namespace Server

variable (s : Server)

/-- The chunks of a stream from one on, up to the first that is missing. The store has no more of them than the fuel. -/
def streamsFrom (sr : ShoveyRun) (outputType : Text) : ℕ → ℕ → List ShoveyRunStream
  | 0, _ => []
  | fuel + 1, i =>
    match s.streams.lookup (streamKey sr.shoveyUUID sr.nodeName outputType (Text.formatInt i)) with
    | none => []
    | some srs => srs :: streamsFrom sr outputType fuel (i + 1)

def getStreamOutput (sr : ShoveyRun) (outputType : Text) (seq : ℕ) : List ShoveyRunStream :=
  s.streamsFrom sr outputType (s.streams.keys.length + 1) seq

def outputTypes : List Text := ["stdout", "stderr"].map String.toList

def allShoveyRunStreams : List ShoveyRunStream :=
  s.allShoveyRuns.flatMap fun sr => outputTypes.flatMap fun t => s.getStreamOutput sr t 0

end Server

structure ExportData where
  majorVersion : ℕ
  minorVersion : ℕ
  data : List (Text × List Json)

def objects {α : Type} (encode : α → JsonMap) (as : List α) : List Json := as.map fun a => .obj (encode a)

def values {α : Type} (t : Table α) : List α := t.list.map Prod.snd

def shelved {α : Type} (s : Shelf α) : List α := s.cells.entries.map fun e => e.2.val

def document (formats : Formats) (now : ℤ) (s : Server) (statuses : List NodeStatus) : ExportData where
  majorVersion := 1
  minorVersion := 1
  data :=
    [("client", objects clientJSON (shelved s.actors.clients)),
      ("cookbook", objects cookbookJSON (values s.cookbooks)),
      ("databag", objects bagJSON (values s.bags)),
      ("environment", objects environmentJSON s.allEnvironments),
      ("filestore", objects (fileJSON formats) (values s.files)),
      ("loginfo", objects (logJSON formats) (s.allLogInfos now)),
      ("node", objects nodeJSON (values s.nodes)),
      ("node_status", objects (statusJSON formats) statuses),
      ("report", objects (reportJSON formats) (values s.reports)),
      ("role", objects roleJSON (values s.roles)),
      ("sandbox", objects (sandboxJSON formats) (values s.sandboxes)),
      ("shovey", objects (shoveyJSON formats) (values s.shoveys)),
      ("shovey_run", objects (runJSON formats) s.allShoveyRuns),
      ("shovey_run_stream", objects (streamJSON formats) s.allShoveyRunStreams),
      ("user", objects (userJSON formats) (shelved s.actors.users))]

/-- `exportAll`. Where the statuses of a node cannot be read, the process exits and writes nothing. -/
def exportAll (formats : Formats) (now : ℤ) (s : Server) : Except StatusFault ExportData := do
  let statuses ← s.allNodeStatuses
  return document formats now s statuses

end Goiardi.Dump
