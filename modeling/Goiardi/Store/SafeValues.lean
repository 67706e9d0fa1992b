import Goiardi.Base.Gob
import Goiardi.Objects.Kinds

/-! What the safe mode of the store keeps of an object: it stores the gob encoding and hands out what decodes from it.
Unexported fields are not sent; clients, users and reports send a record of pointers to their fields instead. -/

namespace Goiardi.SafeValues

open Gob Objects Validation List Codec
open Actors (Client User Actor)
open DataBags (DataBag DataBagItem)
open Push (Shovey ShoveyRun)
open Retention (NodeStatus Report)
open Uploads (Cookbook CookbookVersion Division)

def mapType : Text := "map[string]interface \x7b\x7d"

def sliceType : Text := "[]interface \x7b\x7d"

def numberType : Text := "json.Number"

def boolType : Text := "bool"

def stringType : Text := "string"

/-- The types that `gobRegister` registers, after the basic ones that occur. -/
def registered : List Text :=
  [boolType, stringType,
    "*environment.ChefEnvironment", "*cookbook.Cookbook", "*databag.DataBag",
    "*filestore.FileStore", "*node.Node", "*role.Role", "*sandbox.Sandbox", mapType,
    sliceType, "[]string", "map[string]string", "[]map[string]interface \x7b\x7d",
    "map[string][]string", "*client.Client", "*user.User", "*loginfo.LogInfo",
    "map[int]interface \x7b\x7d", "*cookbook.CookbookVersion", "*databag.DataBagItem",
    "*report.Report", "*shovey.Shovey", "*shovey.ShoveyRun", "*shovey.ShoveyRunStream",
    "*node.NodeStatus", "map[string][]int", numberType]

def notRegistered : Text := "gob: name not registered for interface"

mutual

def encJson : Json → Wire
  | .null => .nil
  | .bool b => .dynamic boolType (.bool b)
  | .num literal => .dynamic numberType (.text literal)
  | .str t => .dynamic stringType (.text t)
  | .arr elems => .dynamic sliceType (.seq (encElems elems))
  | .obj members => .dynamic mapType (.map (encMembers members))

def encElems : List Json → List Wire
  | [] => []
  | j :: js => encJson j :: encElems js

def encMembers : List (Text × Json) → List (Text × Wire)
  | [] => []
  | (k, j) :: ms => (k, encJson j) :: encMembers ms

end

mutual

def decJson : Wire → Except Text Json
  | .nil => .ok .null
  | .dynamic type (.bool b) => if type = boolType then .ok (.bool b) else .error mismatch
  | .dynamic type (.text t) =>
    if type = stringType then .ok (.str t)
    else if type = numberType then .ok (.num t)
    else .error mismatch
  | .dynamic type (.seq ws) => if type = sliceType then (decElems ws).map .arr else .error mismatch
  | .dynamic type (.map es) => if type = mapType then (decMembers es).map .obj else .error mismatch
  | _ => .error mismatch

def decElems : List Wire → Except Text (List Json)
  | [] => .ok []
  | w :: ws => do
    let j ← decJson w
    let js ← decElems ws
    return j :: js

def decMembers : List (Text × Wire) → Except Text (List (Text × Json))
  | [] => .ok []
  | (k, w) :: es => do
    let j ← decJson w
    let ms ← decMembers es
    return (k, j) :: ms

end

mutual

lemma decJson_encJson : (j : Json) → decJson (encJson j) = .ok j
  | .null => rfl
  | .bool b => by simp [encJson, decJson]
  | .num literal => by
    have hne : numberType ≠ stringType := by decide
    simp [encJson, decJson, hne]
  | .str t => by simp [encJson, decJson]
  | .arr elems => by simp [encJson, decJson, decElems_encElems elems, Except.map]
  | .obj members => by simp [encJson, decJson, decMembers_encMembers members, Except.map]

lemma decElems_encElems : (js : List Json) → decElems (encElems js) = .ok js
  | [] => rfl
  | j :: js => by
    simp only [encElems, decElems, decJson_encJson j, decElems_encElems js]
    rfl

lemma decMembers_encMembers : (ms : List (Text × Json)) → decMembers (encMembers ms) = .ok ms
  | [] => rfl
  | (k, j) :: ms => by
    simp only [encMembers, decMembers, decJson_encJson j, decMembers_encMembers ms]
    rfl

end

mutual

lemma known_encJson : (j : Json) → (encJson j).known registered = true
  | .null => rfl
  | .bool b => by
    have h : boolType ∈ registered := by decide
    simp [encJson, Wire.known, h]
  | .num literal => by
    have h : numberType ∈ registered := by decide
    simp [encJson, Wire.known, h]
  | .str t => by
    have h : stringType ∈ registered := by decide
    simp [encJson, Wire.known, h]
  | .arr elems => by
    have h : sliceType ∈ registered := by decide
    simp [encJson, Wire.known, h, known_encElems elems]
  | .obj members => by
    have h : mapType ∈ registered := by decide
    simp [encJson, Wire.known, h, known_encMembers members]

lemma known_encElems : (js : List Json) → knownAll registered (encElems js) = true
  | [] => rfl
  | j :: js => by simp [encElems, knownAll, known_encJson j, known_encElems js]

lemma known_encMembers : (ms : List (Text × Json)) → knownEntries registered (encMembers ms) = true
  | [] => rfl
  | (_, j) :: ms => by simp [encMembers, knownEntries, known_encJson j, known_encMembers ms]

end

def json : Codec registered Json where
  enc := encJson
  dec := decJson
  zero := .null
  omitted
    | .null => true
    | _ => false
  kept := id
  arrives := decJson_encJson
  omits j h := by cases j <;> first | rfl | cases h
  knows := known_encJson

abbrev attributes : Codec registered JsonMap := .assoc json

abbrev texts : Codec registered (List Text) := .list .text

def client : Codec registered Client :=
  .record ⟨[], [], [], [], false, [], [], false, []⟩
    [.of "Name" .text (·.name) fun t c => { c with name := t },
      .of "NodeName" .text (·.nodeName) fun t c => { c with nodeName := t },
      .of "JSONClass" .text (·.jsonClass) fun t c => { c with jsonClass := t },
      .of "ChefType" .text (·.chefType) fun t c => { c with chefType := t },
      .of "Validator" .bool (·.validator) fun b c => { c with validator := b },
      .of "Orgname" .text (·.orgname) fun t c => { c with orgname := t },
      .of "PublicKey" .text (·.pubKey) fun t c => { c with pubKey := t },
      .of "Admin" .bool (·.admin) fun b c => { c with admin := b },
      .of "Certificate" .text (·.certificate) fun t c => { c with certificate := t }] (by decide)

def user : Codec registered User :=
  .record ⟨[], [], [], false, [], [], []⟩
    [.of "Username" .text (·.username) fun t u => { u with username := t },
      .of "Name" .text (·.name) fun t u => { u with name := t },
      .of "Email" .text (·.email) fun t u => { u with email := t },
      .of "Admin" .bool (·.admin) fun b u => { u with admin := b },
      .of "PublicKey" .text (·.pubKey) fun t u => { u with pubKey := t },
      .of "Passwd" .text (·.passwd) fun t u => { u with passwd := t },
      .of "Salt" .bytes (·.salt) fun bs u => { u with salt := bs }] (by decide)

-- `isDown` is not exported
def node : Codec registered Node :=
  .record ⟨[], [], [], [], [], [], [], [], [], false⟩
    [.of "Name" .text (·.name) fun t n => { n with name := t },
      .of "ChefEnvironment" .text (·.chefEnvironment) fun t n => { n with chefEnvironment := t },
      .of "RunList" texts (·.runList) fun l n => { n with runList := l },
      .of "JSONClass" .text (·.jsonClass) fun t n => { n with jsonClass := t },
      .of "ChefType" .text (·.chefType) fun t n => { n with chefType := t },
      .of "Automatic" attributes (·.automatic) fun m n => { n with automatic := m },
      .of "Normal" attributes (·.normal) fun m n => { n with normal := m },
      .of "Default" attributes (·.default) fun m n => { n with default := m },
      .of "Override" attributes (·.override) fun m n => { n with override := m }] (by decide)

def nodeStatus : Codec registered NodeStatus :=
  .record ⟨node.zero, [], 0⟩
    [.of "Node" node (·.node) fun n s => { s with node := n },
      .of "Status" .text (·.status) fun t s => { s with status := t },
      .of "UpdatedAt" .int (·.updatedAt) fun t s => { s with updatedAt := t }] (by decide)

def role : Codec registered Role :=
  .record ⟨[], [], [], [], [], [], [], []⟩
    [.of "Name" .text (·.name) fun t r => { r with name := t },
      .of "ChefType" .text (·.chefType) fun t r => { r with chefType := t },
      .of "JSONClass" .text (·.jsonClass) fun t r => { r with jsonClass := t },
      .of "RunList" texts (·.runList) fun l r => { r with runList := l },
      .of "EnvRunLists" (.assoc texts) (·.envRunLists) fun m r => { r with envRunLists := m },
      .of "Description" .text (·.description) fun t r => { r with description := t },
      .of "Default" attributes (·.default) fun m r => { r with default := m },
      .of "Override" attributes (·.override) fun m r => { r with override := m }] (by decide)

def environment : Codec registered ChefEnvironment :=
  .record ⟨[], [], [], [], [], [], []⟩
    [.of "Name" .text (·.name) fun t e => { e with name := t },
      .of "ChefType" .text (·.chefType) fun t e => { e with chefType := t },
      .of "JSONClass" .text (·.jsonClass) fun t e => { e with jsonClass := t },
      .of "Description" .text (·.description) fun t e => { e with description := t },
      .of "Default" attributes (·.default) fun m e => { e with default := m },
      .of "Override" attributes (·.override) fun m e => { e with override := m },
      .of "CookbookVersions" (.assoc .text) (·.cookbookVersions) fun m e => { e with cookbookVersions := m }] (by decide)

def dataBagItem : Codec registered DataBagItem :=
  .record ⟨[], [], [], [], []⟩
    [.of "Name" .text (·.name) fun t i => { i with name := t },
      .of "ChefType" .text (·.chefType) fun t i => { i with chefType := t },
      .of "JSONClass" .text (·.jsonClass) fun t i => { i with jsonClass := t },
      .of "DataBagName" .text (·.dataBagName) fun t i => { i with dataBagName := t },
      .of "RawData" attributes (·.rawData) fun m i => { i with rawData := m }] (by decide)

def dataBag : Codec registered DataBag :=
  .record ⟨[], ∅⟩
    [.of "Name" .text (·.name) fun t b => { b with name := t },
      .of "DataBagItems" (.table dataBagItem) (·.items) fun m b => { b with items := m }] (by decide)

def division (name : String) (d : Division) : Field registered CookbookVersion :=
  .of name (.list attributes) (·.divisions d) fun l v => { v with divisions := Function.update v.divisions d l }

def cookbookVersion : Codec registered CookbookVersion :=
  .record ⟨[], [], [], [], [], fun _ => [], false, []⟩
    [.of "CookbookName" .text (·.cookbookName) fun t v => { v with cookbookName := t },
      .of "Name" .text (·.name) fun t v => { v with name := t },
      .of "Version" .text (·.version) fun t v => { v with version := t },
      .of "ChefType" .text (·.chefType) fun t v => { v with chefType := t },
      .of "JSONClass" .text (·.jsonClass) fun t v => { v with jsonClass := t },
      division "Definitions" .definitions, division "Libraries" .libraries, division "Attributes" .attributes,
      division "Recipes" .recipes, division "Providers" .providers, division "Resources" .resources,
      division "Templates" .templates, division "RootFiles" .rootFiles, division "Files" .files,
      .of "IsFrozen" .bool (·.isFrozen) fun b v => { v with isFrozen := b },
      .of "Metadata" attributes (·.metadata) fun m v => { v with metadata := m }] (by decide)

-- the cached version is not exported
def cookbook : Codec registered Cookbook :=
  .record ⟨[], ∅, none⟩
    [.of "Name" .text (·.name) fun t c => { c with name := t },
      .of "Versions" (.table cookbookVersion) (·.versions) fun m c => { c with versions := m }] (by decide)

def sandbox : Codec registered Sandbox :=
  .record ⟨[], 0, false, []⟩
    [.of "ID" .text (·.id) fun t b => { b with id := t },
      .of "CreationTime" .int (·.creationTime) fun t b => { b with creationTime := t },
      .of "Completed" .bool (·.completed) fun c b => { b with completed := c },
      .of "Checksums" texts (·.checksums) fun l b => { b with checksums := l }] (by decide)

-- `export` leaves the pointer `RunList` nil
def report : Codec registered Report :=
  .record ⟨[], 0, 0, 0, [], [], [], [], [], 0⟩
    [.of "RunID" .text (·.runID) fun t r => { r with runID := t },
      .of "StartTime" .int (·.startTime) fun t r => { r with startTime := t },
      .of "EndTime" .int (·.endTime) fun t r => { r with endTime := t },
      .of "TotalResCount" .int (·.totalResCount) fun n r => { r with totalResCount := n },
      .of "Status" .text (·.status) fun t r => { r with status := t },
      .unset "RunList",
      .of "Resources" (.list json) (·.resources) fun l r => { r with resources := l },
      .of "Data" attributes (·.data) fun m r => { r with data := m },
      .of "NodeName" .text (·.nodeName) fun t r => { r with nodeName := t },
      .of "OrganizationID" .int (·.organizationID) fun n r => { r with organizationID := n }] (by decide)

def shovey : Codec registered Shovey :=
  .record ⟨[], [], [], 0, 0, [], 0, []⟩
    [.of "RunID" .text (·.runID) fun t s => { s with runID := t },
      .of "NodeNames" texts (·.nodeNames) fun l s => { s with nodeNames := l },
      .of "Command" .text (·.command) fun t s => { s with command := t },
      .of "CreatedAt" .int (·.createdAt) fun t s => { s with createdAt := t },
      .of "UpdatedAt" .int (·.updatedAt) fun t s => { s with updatedAt := t },
      .of "Status" .text (·.status) fun t s => { s with status := t },
      .of "Timeout" .int (·.timeout) fun n s => { s with timeout := n },
      .of "Quorum" .text (·.quorum) fun t s => { s with quorum := t }] (by decide)

def shoveyRun : Codec registered ShoveyRun :=
  .record ⟨[], [], [], 0, 0, [], 0⟩
    [.of "ShoveyUUID" .text (·.shoveyUUID) fun t r => { r with shoveyUUID := t },
      .of "NodeName" .text (·.nodeName) fun t r => { r with nodeName := t },
      .of "Status" .text (·.status) fun t r => { r with status := t },
      .of "AckTime" .int (·.ackTime) fun t r => { r with ackTime := t },
      .of "EndTime" .int (·.endTime) fun t r => { r with endTime := t },
      .of "Error" .text (·.error) fun t r => { r with error := t },
      .of "ExitStatus" .byte (·.exitStatus) fun b r => { r with exitStatus := b }] (by decide)

def shoveyRunStream : Codec registered ShoveyRunStream :=
  .record ⟨[], [], 0, [], [], false, 0⟩
    [.of "ShoveyUUID" .text (·.shoveyUUID) fun t s => { s with shoveyUUID := t },
      .of "NodeName" .text (·.nodeName) fun t s => { s with nodeName := t },
      .of "Seq" .int (·.seq) fun n s => { s with seq := n },
      .of "OutputType" .text (·.outputType) fun t s => { s with outputType := t },
      .of "Output" .text (·.output) fun t s => { s with output := t },
      .of "IsLast" .bool (·.isLast) fun b s => { s with isLast := b },
      .of "CreatedAt" .int (·.createdAt) fun t s => { s with createdAt := t }] (by decide)

def encActor : Option Actor → Wire
  | none => .nil
  | some (.client c) => .dynamic Kind.client.typeName (client.enc c)
  | some (.user u) => .dynamic Kind.user.typeName (user.enc u)

def decActor : Wire → Except Text (Option Actor)
  | .nil => .ok none
  | .dynamic type w =>
    if type = Kind.client.typeName then (client.dec w).map fun c => some (.client c)
    else if type = Kind.user.typeName then (user.dec w).map fun u => some (.user u)
    else .error notRegistered
  | _ => .error mismatch

def actor : Codec registered (Option Actor) where
  enc := encActor
  dec := decActor
  zero := none
  omitted a := a.isNone
  kept
    | some (.client c) => some (.client (client.kept c))
    | some (.user u) => some (.user (user.kept u))
    | none => none
  arrives a := by
    match a with
    | none => rfl
    | some (.client c) => simp [encActor, decActor, client.arrives, Except.map]
    | some (.user u) =>
      have hne : Kind.user.typeName ≠ Kind.client.typeName := by decide
      simp [encActor, decActor, user.arrives, hne, Except.map]
  omits a h := by
    rw [Option.isNone_iff_eq_none.mp h]
  knows a := by
    match a with
    | none => rfl
    | some (.client c) =>
      have h : Kind.client.typeName ∈ registered := by decide
      simp [encActor, Wire.known, h, client.knows]
    | some (.user u) =>
      have h : Kind.user.typeName ∈ registered := by decide
      simp [encActor, Wire.known, h, user.knows]

def logInfo : Codec registered LogInfo :=
  .record ⟨none, [], [], 0, [], [], [], [], 0⟩
    [.of "Actor" actor (·.actor) fun a l => { l with actor := a },
      .of "ActorInfo" .text (·.actorInfo) fun t l => { l with actorInfo := t },
      .of "ActorType" .text (·.actorType) fun t l => { l with actorType := t },
      .of "Time" .int (·.time) fun t l => { l with time := t },
      .of "Action" .text (·.action) fun t l => { l with action := t },
      .of "ObjectType" .text (·.objectType) fun t l => { l with objectType := t },
      .of "ObjectName" .text (·.objectName) fun t l => { l with objectName := t },
      .of "ExtendedInfo" .text (·.extendedInfo) fun t l => { l with extendedInfo := t },
      .of "ID" .int (·.id) fun n l => { l with id := n }] (by decide)

lemma kept_texts (l : List Text) : texts.kept l = l := kept_list (fun _ => rfl) l

lemma kept_attributes (m : JsonMap) : attributes.kept m = m := kept_assoc (fun _ => rfl) m

lemma kept_client (c : Client) : client.kept c = c := by
  rw [client, kept_record]
  simp only [foldl_cons, foldl_nil, Field.copy_of, kept_text, kept_bool]

lemma kept_user (u : User) : user.kept u = u := by
  rw [user, kept_record]
  simp only [foldl_cons, foldl_nil, Field.copy_of, kept_text, kept_bool, kept_bytes]

lemma kept_node (n : Node) : node.kept n = { n with isDown := false } := by
  rw [node, kept_record]
  simp only [foldl_cons, foldl_nil, Field.copy_of, kept_text, kept_texts, kept_attributes]

lemma kept_nodeStatus (s : NodeStatus) : nodeStatus.kept s = { s with node := { s.node with isDown := false } } := by
  rw [nodeStatus, kept_record]
  simp only [foldl_cons, foldl_nil, Field.copy_of, kept_text, kept_int, kept_node]

lemma kept_role (r : Role) : role.kept r = r := by
  rw [role, kept_record]
  simp only [foldl_cons, foldl_nil, Field.copy_of, kept_text, kept_texts, kept_attributes, kept_assoc kept_texts]

lemma kept_environment (e : ChefEnvironment) : environment.kept e = e := by
  rw [environment, kept_record]
  simp only [foldl_cons, foldl_nil, Field.copy_of, kept_text, kept_attributes, kept_assoc kept_text]

lemma kept_dataBagItem (i : DataBagItem) : dataBagItem.kept i = i := by
  rw [dataBagItem, kept_record]
  simp only [foldl_cons, foldl_nil, Field.copy_of, kept_text, kept_attributes]

lemma kept_dataBag (b : DataBag) : dataBag.kept b = b := by
  rw [dataBag, kept_record]
  simp only [foldl_cons, foldl_nil, Field.copy_of, kept_text, kept_table kept_dataBagItem]

lemma kept_cookbookVersion (v : CookbookVersion) : cookbookVersion.kept v = v := by
  rw [cookbookVersion, kept_record]
  simp only [foldl_cons, foldl_nil, Field.copy_of, division, kept_text, kept_bool,
    kept_attributes, kept_list kept_attributes]
  -- every division is set by one of the nine fields
  congr 1
  funext d
  cases d <;> simp [Function.update]

lemma kept_cookbook (c : Cookbook) : cookbook.kept c = { c with latest := none } := by
  rw [cookbook, kept_record]
  simp only [foldl_cons, foldl_nil, Field.copy_of, kept_text, kept_table kept_cookbookVersion]

lemma kept_sandbox (b : Sandbox) : sandbox.kept b = b := by
  rw [sandbox, kept_record]
  simp only [foldl_cons, foldl_nil, Field.copy_of, kept_text, kept_int, kept_bool, kept_texts]

lemma kept_report (r : Report) : report.kept r = { r with runList := [] } := by
  rw [report, kept_record]
  simp only [foldl_cons, foldl_nil, Field.copy_of, Field.copy_unset, kept_text, kept_int,
    kept_attributes, kept_list (c := json) fun _ => rfl]

lemma kept_shovey (s : Shovey) : shovey.kept s = s := by
  rw [shovey, kept_record]
  simp only [foldl_cons, foldl_nil, Field.copy_of, kept_text, kept_int, kept_texts]

lemma kept_shoveyRun (r : ShoveyRun) : shoveyRun.kept r = r := by
  rw [shoveyRun, kept_record]
  simp only [foldl_cons, foldl_nil, Field.copy_of, kept_text, kept_int, kept_byte]

lemma kept_shoveyRunStream (s : ShoveyRunStream) : shoveyRunStream.kept s = s := by
  rw [shoveyRunStream, kept_record]
  simp only [foldl_cons, foldl_nil, Field.copy_of, kept_text, kept_int, kept_bool]

lemma kept_actor (a : Option Actor) : actor.kept a = a := by
  match a with
  | none => rfl
  | some (.client c) => exact congrArg (fun c => some (Actor.client c)) (kept_client c)
  | some (.user u) => exact congrArg (fun u => some (Actor.user u)) (kept_user u)

lemma kept_logInfo (l : LogInfo) : logInfo.kept l = l := by
  rw [logInfo, kept_record]
  simp only [foldl_cons, foldl_nil, Field.copy_of, kept_actor, kept_text, kept_int]

def codec : (k : Kind) → Codec registered k.Val
  | .client => client
  | .user => user
  | .node => node
  | .nodeStatus => nodeStatus
  | .role => role
  | .environment => environment
  | .dataBag => dataBag
  | .cookbook => cookbook
  | .sandbox => sandbox
  | .report => report
  | .shovey => shovey
  | .shoveyRun => shoveyRun
  | .shoveyRunStream => shoveyRunStream
  | .logInfo => logInfo

abbrev Item := Sigma Kind.Val

def encodeSafeVal (val : Item) : Except Text Wire :=
  let w := Wire.dynamic val.1.typeName ((codec val.1).enc val.2)
  if w.known registered then .ok w else .error notRegistered

def decodeSafeVal : Wire → Except Text Item
  | .dynamic type w =>
    match Kind.all.find? fun k => k.typeName = type with
    | some k => ((codec k).dec w).map fun v => ⟨k, v⟩
    | none => .error notRegistered
  | _ => .error mismatch

lemma find_typeName (k : Kind) : Kind.all.find? (fun k' => k'.typeName = k.typeName) = some k := by
  cases k <;> decide

lemma decode_encode (k : Kind) (v : k.Val) :
    ∃ w, encodeSafeVal ⟨k, v⟩ = .ok w ∧ decodeSafeVal w = .ok ⟨k, (codec k).kept v⟩ := by
  refine ⟨.dynamic k.typeName ((codec k).enc v), ?_, ?_⟩
  · refine if_pos ?_
    simp [Wire.known, (by cases k <;> decide : k.typeName ∈ registered), (codec k).knows v]
  · simp only [decodeSafeVal, find_typeName, (codec k).arrives]
    rfl

/-- The objects have the same fields, apart from the cached latest version of a cookbook and from the flag of the node
that a status points to, which nobody reads there. -/
def Agrees : (k : Kind) → k.Val → k.Val → Prop
  | .cookbook, c, c' => Cookbook.name c' = Cookbook.name c ∧ Cookbook.versions c' = Cookbook.versions c
  | .nodeStatus, s, s' => NodeStatus.status s' = NodeStatus.status s ∧ NodeStatus.updatedAt s' = NodeStatus.updatedAt s ∧
      { NodeStatus.node s' with isDown := false } = { NodeStatus.node s with isDown := false }
  | _, v, v' => v' = v

def Whole : (k : Kind) → k.Val → Prop
  | .node, n => Node.isDown n = false
  | .report, r => Report.runList r = []
  | _, _ => True

lemma agrees_node_iff (n : Node) : Agrees .node n (node.kept n) ↔ n.isDown = false := by
  rw [kept_node]
  constructor
  · intro h
    exact (congrArg Node.isDown h).symm
  · intro h
    cases n
    cases h
    rfl

lemma agrees_report_iff (r : Report) : Agrees .report r (report.kept r) ↔ r.runList = [] := by
  rw [kept_report]
  constructor
  · intro h
    exact (congrArg Report.runList h).symm
  · intro h
    cases r
    cases h
    rfl

lemma agrees_kept_iff (k : Kind) (v : k.Val) : Agrees k v ((codec k).kept v) ↔ Whole k v := by
  cases k with
  | node => exact agrees_node_iff v
  | report => exact agrees_report_iff v
  | nodeStatus => exact iff_of_true (kept_nodeStatus v ▸ ⟨rfl, rfl, rfl⟩) trivial
  | cookbook => exact iff_of_true (kept_cookbook v ▸ ⟨rfl, rfl⟩) trivial
  | client => exact iff_of_true (kept_client v) trivial
  | user => exact iff_of_true (kept_user v) trivial
  | role => exact iff_of_true (kept_role v) trivial
  | environment => exact iff_of_true (kept_environment v) trivial
  | dataBag => exact iff_of_true (kept_dataBag v) trivial
  | sandbox => exact iff_of_true (kept_sandbox v) trivial
  | shovey => exact iff_of_true (kept_shovey v) trivial
  | shoveyRun => exact iff_of_true (kept_shoveyRun v) trivial
  | shoveyRunStream => exact iff_of_true (kept_shoveyRunStream v) trivial
  | logInfo => exact iff_of_true (kept_logInfo v) trivial

/-- An object that is stored and fetched in the safe mode is the one that was stored, unless it is a node that is down
or a report with a run list. -/
theorem safe_value_agrees_iff (k : Kind) (v : k.Val) :
    (∃ w v', encodeSafeVal ⟨k, v⟩ = .ok w ∧ decodeSafeVal w = .ok ⟨k, v'⟩ ∧ Agrees k v v') ↔ Whole k v := by
  obtain ⟨w, hw, hv⟩ := decode_encode k v
  rw [← agrees_kept_iff]
  constructor
  · rintro ⟨w', v', hw', hv', h⟩
    rw [hw] at hw'
    cases hw'
    rw [hv] at hv'
    cases hv'
    exact h
  · exact fun h => ⟨w, _, hw, hv, h⟩

def downNode : Node := { Node.new "web" with isDown := true }

def webReport : Report := { Retention.reportAt 5 with runList := "recipe[web]" }

theorem safe_value_changes : (∃ w v', encodeSafeVal ⟨.node, downNode⟩ = .ok w ∧ decodeSafeVal w = .ok ⟨.node, v'⟩ ∧
      downNode.isDown = true ∧ Node.isDown v' = false) ∧
    (∃ w v', encodeSafeVal ⟨.report, webReport⟩ = .ok w ∧ decodeSafeVal w = .ok ⟨.report, v'⟩ ∧
      webReport.runList = "recipe[web]" ∧ Report.runList v' = []) := by
  constructor
  · obtain ⟨w, hw, hv⟩ := decode_encode .node downNode
    exact ⟨w, _, hw, hv, rfl, congrArg Node.isDown (kept_node downNode)⟩
  · obtain ⟨w, hw, hv⟩ := decode_encode .report webReport
    exact ⟨w, _, hw, hv, rfl, congrArg Report.runList (kept_report webReport)⟩

end Goiardi.SafeValues
