import Goiardi.Cookbooks.Uploads

/-! Nodes, roles and environments, and what a request body does to one. -/

namespace Goiardi.Objects

open Validation
open Actors (Refusal require allow invalidKey validateAsString jsonClassField chefTypeField badRequest)
open Uploads (Fault)

def runListField : Text := "run_list"

def envRunListsField : Text := "env_run_lists"

def chefEnvironmentField : Text := "chef_environment"

def descriptionField : Text := "description"

def cookbookVersionsField : Text := "cookbook_versions"

def badRunList : Text := "Field 'run_list' is not a valid run list"

def badEnvRunLists : Text := "Field 'env_run_lists' contains invalid run lists"

def chkRunList : Json → Except Text (List Text)
  | .arr elems => elems.mapM fun
    | .str t => .ok t
    | _ => .error badRunList
  | _ => .error badRunList

def attributeFields : List Text :=
  ["normal", "default", "automatic", "override", "default_attributes", "override_attributes"].map String.toList

def checkRunList (data : JsonMap) : Except Text Unit :=
  match data.lookup runListField with
  | none => .ok ()
  | some rl => (chkRunList rl).map fun _ => ()

def checkEnvRunLists (data : JsonMap) : Except Text Unit :=
  match data.lookup envRunListsField with
  | none => .ok ()
  | some (.obj erl) => (erl.forM fun p => (chkRunList p.2).map fun _ => ()).mapError fun _ => badEnvRunLists
  | some _ => .error badEnvRunLists

/-- The part of `parseObjJSON` after the decoder. -/
def checkAttrs (data : JsonMap) : Except Text JsonMap := do
  checkRunList data
  checkEnvRunLists data
  return data.map fun
    | (k, .null) => (k, if k ∈ attributeFields then .obj [] else .null)
    | p => p

def isWord (c : Char) : Bool := c.isAlphanum || c = '_'

def validateRoleName (name : Text) : Bool := name.all fun c => c.isAlphanum || c = '_' || c = '-'

def validateEnvName (name : Text) : Bool := name.all fun c => c.isAlphanum || c = '_' || c = '-'

/-- `^\d+\.\d+(\.\d+)?$` -/
def isRecipeVersion (version : Text) : Bool :=
  match version.splitOn '.' with
  | [a, b] => a ≠ [] && b ≠ [] && a.all Char.isDigit && b.all Char.isDigit
  | [a, b, c] => a ≠ [] && b ≠ [] && c ≠ [] && a.all Char.isDigit && b.all Char.isDigit && c.all Char.isDigit
  | _ => false

-- only the part between the first two signs is read as a version
def validateRecipeName (name : Text) : Bool :=
  name.all (fun c => c.isAlphanum || c = '_' || c = '@' || c = '.' || c = ':' || c = '-') &&
    match name.splitOn '@' with
    | _ :: version :: _ => isRecipeVersion version
    | _ => true

/-- The groups of `^(\w+)\[(.*?)\]$`. -/
def inspectItem (item : Text) : Option (Text × Text) :=
  match Text.span isWord item with
  | (c :: rlType, '[' :: rest) => if rest.getLast? = some ']' then some (c :: rlType, rest.dropLast) else none
  | _ => none

def validateRLItem (item : Text) : Except Refusal Text :=
  if item = [] ∨ ¬ item.all fun c =>
      c.isAlphanum || c = '_' || c = '[' || c = ']' || c = '@' || c = '.' || c = ':' || c = '-'
  then .error ⟨badRunList, 400⟩
  else
    match inspectItem item with
    | some (rlType, rlItem) =>
      if rlType = "role" ∧ validateRoleName rlItem ∨ rlType = "recipe" ∧ validateRecipeName rlItem
      then .ok item
      else .error ⟨badRunList, 400⟩
    | none =>
      if validateRecipeName item then .ok ("recipe[" ++ item ++ "]") else .error ⟨badRunList, 400⟩

def removeDupes (rl : List Text) : List Text :=
  rl.foldl (fun result u => if u ∈ result then result else result ++ [u]) []

def improperRunList : Refusal := badRequest "Not a proper runlist []string"

def validateRunList : Json → Except Refusal (List Text)
  | .arr elems => do
    let rl ← (chkRunList (.arr elems)).mapError fun _ => improperRunList
    let rl ← rl.mapM validateRLItem
    return removeDupes rl
  | .null => .ok []
  | _ => .error improperRunList

def validateAttributes (key : Text) : Json → Except Refusal JsonMap
  | .obj attrs => .ok attrs
  | .null => .ok []
  | _ => .error ⟨"Field '" ++ key ++ "' is not a hash", 400⟩

def attributes (data : JsonMap) (key : Text) : Except Refusal JsonMap := validateAttributes key (lookupField data key)

def mismatch (kind name other : Text) : Refusal :=
  ⟨kind ++ " name " ++ name ++ " and " ++ other ++ " from JSON do not match.", 400⟩

/-- The assertion `data["name"].(string)`. -/
def castName (data : JsonMap) : Except Fault Text :=
  match lookupField data nameField with
  | .str t => .ok t
  | _ => .error (.panic .typeAssertion)

def nameInvalid : Refusal := badRequest "Field 'name' invalid"

structure Node where
  name : Text
  chefEnvironment : Text
  runList : List Text
  jsonClass : Text
  chefType : Text
  automatic : JsonMap
  normal : JsonMap
  default : JsonMap
  override : JsonMap
  isDown : Bool

namespace Node

def validElements : List Text :=
  ["name", "json_class", "chef_type", "chef_environment", "run_list", "override", "normal", "default",
    "automatic"].map String.toList

def new (name : Text) : Node where
  name
  chefEnvironment := "_default"
  chefType := "node"
  jsonClass := "Chef::Node"
  runList := []
  automatic := []
  normal := []
  default := []
  override := []
  isDown := false

def environmentOf (n : Node) : Json → Except Refusal Text
  | .null => .ok n.chefEnvironment
  | .str t => if validateEnvName t then .ok t else .error (badRequest "Field 'chef_environment' invalid")
  | _ => .error (badRequest "Field 'name' missing")

def updateFromJSON (n : Node) (data : JsonMap) : Except Refusal Node := do
  let nodeName ← validateAsString (lookupField data nameField)
  require (n.name = nodeName) (mismatch "Node" n.name nodeName)
  allow (invalidKey validElements data)
  let runList ← validateRunList (lookupField data runListField)
  let normal ← attributes data "normal"
  let automatic ← attributes data "automatic"
  let default ← attributes data "default"
  let override ← attributes data "override"
  let chefEnvironment ← n.environmentOf (lookupField data chefEnvironmentField)
  let jsonClass ← Actors.Client.checkTag jsonClassField "Chef::Node" n.jsonClass
    (lookupField data jsonClassField)
  let chefType ← Actors.Client.checkTag chefTypeField "node" n.chefType (lookupField data chefTypeField)
  return { n with chefEnvironment, chefType, jsonClass, runList, normal, automatic, default, override }

end Node

structure Role where
  name : Text
  chefType : Text
  jsonClass : Text
  runList : List Text
  envRunLists : List (Text × List Text)
  description : Text
  default : JsonMap
  override : JsonMap

namespace Role

def validElements : List Text :=
  ["name", "json_class", "chef_type", "run_list", "env_run_lists", "default_attributes", "override_attributes",
    "description"].map String.toList

def new (name : Text) : Role where
  name
  chefType := "role"
  jsonClass := "Chef::Role"
  runList := []
  envRunLists := []
  description := []
  default := []
  override := []

def envRunListsOf (data : JsonMap) : Except Refusal (List (Text × List Text)) :=
  match lookupField data envRunListsField with
  | .obj erl => erl.mapM fun p => (validateRunList p.2).map fun rl => (p.1, rl)
  | _ => .ok []

-- any description that is no string is stored as the empty one
def descriptionOf (data : JsonMap) : Text :=
  match lookupField data descriptionField with
  | .str t => t
  | _ => []

def updateFromJSON (r : Role) (data : JsonMap) : Except Refusal Role := do
  require ((validateAsString (lookupField data nameField)).toOption = some r.name)
    (mismatch "Role" r.name (sprint (lookupField data nameField)))
  allow (invalidKey validElements data)
  let runList ← validateRunList (lookupField data runListField)
  let envRunLists ← envRunListsOf data
  let default ← attributes data "default_attributes"
  let override ← attributes data "override_attributes"
  let jsonClass ← Actors.Client.checkTag jsonClassField "Chef::Role" r.jsonClass
    (lookupField data jsonClassField)
  let chefType ← Actors.Client.checkTag chefTypeField "role" r.chefType (lookupField data chefTypeField)
  return { r with chefType, jsonClass, description := descriptionOf data, runList, envRunLists, default, override }

end Role

structure ChefEnvironment where
  name : Text
  chefType : Text
  jsonClass : Text
  description : Text
  default : JsonMap
  override : JsonMap
  cookbookVersions : List (Text × Text)

namespace ChefEnvironment

def validElements : List Text :=
  ["name", "chef_type", "json_class", "description", "default_attributes", "override_attributes",
    "cookbook_versions"].map String.toList

def defaultName : Text := "_default"

def new (name : Text) : ChefEnvironment where
  name
  chefType := "environment"
  jsonClass := "Chef::Environment"
  description := []
  default := []
  override := []
  cookbookVersions := []

def defaultEnvironment : ChefEnvironment :=
  { new defaultName with description := "The default Chef environment" }

def notModified : Refusal := ⟨"The '_default' environment cannot be modified.", 405⟩

/-- The check of one entry of `cookbook_versions`, which gives the text that is stored. -/
def cookbookVersion : Text × Json → Except Refusal (Text × Text)
  | (k, v) =>
    if ¬ validateEnvName k ∨ k = [] then .error ⟨"Cookbook name " ++ k ++ " invalid", 400⟩
    else
      match v with
      | .str t =>
        match validateAsConstraint (.str t), validateAsVersion (.str t) with
        | .ok _, _ => .ok (k, t)
        | .error _, .ok _ => .ok (k, t)
        | .error _, .error e => .error ⟨e, 400⟩
      | _ => .error ⟨invalidVersion, 400⟩

def descriptionOf (data : JsonMap) : Except Refusal Text :=
  match lookupField data descriptionField with
  | .null => .ok []
  | j => validateAsString j

def updateFromJSON (e : ChefEnvironment) (data : JsonMap) : Except Fault ChefEnvironment := do
  let name ← castName data
  (show Except Refusal ChefEnvironment from do
    require (e.name = name)
      ⟨"Environment name " ++ e.name ++ " and " ++ name ++ " from JSON do not match", 400⟩
    require (e.name ≠ defaultName) notModified
    allow (invalidKey validElements data)
    let default ← attributes data "default_attributes"
    let override ← attributes data "override_attributes"
    let jsonClass ← Actors.Client.checkTag jsonClassField "Chef::Environment" e.jsonClass
      (lookupField data jsonClassField)
    let chefType ← Actors.Client.checkTag chefTypeField "environment" e.chefType
      (lookupField data chefTypeField)
    let versions ← attributes data cookbookVersionsField
    let cookbookVersions ← versions.mapM cookbookVersion
    let description ← descriptionOf data
    return { e with chefType, jsonClass, description, default, override, cookbookVersions }).mapError .refused

end ChefEnvironment

end Goiardi.Objects
