import Goiardi.DataBags.Items
import Goiardi.Push.Jobs
import Goiardi.Reports.Retention

/-! The kinds of objects that the server stores. -/

namespace Goiardi.Objects

structure Sandbox where
  id : Text
  creationTime : ℤ
  completed : Bool
  checksums : List Text
deriving DecidableEq

structure ShoveyRunStream where
  shoveyUUID : Text
  nodeName : Text
  seq : ℤ
  outputType : Text
  output : Text
  isLast : Bool
  createdAt : ℤ
deriving DecidableEq

structure LogInfo where
  actor : Option Actors.Actor
  actorInfo : Text
  actorType : Text
  time : ℤ
  action : Text
  objectType : Text
  objectName : Text
  extendedInfo : Text
  id : ℤ
deriving DecidableEq

inductive Kind
  | client
  | user
  | node
  | nodeStatus
  | role
  | environment
  | dataBag
  | cookbook
  | sandbox
  | report
  | shovey
  | shoveyRun
  | shoveyRunStream
  | logInfo
deriving DecidableEq

namespace Kind

def all : List Kind :=
  [client, user, node, nodeStatus, role, environment, dataBag, cookbook, sandbox, report, shovey, shoveyRun,
    shoveyRunStream, logInfo]

def Val : Kind → Type
  | client => Actors.Client
  | user => Actors.User
  | node => Node
  | nodeStatus => Retention.NodeStatus
  | role => Role
  | environment => ChefEnvironment
  | dataBag => DataBags.DataBag
  | cookbook => Uploads.Cookbook
  | sandbox => Sandbox
  | report => Retention.Report
  | shovey => Push.Shovey
  | shoveyRun => Push.ShoveyRun
  | shoveyRunStream => ShoveyRunStream
  | logInfo => LogInfo

def typeName (k : Kind) : Text :=
  String.toList <| match k with
  | client => "*client.Client"
  | user => "*user.User"
  | node => "*node.Node"
  | nodeStatus => "*node.NodeStatus"
  | role => "*role.Role"
  | environment => "*environment.ChefEnvironment"
  | dataBag => "*databag.DataBag"
  | cookbook => "*cookbook.Cookbook"
  | sandbox => "*sandbox.Sandbox"
  | report => "*report.Report"
  | shovey => "*shovey.Shovey"
  | shoveyRun => "*shovey.ShoveyRun"
  | shoveyRunStream => "*shovey.ShoveyRunStream"
  | logInfo => "*loginfo.LogInfo"

end Kind

end Goiardi.Objects
