import Goiardi.Cookbooks.Requests
import Goiardi.Dump.Import

/-! The updates of stored objects, statement by statement: an object is assigned to field by field, and an update that
returns an error leaves it as the assignments before the error have left it. -/

namespace Goiardi.Objects

open Validation List
open Actors (Refusal Client require allow invalidKey validateAsString jsonClassField chefTypeField nameMismatch apiClient
  clientType notBoth)
open Uploads (Fault CookbookVersion Cookbook Server Settings Division demand refuse copying twoFiles)

namespace Node

/-- `UpdateFromJSON` on the node itself. -/
def update (data : JsonMap) : EStateM Refusal Node Unit := do
  let n ← get
  let nodeName ← lift (validateAsString (lookupField data nameField))
  lift (require (n.name = nodeName) (mismatch "Node" n.name nodeName))
  lift (allow (invalidKey validElements data))
  let runList ← lift (validateRunList (lookupField data runListField))
  let normal ← lift (attributes data "normal")
  let automatic ← lift (attributes data "automatic")
  let default ← lift (attributes data "default")
  let override ← lift (attributes data "override")
  let chefEnvironment ← lift (n.environmentOf (lookupField data chefEnvironmentField))
  let jsonClass ← lift (Client.checkTag jsonClassField "Chef::Node" n.jsonClass
    (lookupField data jsonClassField))
  let chefType ← lift (Client.checkTag chefTypeField "node" n.chefType (lookupField data chefTypeField))
  modify fun n => { n with chefEnvironment }
  modify fun n => { n with chefType }
  modify fun n => { n with jsonClass }
  modify fun n => { n with runList }
  modify fun n => { n with normal }
  modify fun n => { n with automatic }
  modify fun n => { n with default }
  modify fun n => { n with override }

lemma update_eq (data : JsonMap) (n : Node) : update data n = settle n (n.updateFromJSON data) := by
  change (lift _ >>= _ : EStateM Refusal Node Unit) n = _
  iterate 11 refine lift_bind_eq_settle fun _ _ => ?_
  rfl

end Node

namespace Role

def update (data : JsonMap) : EStateM Refusal Role Unit := do
  let r ← get
  lift (require ((validateAsString (lookupField data nameField)).toOption = some r.name)
    (mismatch "Role" r.name (sprint (lookupField data nameField))))
  lift (allow (invalidKey validElements data))
  let runList ← lift (validateRunList (lookupField data runListField))
  let envRunLists ← lift (envRunListsOf data)
  let default ← lift (attributes data "default_attributes")
  let override ← lift (attributes data "override_attributes")
  let jsonClass ← lift (Client.checkTag jsonClassField "Chef::Role" r.jsonClass
    (lookupField data jsonClassField))
  let chefType ← lift (Client.checkTag chefTypeField "role" r.chefType (lookupField data chefTypeField))
  modify fun r => { r with chefType }
  modify fun r => { r with jsonClass }
  modify fun r => { r with description := descriptionOf data }
  modify fun r => { r with runList }
  modify fun r => { r with envRunLists }
  modify fun r => { r with default }
  modify fun r => { r with override }

lemma update_eq (data : JsonMap) (r : Role) : update data r = settle r (r.updateFromJSON data) := by
  change (lift _ >>= _ : EStateM Refusal Role Unit) r = _
  iterate 8 refine lift_bind_eq_settle fun _ _ => ?_
  rfl

end Role

namespace ChefEnvironment

def update (data : JsonMap) : EStateM Fault ChefEnvironment Unit := do
  let e ← get
  let name ← lift (castName data)
  let refusing {α : Type} (x : Except Refusal α) : EStateM Fault ChefEnvironment α := lift (x.mapError .refused)
  refusing (require (e.name = name)
    ⟨"Environment name " ++ e.name ++ " and " ++ name ++ " from JSON do not match", 400⟩)
  refusing (require (e.name ≠ defaultName) notModified)
  refusing (allow (invalidKey validElements data))
  let default ← refusing (attributes data "default_attributes")
  let override ← refusing (attributes data "override_attributes")
  let jsonClass ← refusing (Client.checkTag jsonClassField "Chef::Environment" e.jsonClass
    (lookupField data jsonClassField))
  let chefType ← refusing (Client.checkTag chefTypeField "environment" e.chefType
    (lookupField data chefTypeField))
  let versions ← refusing (attributes data cookbookVersionsField)
  let cookbookVersions ← refusing (versions.mapM cookbookVersion)
  let description ← refusing (descriptionOf data)
  modify fun e => { e with chefType }
  modify fun e => { e with jsonClass }
  modify fun e => { e with description }
  modify fun e => { e with default }
  modify fun e => { e with override }
  modify fun e => { e with cookbookVersions := [] }
  cookbookVersions.forM fun cv => modify fun e => { e with cookbookVersions := e.cookbookVersions ++ [cv] }

lemma forM_append_run (versions : List (Text × Text)) (e : ChefEnvironment) :
    (versions.forM fun cv => modify fun e => { e with cookbookVersions := e.cookbookVersions ++ [cv] } :
      EStateM Fault ChefEnvironment Unit) e = .ok () { e with cookbookVersions := e.cookbookVersions ++ versions } := by
  induction versions generalizing e with
  | nil =>
    rw [append_nil]
    rfl
  | cons cv versions ih =>
    refine (ih { e with cookbookVersions := e.cookbookVersions ++ [cv] }).trans ?_
    rw [append_assoc]
    rfl

lemma update_eq (data : JsonMap) (e : ChefEnvironment) : update data e = settle e (e.updateFromJSON data) := by
  change (lift _ >>= _ : EStateM Fault ChefEnvironment Unit) e = _
  refine lift_bind_eq_settle fun _ _ => ?_
  iterate 10 refine lift_mapError_bind_eq_settle fun _ _ => ?_
  exact forM_append_run _ _

end ChefEnvironment

def updateClient (lastAdmin : Bool) (data : JsonMap) : EStateM Refusal Client Unit := do
  let c ← get
  let actorName ← lift (validateAsString (lookupField data nameField))
  lift (require (c.name = actorName) (nameMismatch "Client" c.name actorName))
  lift (allow (invalidKey Client.validElements data))
  let jsonClass ← lift (Client.checkTag jsonClassField apiClient c.jsonClass (lookupField data jsonClassField))
  let chefType ← lift (Client.checkTag chefTypeField clientType c.chefType (lookupField data chefTypeField))
  let ab ← lift (c.adminFlag lastAdmin data)
  let vb ← lift (Client.validatorFlag data)
  lift (require (¬ (ab && vb)) notBoth)
  modify fun c => { c with admin := ab }
  modify fun c => { c with validator := vb }
  modify fun c => { c with chefType }
  modify fun c => { c with jsonClass }

lemma updateClient_eq (lastAdmin : Bool) (data : JsonMap) (c : Client) :
    updateClient lastAdmin data c = settle c (c.updateFromJSON lastAdmin data) := by
  change (lift _ >>= _ : EStateM Refusal Client Unit) c = _
  iterate 8 refine lift_bind_eq_settle fun _ _ => ?_
  rfl

section

open Dump

def resourcesOf : Json → Except Fault (List Json)
  | .arr resources => .ok resources
  | j => .error (refuse ("invalid resources " ++ typeName j))

def dataOf : Json → Except Fault JsonMap
  | .obj data => .ok data
  | _ => .error (refuse "invalid data")

def updateReport (formats : Formats) (v : JsonMap) : EStateM Fault Report Unit := do
  lift (castAction v "end")
  let etime ← lift (stringOr "invalid end time" (valueAt v "end_time"))
  let endTime ← lift (attempt (formats.readReportTime etime))
  let totalResCount ← lift (resCount (valueAt v "total_res_count"))
  let status ← lift (stringOr "invalid status" (valueAt v "status"))
  lift (demand (status ∈ reportStatuses) (refuse ("invalid status " ++ status)))
  let runList ← lift (stringOr "invalid run_list" (valueAt v "run_list"))
  let resources ← lift (resourcesOf (valueAt v "resources"))
  let data ← lift (dataOf (valueAt v "data"))
  modify fun r => { r with endTime }
  modify fun r => { r with totalResCount }
  modify fun r => { r with status }
  modify fun r => { r with runList }
  modify fun r => { r with resources }
  modify fun r => { r with data, ended := true }

lemma updateReport_eq (formats : Formats) (v : JsonMap) (r : Report) :
    updateReport formats v r = settle r (Dump.updateReport formats r v) := by
  iterate 7 refine lift_bind_eq_settle fun _ _ => ?_
  cases valueAt v "resources" with
  | arr resources => cases valueAt v "data" <;> rfl
  | _ => rfl

end

section

/-- What `UpdateVersion` can change: the version, and the server that it is a part of. -/
structure Call where
  cbv : CookbookVersion
  server : Server

variable (env : Settings) (h : Cell Cookbook)

/-- An assignment to a field of a version of the cookbook `h`, which is the stored one if the store hands out no
copies. -/
def assign (g : CookbookVersion → CookbookVersion) : EStateM Fault Call Unit :=
  modify fun x => ⟨g x.cbv, x.server.assign env h (h.val.setVersion x.cbv.version (g x.cbv))⟩

def assignments (body : Uploads.Body) : List (CookbookVersion → CookbookVersion) :=
  [fun cbv => { cbv with chefType := body.chefType }, fun cbv => { cbv with jsonClass := body.jsonClass }] ++
    Division.all.map (fun d cbv => { cbv with divisions := Function.update cbv.divisions d (body.divisions d) }) ++
    [fun cbv => { cbv with isFrozen := cbv.isFrozen || body.frozen }, fun cbv => { cbv with metadata := body.metadata }]

/-- `UpdateVersion` on the version itself. -/
def updateVersion (data : JsonMap) (force : Bool) : EStateM Fault Call Unit := do
  let x ← get
  let body ← lift (Uploads.validateBody env.baseURL x.server.files x.cbv data force)
  lift (Uploads.checkIdentity x.cbv data body)
  (assignments body).forM (assign env h)
  let y ← get
  let server ← lift (Uploads.cleanFiles env x.cbv.fileHashes y.cbv y.server)
  set { y with server }

variable {env h}

lemma assign_assign (s : Server) (c c' : Cookbook) : (s.assign env h c).assign env h c' = s.assign env h c' :=
  congrArg (fun cookbooks => { s with cookbooks }) Shelf.assign_assign

lemma forM_assign (gs : List (CookbookVersion → CookbookVersion)) (g : CookbookVersion → CookbookVersion)
    (hk : ∀ f ∈ g :: gs, ∀ c, (f c).version = c.version) (x : Call) :
    (g :: gs).forM (assign env h) x = .ok () ⟨(g :: gs).foldl (fun c f => f c) x.cbv,
      x.server.assign env h (h.val.setVersion x.cbv.version ((g :: gs).foldl (fun c f => f c) x.cbv))⟩ := by
  induction gs generalizing g x with
  | nil => rfl
  | cons g' gs ih =>
    refine (ih g' (fun f hf => hk f (.tail _ hf))
      ⟨g x.cbv, x.server.assign env h (h.val.setVersion x.cbv.version (g x.cbv))⟩).trans ?_
    rw [hk g (.head _), assign_assign]
    rfl

lemma assignments_version (body : Uploads.Body) : ∀ f ∈ assignments body, ∀ c, (f c).version = c.version := by
  intro f hf c
  simp only [assignments, mem_append, mem_cons, not_mem_nil, or_false, mem_map] at hf
  obtain ((rfl | rfl) | ⟨d, -, rfl⟩) | (rfl | rfl) := hf <;> rfl

lemma foldl_assignments (body : Uploads.Body) (cbv : CookbookVersion) :
    (assignments body).foldl (fun c f => f c) cbv = cbv.withBody body := by
  have hd : Division.all.foldl (fun f d => Function.update f d (body.divisions d)) cbv.divisions =
      body.divisions := by
    funext d
    cases d <;> rfl
  exact congrArg (fun divisions => { cbv.withBody body with divisions }) hd

lemma updateVersion_eq (data : JsonMap) (force : Bool) (x : Call)
    (hs : (x.server.get env x.cbv.cookbookName).isSome = true) :
    updateVersion env h data force x = settle x (do
      let cbv ← Uploads.updateVersion env.baseURL x.server.files x.cbv data force
      let server ← Uploads.cleanFiles env x.cbv.fileHashes cbv
        (x.server.assign env h (h.val.setVersion x.cbv.version cbv))
      return ⟨cbv, server⟩) := by
  rw [Uploads.updateVersion, bind_assoc]
  refine lift_bind_eq_settle fun body _ => ?_
  rw [bind_assoc]
  refine lift_bind_eq_settle fun _ _ => ?_
  obtain ⟨s', hs', -⟩ := Uploads.cleanFiles_ok hs
    (show (x.cbv.withBody body).cookbookName = x.cbv.cookbookName from rfl) x.cbv.fileHashes h
    (h.val.setVersion x.cbv.version (x.cbv.withBody body))
  have ha : (assignments body).forM (assign env h) x = .ok () ⟨x.cbv.withBody body,
      x.server.assign env h (h.val.setVersion x.cbv.version (x.cbv.withBody body))⟩ := by
    rw [← foldl_assignments]
    exact forM_assign _ _ (assignments_version body) x
  change EStateM.bind _ _ x = settle x (Uploads.cleanFiles env _ (x.cbv.withBody body) _ >>= _)
  simp only [EStateM.bind, ha, hs']
  change (lift _ >>= _ : EStateM Fault Call Unit) _ = _
  rw [hs']
  rfl

end

/-- An update that returns an error has changed nothing: neither the object nor, for a version of a stored cookbook, the
cookbooks and the files of the server. -/
theorem failed_update_unchanged (data : JsonMap) :
    (∀ n, FailsClean (Node.update data) n) ∧ (∀ r, FailsClean (Role.update data) r) ∧
    (∀ e, FailsClean (ChefEnvironment.update data) e) ∧ (∀ lastAdmin c, FailsClean (updateClient lastAdmin data) c) ∧
    (∀ formats r, FailsClean (updateReport formats data) r) ∧
    ∀ env h force x, (x.server.get env x.cbv.cookbookName).isSome = true →
      FailsClean (updateVersion env h data force) x :=
  ⟨fun n => .of_settle (Node.update_eq data n), fun r => .of_settle (Role.update_eq data r),
    fun e => .of_settle (ChefEnvironment.update_eq data e),
    fun lastAdmin c => .of_settle (updateClient_eq lastAdmin data c),
    fun formats r => .of_settle (updateReport_eq formats data r),
    fun _ _ force x hs => .of_settle (updateVersion_eq data force x hs)⟩

theorem failed_update_unchanged_app : (∃ e x, updateVersion copying (Shelf.empty.fresh (.blank "app")) [] false
      ⟨(Cookbook.blank "app").blankVersion "1.0.0", twoFiles⟩ = .error e x) ∧
    FailsClean (updateVersion copying (Shelf.empty.fresh (.blank "app")) [] false)
      ⟨(Cookbook.blank "app").blankVersion "1.0.0", twoFiles⟩ :=
  ⟨⟨_, _, rfl⟩, (failed_update_unchanged []).2.2.2.2.2 _ _ _ _ rfl⟩

end Goiardi.Objects
