import Goiardi.Cookbooks.Graph

/-! `DependsCookbooks`: the mutating walk as a machine with an explicit control stack. -/

namespace Goiardi.Cookbooks

open GVersion Validation Machine

/-- The orders in which the runs over maps of one call of `DependsCookbooks` go. -/
structure MapOrder where
  deps : ℕ → JsonMap → JsonMap
  nodes : List Text → List Text
  shelf : List (Text × Cookbook) → List (Text × Cookbook)
  deps_perm : ∀ n l, (deps n l).Perm l
  nodes_perm : ∀ l, (nodes l).Perm l
  shelf_perm : ∀ l, (shelf l).Perm l

def MapOrder.given : MapOrder where
  deps _ l := l
  nodes l := l
  shelf l := l
  deps_perm _ _ := .refl _
  nodes_perm _ := .refl _
  shelf_perm _ := .refl _

inductive Task
  | runList (names : List Text)
  | selectRunList (cbName : Text) (cb : Cookbook)
  | dependencies (cbv : CookbookVersion) (rest : JsonMap)
  | selectDependency (r : Text) (depCb : Cookbook)

structure Config where
  state : State
  calls : ℕ
  control : List Task

variable (store : Store) (ord : MapOrder)

def visitRunList (s : State) (cbName : Text) : Except Panic (State × Option Cookbook) :=
  match s.nodes cbName with
  | none => .error .nilPointer
  | some n =>
    if (s.cbShelf.lookup cbName).isSome ∨ n.info.notFound then .ok (s, none)
    else
      match store.get cbName with
      | none => .ok (s.modify cbName Noun.markNotFound, none)
      | some cb => .ok (s.shelve cbName cb, some cb)

def selectRunList (s : State) (cbName : Text) (cb : Cookbook) :
    Except Panic (State × Option CookbookVersion) :=
  match s.nodes cbName with
  | none => .error .nilPointer
  | some n =>
    match cb.latestMultiConstraint n.info.constraint with
    | .error p => .error p
    | .ok none => .ok (s.modify cbName Noun.markNoVersion, none)
    | .ok (some cbv) => .ok (s.modify cbName (Noun.setVersion cbv.version), some cbv)

def visitDependency (s : State) (cbv : CookbookVersion) (r : Text) (c2 : Json) :
    Except Panic (State × Option Cookbook) :=
  if (s.nodes r).any (fun n => n.info.noVersion || n.info.notFound) then .ok (s, none)
  else
    match c2 with
    | .str c =>
      let s := s.ensureNode r
      match s.nodes cbv.cookbookName, s.nodes r with
      | some head, some tail =>
        let dt := head.checkDependency r
        let s := s.modify cbv.cookbookName (Noun.putDependency r c)
        match s.cbShelf.lookup r with
        | none =>
          match store.get r with
          | none => .ok (s.modify r (fun n => n.markNotFound.addConstraint c), none)
          | some depCb => .ok ((s.modify r (Noun.addConstraint c)).shelve r depCb, some depCb)
        | some depCb =>
          if dt ∧ constraintPresent tail.info.constraint c then .ok (s, none)
          else .ok ((s.modify r (Noun.addConstraint c)).shelve r depCb, some depCb)
      | _, _ => .error .nilPointer
    | _ => .error .typeAssertion

def selectDependency (s : State) (r : Text) (depCb : Cookbook) :
    Except Panic (State × Option CookbookVersion) :=
  match s.nodes r with
  | none => .error .nilPointer
  | some n =>
    match depCb.latestMultiConstraint n.info.constraint with
    | .error p => .error p
    | .ok none => .ok (s.modify r Noun.markNoVersion, none)
    | .ok (some depCbv) =>
      let s := if n.info.version ≠ [] ∧ n.info.version ≠ depCbv.version then s.modify r Noun.clearDeps else s
      .ok (s.modify r (Noun.setVersion depCbv.version), some depCbv)

/-- Enter `getDependencies` of the version just chosen, if there is one. -/
def getDependencies (calls : ℕ) (control : List Task) :
    State × Option CookbookVersion → Except Panic Config
  | (s, none) => .ok { state := s, calls, control }
  | (s, some cbv) =>
    match cbv.depList with
    | .error p => .error p
    | .ok depList =>
      .ok { state := s, calls := calls + 1, control := .dependencies cbv (ord.deps calls depList) :: control }

def next : Except Panic Config → Except Panic State ⊕ Config
  | .error p => .inl (.error p)
  | .ok c => .inr c

def step : Config → Except Panic State ⊕ Config
  | { state, calls := _, control := [] } => .inl (.ok state)
  | { state, calls, control := .runList [] :: control } => .inr { state, calls, control }
  | { state, calls, control := .runList (cbName :: names) :: control } =>
    next <| (visitRunList store state cbName).map fun
      | (state, none) => { state, calls, control := .runList names :: control }
      | (state, some cb) =>
        { state, calls, control := .selectRunList cbName cb :: .runList names :: control }
  | { state, calls, control := .selectRunList cbName cb :: control } =>
    next <| selectRunList state cbName cb >>= getDependencies ord calls control
  | { state, calls, control := .dependencies _ [] :: control } => .inr { state, calls, control }
  | { state, calls, control := .dependencies cbv ((r, c2) :: rest) :: control } =>
    next <| (visitDependency store state cbv r c2).map fun
      | (state, none) => { state, calls, control := .dependencies cbv rest :: control }
      | (state, some depCb) =>
        { state, calls, control := .selectDependency r depCb :: .dependencies cbv rest :: control }
  | { state, calls, control := .selectDependency r depCb :: control } =>
    next <| selectDependency state r depCb >>= getDependencies ord calls control

def pinPrefix : Text := "= "

def parseItem (cbV : Text) : Text × Option Text :=
  match cbV.splitOn '@' with
  | [cx, version] => (Text.beforeColons cx, some (pinPrefix ++ version))
  | cx :: _ => (Text.beforeColons cx, none)
  | [] => ([], none)

def itemConstraint (cbV : Text) : List Constraint := ((parseItem cbV).2.map constraints).getD []

def runListNodes (runList : List Text) : Text → Option Noun :=
  runList.foldl
    (fun nodes cbV => Function.update nodes (parseItem cbV).1 (some (Noun.new (itemConstraint cbV))))
    (fun _ => none)

def envNodes (envConstraints : List (Text × Text)) (nodes : Text → Option Noun) : Text → Option Noun :=
  envConstraints.foldl
    (fun nodes e => Function.update nodes e.1 ((nodes e.1).map (Noun.addConstraint e.2))) nodes

def runListRef (runList : List Text) : List Text := runList.map fun cbV => (parseItem cbV).1

def startState (runList : List Text) (envConstraints : List (Text × Text)) : State :=
  { nodes := envNodes envConstraints (runListNodes runList), cbShelf := [] }

def start (runList : List Text) (envConstraints : List (Text × Text)) : Config :=
  { state := startState runList envConstraints, calls := 0, control := [.runList (runListRef runList)] }

def rootDeps (runList : List Text) (envConstraints : List (Text × Text)) : List Dependency :=
  (ord.nodes (runListRef runList).dedup).map fun k =>
    { constraint := (((startState runList envConstraints).nodes k).map (·.info.constraint)).getD [], target := k }

inductive Failure
  | panic (p : Panic)
  | dependsError (violations : List VersionConstraintError)
  | noVersions (message : Text)

def noVersionsMessage (name : Text) (l : List Constraint) : Text :=
  "Somehow, and this shouldn't have beenable to happen at this stage, no versions of " ++ name ++
    " satisfied the constraints '" ++ constraintString l ++ "'!"

def cookbookDeps (s : State) : List (Text × Cookbook) → Except Failure (List (Text × CookbookVersion))
  | [] => .ok []
  | (k, c) :: shelf =>
    match s.nodes k with
    | none => .error (.panic .nilPointer)
    | some n =>
      match c.latestMultiConstraint n.info.constraint with
      | .error p => .error (.panic p)
      | .ok none => .error (.noVersions (noVersionsMessage c.name n.info.constraint))
      | .ok (some cbv) => do
        let rest ← cookbookDeps s shelf
        return (cbv.cookbookName, cbv) :: rest

/-- `none` when the fuel `n` is too small for the walk or for the check of the graph. -/
def dependsCookbooks (runList : List Text) (envConstraints : List (Text × Text)) (n : ℕ) :
    Option (Except Failure (List (Text × CookbookVersion))) :=
  match run (step store ord) n (start runList envConstraints) with
  | none => none
  | some (.error p) => some (.error (.panic p))
  | some (.ok s) =>
    match checkConstraints store (rootDeps ord runList envConstraints) s n with
    | none => none
    | some (.error p) => some (.error (.panic p))
    | some (.ok (verr :: verrs)) => some (.error (.dependsError (verr :: verrs)))
    | some (.ok []) => some (cookbookDeps s (ord.shelf s.cbShelf))

end Goiardi.Cookbooks
