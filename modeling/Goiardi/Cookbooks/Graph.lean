import Goiardi.Base.DepthFirst
import Goiardi.Cookbooks.Store

/-! The dependency graph the resolver builds, and the constraint check that walks it. -/

namespace Goiardi.Cookbooks

open GVersion Validation

def constraintPresent (l : List Constraint) (cons : Text) : Bool := l.any (·.original = cons)

def appendConstraint (l : List Constraint) (cons : Text) : List Constraint :=
  if constraintPresent l cons then l else l ++ constraints cons

structure DepMeta where
  version : Text
  constraint : List Constraint
  notFound : Bool
  noVersion : Bool

structure Dependency where
  constraint : List Constraint
  target : Text

structure Noun where
  info : DepMeta
  deps : List Dependency

def Noun.new (constraint : List Constraint) : Noun :=
  { info := { version := [], constraint, notFound := false, noVersion := false }, deps := [] }

def Noun.markNotFound (n : Noun) : Noun := { n with info := { n.info with notFound := true } }

def Noun.markNoVersion (n : Noun) : Noun := { n with info := { n.info with noVersion := true } }

def Noun.setVersion (v : Text) (n : Noun) : Noun := { n with info := { n.info with version := v } }

def Noun.addConstraint (cons : Text) (n : Noun) : Noun :=
  { n with info := { n.info with constraint := appendConstraint n.info.constraint cons } }

def Noun.clearDeps (n : Noun) : Noun := { n with deps := [] }

def Noun.checkDependency (n : Noun) (r : Text) : Bool := n.deps.any (·.target = r)

def putDependency (dep : Dependency) : List Dependency → List Dependency
  | [] => [dep]
  | d :: ds => if d.target = dep.target then dep :: ds else d :: putDependency dep ds

def Noun.putDependency (r c : Text) (n : Noun) : Noun :=
  { n with deps := Cookbooks.putDependency { constraint := constraints c, target := r } n.deps }

structure State where
  nodes : Text → Option Noun
  cbShelf : List (Text × Cookbook)

def State.modify (s : State) (k : Text) (f : Noun → Noun) : State :=
  { s with nodes := Function.update s.nodes k ((s.nodes k).map f) }

def State.ensureNode (s : State) (k : Text) : State :=
  match s.nodes k with
  | some _ => s
  | none => { s with nodes := Function.update s.nodes k (some (Noun.new [])) }

def State.shelve (s : State) (k : Text) (c : Cookbook) : State :=
  if (s.cbShelf.lookup k).isSome then s else { s with cbShelf := s.cbShelf ++ [(k, c)] }

inductive ViolationType
  | cookbookNotFound
  | cookbookNoVersion
deriving DecidableEq, Repr

structure VersionConstraintError where
  violationType : ViolationType
  parentCookbook : Text
  parentConstraint : Text
  parentVersion : Text
  cookbook : Text
  constraint : Text
deriving DecidableEq, Repr

def constraintString (l : List Constraint) : Text := Text.join [','] (l.map Constraint.original)

def runlistRoot : Text := "^runlist_root^"

/-- The name, version and constraints that a violation reports of the edge's head; `none` is the root. -/
def headReport (s : State) : Option Text → Text × Text × Text
  | none => (runlistRoot, [], [])
  | some k =>
    match s.nodes k with
    | none => (k, [], [])
    | some n => (k, n.info.version, constraintString n.info.constraint)

def satisfied (store : Store) (s : State) (head : Option Text) (dep : Dependency) :
    Except Panic (Option VersionConstraintError) :=
  match s.nodes dep.target with
  | none => .error .nilPointer
  | some tail =>
    let (parentCookbook, parentVersion, parentConstraint) := headReport s head
    let verr (violationType : ViolationType) (constraint : Text) : VersionConstraintError :=
      { violationType, parentCookbook, parentConstraint, parentVersion, cookbook := dep.target, constraint }
    if tail.info.notFound then .ok (some (verr .cookbookNotFound (constraintString dep.constraint)))
    else if tail.info.version = [] then
      match store.get dep.target with
      | none => .ok (some (verr .cookbookNoVersion (constraintString dep.constraint)))
      | some cb => do
        let badver ← cb.badConstraints dep.constraint
        return some (verr .cookbookNoVersion (Text.join [','] badver))
    else .ok none

def nounDeps (rootDeps : List Dependency) (s : State) : Option Text → List Dependency
  | none => rootDeps
  | some k => ((s.nodes k).map Noun.deps).getD []

def nounEdges (rootDeps : List Dependency) (s : State) (head : Option Text) : List (Option Text) :=
  (nounDeps rootDeps s head).map (some ·.target)

def violationsOf (store : Store) (s : State) (head : Option Text) :
    List Dependency → Except Panic (List VersionConstraintError)
  | [] => .ok []
  | dep :: deps => do
    let verr ← satisfied store s head dep
    let rest ← violationsOf store s head deps
    return verr.toList ++ rest

def violations (store : Store) (rootDeps : List Dependency) (s : State) :
    List (Option Text) → Except Panic (List VersionConstraintError)
  | [] => .ok []
  | head :: heads => do
    let verrs ← violationsOf store s head (nounDeps rootDeps s head)
    let rest ← violations store rootDeps s heads
    return verrs ++ rest

def checkConstraints (store : Store) (rootDeps : List Dependency) (s : State) (n : ℕ) :
    Option (Except Panic (List VersionConstraintError)) :=
  (DepthFirst.depthFirstWalk (nounEdges rootDeps s) n none).map (violations store rootDeps s)

end Goiardi.Cookbooks
