import Goiardi.Search.Trie

/-! `gtrie`: the automaton on the heap, minimised with a registry of its nodes while the words are put in. -/

namespace Goiardi.Search

namespace Automaton

structure Record where
  terminal : Bool
  transitions : List (Char × ℕ)
deriving DecidableEq

structure EqClass where
  terminal : Bool
  children : Text
deriving DecidableEq

def classText (transitions : List (Char × ℕ)) : Text :=
  Text.join [';'] (transitions.map fun t => t.1 :: ':' :: Text.formatNat t.2)

def getEquivalenceClass (n : Record) : EqClass := ⟨n.terminal, classText n.transitions⟩

structure Heap where
  nodes : ℕ → Record
  nextId : ℕ
  eqv : List (EqClass × ℕ)
  registered : List ℕ

inductive Failure
  | unsorted
  | panic (p : Panic)
  | endless
deriving DecidableEq

namespace Heap

variable (h : Heap)

def start : Heap := ⟨fun _ => ⟨false, []⟩, 1, [], []⟩

def set (id : ℕ) (n : Record) : Heap := { h with nodes := Function.update h.nodes id n }

def getChild (id : ℕ) (letter : Char) : Option ℕ := findTransition (h.nodes id).transitions letter

def addTransition (node child : ℕ) (letter : Char) : Heap :=
  h.set node ⟨(h.nodes node).terminal, (h.nodes node).transitions ++ [(letter, child)]⟩

def addChild (node : ℕ) (letter : Char) : Heap × ℕ :=
  match h.getChild node letter with
  | some child => (h, child)
  | none => ({ h.set h.nextId ⟨false, []⟩ with nextId := h.nextId + 1 }.addTransition node h.nextId letter, h.nextId)

def withLast (transitions : List (Char × ℕ)) (last : ℕ) : List (Char × ℕ) :=
  transitions.dropLast ++ (transitions.getLast?.map fun t => (t.1, last)).toList

def setLastChild (node last : ℕ) : Heap :=
  h.set node ⟨(h.nodes node).terminal, withLast (h.nodes node).transitions last⟩

def register (eqClass : EqClass) (node : ℕ) : Heap :=
  { h with eqv := (eqClass, node) :: h.eqv, registered := node :: h.registered }

/-- The end of `replaceOrRegister`: the last child gives way to a registered node of its class, or is registered. -/
def settleChild (node child : ℕ) : Heap :=
  let eqClass := getEquivalenceClass (h.nodes child)
  match h.eqv.lookup eqClass with
  | some eq => h.setLastChild node eq
  | none => h.register eqClass child

/-- `fuel` bounds the depth of the recursion. More than one call for each node runs in circles. -/
def replaceOrRegister : ℕ → Heap → ℕ → Except Failure Heap
  | 0, _, _ => .error .endless
  | fuel + 1, h, node =>
    match (h.nodes node).transitions.getLast? with
    | none => .error (.panic .indexOutOfRange)
    | some (_, child) =>
      if child ∈ h.registered then .ok h
      else
        (if (h.nodes child).transitions = [] then .ok h else replaceOrRegister fuel h child).map
          fun h => h.settleChild node child

def lastCommonState : ℕ → Text → ℕ × Text
  | last, [] => (last, [])
  | last, c :: letters =>
    match h.getChild last c with
    | none => (last, c :: letters)
    | some child => if letters = [] then (last, []) else lastCommonState child letters

def addSuffix (h : Heap) : ℕ → Text → Heap × ℕ
  | last, [] => (h, last)
  | last, c :: letters => addSuffix (h.addChild last c).1 (h.addChild last c).2 letters

def setTerminal (node : ℕ) : Heap := h.set node ⟨true, (h.nodes node).transitions⟩

def minimise (last : ℕ) : Except Failure Heap :=
  if (h.nodes last).transitions = [] then .ok h else replaceOrRegister h.nextId h last

def addWord (last : ℕ) (letters : Text) : Except Failure Heap := do
  let h ← h.minimise last
  let (h, last) := h.addSuffix last letters
  return h.setTerminal last

def insertWord (word : Text) : Except Failure Heap :=
  if word = [] then .ok h else h.addWord (h.lastCommonState 0 word).1 (h.lastCommonState 0 word).2

def create (words : List Text) : Except Failure Heap :=
  if words.IsChain (· ≤ ·) then do
    let h ← words.foldlM insertWord start
    replaceOrRegister h.nextId h 0
  else .error .unsorted

def unfold : ℕ → ℕ → Option Node
  | 0, _ => none
  | fuel + 1, id =>
    ((h.nodes id).transitions.mapM fun t => (unfold fuel t.2).map (Prod.mk t.1)).map
      (Node.mk (h.nodes id).terminal)

end Heap

/-- `update` of a document with the lines of an object, where nothing panics. -/
def build (lines : List Text) : Except Failure IdxDoc := do
  let h ← Heap.create lines
  match h.unfold h.nextId 0 with
  | none => .error .endless
  | some trie => return ⟨.ok trie, .ok (Text.join ['\n'] lines)⟩

end Automaton

end Goiardi.Search
