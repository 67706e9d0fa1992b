import Goiardi.Base.Sorting
import Goiardi.Base.Text

/-! The in-memory search index: tries of `key:value` lines, documents, collections of documents, and the searches
of `FileIndex` over a whole collection or over the documents gathered so far. -/

namespace Goiardi.Search

open Finset

/-- What the search takes from Go's standard library. `letter` is `unicode.IsLetter` or `unicode.IsNumber`, `compile`
is `regexp.Compile` together with `MatchString`. -/
structure Library where
  letter : Char → Bool
  compile : Text → Except Text (Text → Bool)

inductive Fault
  | error (text : Text)
  | panic (p : Panic)
deriving DecidableEq, Repr

def findTransition {α : Type} (transitions : List (Char × α)) (letter : Char) : Option α :=
  match transitions[searchBy (fun t => decide (letter ≤ t.1)) transitions]? with
  | some (label, child) => if label = letter then some child else none
  | none => none

/-- A node of the automaton of `gtrie`, unfolded to a tree. -/
inductive Node
  | mk (terminal : Bool) (transitions : List (Char × Node))

namespace Node

def terminal : Node → Bool
  | mk t _ => t

def transitions : Node → List (Char × Node)
  | mk _ ts => ts

def getChild (n : Node) (letter : Char) : Option Node := findTransition n.transitions letter

def hasPrefix (n : Node) : Text → Option Node
  | [] => some n
  | c :: letters =>
    match n.getChild c with
    | some child => child.hasPrefix letters
    | none => none

def accepts (n : Node) (letters : Text) : Bool :=
  match n.hasPrefix letters with
  | some last => last.terminal
  | none => false

mutual

-- nothing below a terminal node is listed
def childKeys : Node → List Text
  | mk terminal transitions => if terminal then [] else transitionKeys transitions

def transitionKeys : List (Char × Node) → List Text
  | [] => []
  | (letter, child) :: rest =>
    (match childKeys child with
      | [] => [[letter]]
      | keys => keys.map (letter :: ·)) ++ transitionKeys rest

end

end Node

structure IdxDoc where
  trie : Except Text Node
  docText : Except Text Text

def replaceAll (c : Char) (new t : Text) : Text := t.flatMap fun d => if d = c then new else [d]

def unescape : Text → Text
  | [] => []
  | [c] => [c]
  | c :: d :: t => if c = '\\' ∧ ¬ Text.isSpace d then d :: unescape t else c :: unescape (d :: t)

def splitColon : Text → Option (Text × Text)
  | [] => none
  | c :: t => if c = ':' then some ([], t) else (splitColon t).map fun (key, re) => (c :: key, re)

def wildcardText : Text := "Can't start a term with a wildcard character"

def wildRangeText : Text := "you can't have both start and end be wild in a range search, sadly"

def unknownIndexText (idx : Text) : Text :=
  "I don't know how to search for " ++ idx ++ " data objects."

def orError {α : Type} : Except Text α → Except Fault α
  | .ok a => .ok a
  | .error text => .error (.error text)

variable {ε α β : Type} {f : α → Except ε β} {x : Except ε α}

@[simp] lemma ok_bind {a : α} : (Except.ok a >>= f) = f a := rfl

@[simp] lemma error_bind {e : ε} : (Except.error e >>= f) = .error e := rfl

lemma bind_ok {b : β} (h : x >>= f = .ok b) : ∃ a, x = .ok a ∧ f a = .ok b := by
  cases x with
  | error e => cases h
  | ok a => exact ⟨a, rfl, h⟩

lemma bind_congr_ok {f g : α → Except ε β} (h : ∀ a, x = .ok a → f a = g a) : x >>= f = x >>= g := by
  cases x with
  | error e => rfl
  | ok a => exact h a rfl

namespace IdxDoc

variable (lib : Library) (doc : IdxDoc)

def exactSearch (term : Text) : Except Fault Bool := do
  let trie ← orError doc.trie
  return trie.accepts term

def regexSearch (reTerm : Text) : Except Fault Bool :=
  match splitColon reTerm with
  | none => .error (.panic .indexOutOfRange)
  | some (key, re) => do
    let re := replaceAll '?' ".?" (replaceAll '*' ".*" (replaceAll '.' "\\." re))
    let reComp ← orError (lib.compile re)
    let trie ← orError doc.trie
    match trie.hasPrefix (key ++ [':']) with
    | some n => return n.childKeys.any reComp
    | none => return false

def examine (term : Text) : Except Fault Bool :=
  if term.any (fun c => c = '*' || c = '?') then doc.regexSearch lib term else doc.exactSearch term

def textSearch (term : Text) : Except Fault Bool :=
  match term with
  | [] => .error (.panic .indexOutOfRange)
  | c :: _ =>
    if c = '*' ∨ c = '?' then .error (.error wildcardText)
    else do
      let term := replaceAll '?' ".?" (replaceAll '*' ".*" term)
      let reComp ← orError (lib.compile ("(?m):" ++ term ++ "$"))
      let docText ← orError doc.docText
      return reComp docText

def rangeTest (start stop : Text) (inclusive negated : Bool) (child : Text) : Bool :=
  let wildStart := start = ['*']
  let wildEnd := stop = ['*']
  match negated, inclusive with
  | false, true => if wildStart then child ≤ stop else if wildEnd then start ≤ child else start ≤ child && child ≤ stop
  | false, false => if wildStart then child < stop else if wildEnd then start < child else start < child && child < stop
  | true, true => if wildStart then stop ≤ child else if wildEnd then child ≤ start else child ≤ start || stop ≤ child
  | true, false => if wildStart then stop < child else if wildEnd then child < start else child < start || stop < child

def rangeSearch (field start stop : Text) (inclusive negated : Bool) : Except Fault Bool :=
  if start = ['*'] ∧ stop = ['*'] then .error (.error wildRangeText)
  else do
    let trie ← orError doc.trie
    match trie.hasPrefix (field ++ [':']) with
    | some n => return n.childKeys.any (rangeTest start stop inclusive negated)
    | none => return false

end IdxDoc

structure IdxCollection where
  docs : List (Text × IdxDoc)
  nodup : (docs.map Prod.fst).Nodup

structure FileIndex where
  idxmap : List (Text × IdxCollection)

/-- The loop that the searches of a collection share: every document is examined, and the first error met is the
outcome. The order of the documents stands for the order in which their goroutines answer. -/
def collect (examine : IdxDoc → Except Fault Bool) (notop : Bool) : List (Text × IdxDoc) → Except Fault (Finset Text)
  | [] => .ok ∅
  | (k, v) :: docs => do
    let m ← examine v
    let results ← collect examine notop docs
    return if (m && !notop) || (!m && notop) then insert k results else results

section

variable {examine : IdxDoc → Except Fault Bool} {notop : Bool} {docs docs' : List (Text × IdxDoc)} {S : Finset Text}

def Total (examine : IdxDoc → Except Fault Bool) (docs : List (Text × IdxDoc)) : Prop :=
  ∀ kv ∈ docs, ∃ m, examine kv.2 = .ok m

lemma Total.of_subset (h : Total examine docs) (hs : ∀ kv ∈ docs', kv ∈ docs) : Total examine docs' :=
  fun kv hkv => h kv (hs kv hkv)

lemma total_of_collect (h : collect examine notop docs = .ok S) : Total examine docs := by
  induction docs generalizing S with
  | nil => simp [Total]
  | cons kv docs ih =>
    obtain ⟨m, hm, h⟩ := bind_ok h
    obtain ⟨T, hT, -⟩ := bind_ok h
    intro kv' hk'
    cases hk' with
    | head => exact ⟨m, hm⟩
    | tail _ hmm => exact ih hT kv' hmm

lemma collect_of_total (h : Total examine docs) : ∃ S, collect examine notop docs = .ok S := by
  induction docs with
  | nil => exact ⟨∅, rfl⟩
  | cons kv docs ih =>
    obtain ⟨m, hm⟩ := h kv (.head _)
    obtain ⟨T, hT⟩ := ih (h.of_subset fun _ => .tail _)
    rw [collect, hm, ok_bind, hT]
    exact ⟨_, rfl⟩

lemma mem_collect (h : collect examine notop docs = .ok S) {k : Text} :
    k ∈ S ↔ ∃ v, (k, v) ∈ docs ∧ examine v = .ok (!notop) := by
  induction docs generalizing S with
  | nil =>
    cases h
    simp
  | cons kv docs ih =>
    obtain ⟨m, hm, h⟩ := bind_ok h
    obtain ⟨T, hT, h⟩ := bind_ok h
    cases h
    have hkp : ((m && !notop) || (!m && notop)) = true ↔ examine kv.2 = .ok (!notop) := by
      cases m <;> cases notop <;> simp [hm]
    have hih := ih hT
    constructor
    · intro hk
      split at hk
      · next hp =>
        cases mem_insert.mp hk with
        | inl he => exact ⟨kv.2, by simp [he], hkp.mp hp⟩
        | inr hin =>
          obtain ⟨v, hv, hx⟩ := hih.mp hin
          exact ⟨v, .tail _ hv, hx⟩
      · obtain ⟨v, hv, hx⟩ := hih.mp hk
        exact ⟨v, .tail _ hv, hx⟩
    · rintro ⟨v, hv, hx⟩
      cases hv with
      | head =>
        rw [if_pos (hkp.mpr hx)]
        exact mem_insert_self _ _
      | tail _ hv =>
        have hin := hih.mpr ⟨v, hv, hx⟩
        split
        · exact mem_insert_of_mem hin
        · exact hin

end

section

variable (lib : Library) (docs : List (Text × IdxDoc))

def searchCollection (term : Text) (notop : Bool) : Except Fault (Finset Text) :=
  collect (fun doc => doc.examine lib term) notop docs

def searchTextCollection (term : Text) (notop : Bool) : Except Fault (Finset Text) :=
  collect (fun doc => doc.textSearch lib term) notop docs

def searchRangeCollection (field start stop : Text) (inclusive negated : Bool) : Except Fault (Finset Text) :=
  collect (fun doc => doc.rangeSearch field start stop inclusive negated) false docs

end

def everything : Text := "*:*"

namespace IdxCollection

variable (c : IdxCollection)

def allDocs : Finset Text := (c.docs.map Prod.fst).toFinset

def within (d : Finset Text) : List (Text × IdxDoc) := c.docs.filter fun kv => kv.1 ∈ d

lemma mem_allDocs {c : IdxCollection} {k : Text} : k ∈ c.allDocs ↔ ∃ v, (k, v) ∈ c.docs := by
  simp [allDocs]

lemma mem_within {c : IdxCollection} {d : Finset Text} {kv : Text × IdxDoc} :
    kv ∈ c.within d ↔ kv ∈ c.docs ∧ kv.1 ∈ d := by
  simp [within]

lemma collect_within {c : IdxCollection} {examine : IdxDoc → Except Fault Bool} {notop : Bool} {S : Finset Text}
    (h : collect examine notop c.docs = .ok S) (d : Finset Text) :
    collect examine notop (c.within d) = .ok (S ∩ d) := by
  have ht := (total_of_collect h).of_subset fun kv hkv => (mem_within (d := d).mp hkv).1
  obtain ⟨T, hT⟩ : ∃ T, collect examine notop (c.within d) = .ok T := collect_of_total ht
  have he : T = S ∩ d := by
    ext k
    simp only [mem_inter, mem_collect hT, mem_collect h, mem_within]
    constructor
    · rintro ⟨v, ⟨hv, hd⟩, hx⟩
      exact ⟨⟨v, hv, hx⟩, hd⟩
    · rintro ⟨⟨v, hv, hx⟩, hd⟩
      exact ⟨v, ⟨hv, hd⟩, hx⟩
  rw [hT, he]

end IdxCollection

namespace FileIndex

variable (lib : Library) (i : FileIndex) (idx : Text)

def collection : Except Fault IdxCollection :=
  match i.idxmap.lookup idx with
  | some c => .ok c
  | none => .error (.error (unknownIndexText idx))

def search (term : Text) (notop : Bool) : Except Fault (Finset Text) := do
  let idc ← i.collection idx
  if term = everything then return idc.allDocs
  searchCollection lib idc.docs (unescape term) notop

def searchText (term : Text) (notop : Bool) : Except Fault (Finset Text) := do
  let idc ← i.collection idx
  searchTextCollection lib idc.docs (unescape term) notop

def searchRange (field start stop : Text) (inclusive negated : Bool) : Except Fault (Finset Text) := do
  let idc ← i.collection idx
  searchRangeCollection idc.docs field start stop inclusive negated

def documents (d : Finset Text) : List (Text × IdxDoc) :=
  match i.idxmap.lookup idx with
  | some c => c.within d
  | none => []

def searchResults (term : Text) (notop : Bool) (d : Finset Text) : Except Fault (Finset Text) :=
  if term = everything then return if notop then ∅ else d
  else searchCollection lib (i.documents idx d) (unescape term) notop

def searchResultsRange (field start stop : Text) (inclusive negated : Bool) (d : Finset Text) :
    Except Fault (Finset Text) :=
  searchRangeCollection (i.documents idx d) field start stop inclusive negated

end FileIndex

end Goiardi.Search
