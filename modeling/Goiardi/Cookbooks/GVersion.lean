import Goiardi.Base.Text

/-! Versions and version constraints as the vendored `go-version` package parses and compares them. -/

namespace Goiardi.GVersion

open Text List Option

structure Version where
  metadata : Text
  pre : Text
  segments : List ℕ
  si : ℕ
deriving DecidableEq, Repr

def isIdent (c : Char) : Bool := c.isDigit || c.isAlpha || c = '-' || c = '~'

def isIdentStart (c : Char) : Bool := c.isAlpha || c = '-' || c = '~'

/-- The class `[0-9]+(\.[0-9]+)*` of the version expression: the segments read and the rest. -/
def scanSegments (segment : Text) : Text → Option (List Text × Text)
  | [] => if segment = [] then none else some ([segment], [])
  | c :: cs =>
    if c.isDigit then scanSegments (segment ++ [c]) cs
    else if segment = [] then none
    else if c = '.' ∧ cs.head?.any Char.isDigit then
      (scanSegments [] cs).map fun (segments, rest) => (segment :: segments, rest)
    else some ([segment], c :: cs)

def scanIdents : Text → Text × Text
  | [] => ([], [])
  | c :: cs =>
    if isIdent c || (c = '.' && cs.head?.any isIdent) then
      let (idents, rest) := scanIdents cs
      (c :: idents, rest)
    else ([], c :: cs)

def scanPrerelease : Text → Text × Text
  | '-' :: c :: cs => if isIdent c then scanIdents (c :: cs) else scanIdents ('-' :: c :: cs)
  | c :: cs => if isIdentStart c then scanIdents (c :: cs) else ([], c :: cs)
  | [] => ([], [])

def scanMetadata : Text → Text × Text
  | '+' :: c :: cs => if isIdent c then scanIdents (c :: cs) else ([], '+' :: c :: cs)
  | t => ([], t)

def parseSegment (t : Text) : Option ℕ :=
  let (n, ok) := parseInt t
  if ok then some n.toNat else none

def padSegments (segments : List ℕ) : List ℕ := segments ++ List.replicate (3 - segments.length) 0

def skipV : Text → Text
  | 'v' :: t => t
  | t => t

def scanVersion (t : Text) : Option (Version × Text) := do
  let (segmentsStr, rest) ← scanSegments [] (skipV t)
  let (pre, rest) := scanPrerelease rest
  let (metadata, rest) := scanMetadata rest
  let segments ← segmentsStr.mapM parseSegment
  return ({ metadata, pre, segments := padSegments segments, si := segments.length }, rest)

def newVersion (v : Text) : Option Version :=
  match scanVersion v with
  | some (version, []) => some version
  | _ => none

def Version.string (v : Version) : Text :=
  join ['.'] (v.segments.map formatNat) ++ (if v.pre = [] then [] else '-' :: v.pre) ++
    (if v.metadata = [] then [] else '+' :: v.metadata)

def allZero (segs : List ℕ) : Bool := segs.all (· = 0)

def comparePart (preSelf preOther : Text) : ℤ :=
  if preSelf = preOther then 0
  else
    let (selfInt, selfNumeric) := parseInt preSelf
    let (otherInt, otherNumeric) := parseInt preOther
    if preSelf = [] then (if otherNumeric then -1 else 1)
    else if preOther = [] then (if selfNumeric then 1 else -1)
    else if selfNumeric ∧ ¬ otherNumeric then -1
    else if ¬ selfNumeric ∧ otherNumeric then 1
    else if ¬ selfNumeric ∧ ¬ otherNumeric ∧ preOther < preSelf then 1
    else if otherInt < selfInt then 1
    else -1

def compareParts : List Text → List Text → ℤ
  | [], [] => 0
  | [], o :: os =>
    let compare := comparePart [] o
    if compare ≠ 0 then compare else compareParts [] os
  | s :: ss, [] =>
    let compare := comparePart s []
    if compare ≠ 0 then compare else compareParts ss []
  | s :: ss, o :: os =>
    let compare := comparePart s o
    if compare ≠ 0 then compare else compareParts ss os

def comparePrereleases (v other : Text) : ℤ :=
  if v = other then 0 else compareParts (v.splitOn '.') (other.splitOn '.')

def compareSegments : List ℕ → List ℕ → ℤ
  | [], segmentsOther => if allZero segmentsOther then 0 else -1
  | segmentsSelf, [] => if allZero segmentsSelf then 0 else 1
  | lhs :: segmentsSelf, rhs :: segmentsOther =>
    if lhs = rhs then compareSegments segmentsSelf segmentsOther else if lhs < rhs then -1 else 1

def Version.compare (v other : Version) : ℤ :=
  if v.string = other.string then 0
  else if v.segments = other.segments then
    if v.pre = [] ∧ other.pre = [] then 0
    else if v.pre = [] then 1
    else if other.pre = [] then -1
    else comparePrereleases v.pre other.pre
  else compareSegments v.segments other.segments

def prereleaseCheck (v c : Version) : Bool :=
  if c.pre ≠ [] ∧ v.pre ≠ [] then c.segments = v.segments
  else if c.pre = [] ∧ v.pre ≠ [] then false
  else true

inductive ConstraintFunc
  | equal
  | notEqual
  | greaterThan
  | lessThan
  | greaterThanEqual
  | lessThanEqual
  | pessimistic
deriving DecidableEq, Repr

/-- Neither index of the source can be out of range: `c.si` is at most the length of `c.segments`. -/
def constraintPessimistic (v c : Version) : Bool :=
  if ¬ prereleaseCheck v c ∨ (c.pre ≠ [] ∧ v.pre = []) then false
  else if v.compare c < 0 then false
  else if v.segments.length < c.segments.length then false
  else if v.segments.take (c.si - 1) ≠ c.segments.take (c.si - 1) then false
  else ¬ (v.segments.getD (c.segments.length - 1) 0 < c.segments.getD (c.segments.length - 1) 0)

def ConstraintFunc.eval : ConstraintFunc → Version → Version → Bool
  | .equal, v, c => v.compare c = 0
  | .notEqual, v, c => v.compare c ≠ 0
  | .greaterThan, v, c => prereleaseCheck v c && v.compare c = 1
  | .lessThan, v, c => prereleaseCheck v c && v.compare c = -1
  | .greaterThanEqual, v, c => prereleaseCheck v c && 0 ≤ v.compare c
  | .lessThanEqual, v, c => prereleaseCheck v c && v.compare c ≤ 0
  | .pessimistic, v, c => constraintPessimistic v c

structure Constraint where
  f : ConstraintFunc
  check : Version
  original : Text
deriving DecidableEq, Repr

/-- `Check` on a version that `newVersion` could not read dereferences a nil pointer. -/
def Constraint.Check (cs : Constraint) : Option Version → Except Panic Bool
  | none => .error .nilPointer
  | some v => .ok (cs.f.eval v cs.check)

def scanOperator : Text → ConstraintFunc × Text
  | '>' :: '=' :: t => (.greaterThanEqual, t)
  | '<' :: '=' :: t => (.lessThanEqual, t)
  | '!' :: '=' :: t => (.notEqual, t)
  | '~' :: '>' :: t => (.pessimistic, t)
  | '=' :: t => (.equal, t)
  | '>' :: t => (.greaterThan, t)
  | '<' :: t => (.lessThan, t)
  | t => (.equal, t)

def parseSingle (v : Text) : Option Constraint := do
  let (f, rest) := scanOperator (v.dropWhile isSpace)
  let (check, rest) ← scanVersion (rest.dropWhile isSpace)
  if rest.all isSpace then return { f, check, original := v } else none

def newConstraint (v : Text) : Option (List Constraint) := (v.splitOn ',').mapM parseSingle

/-- The constraints a text contributes: none when `newConstraint` reports an error. -/
def constraints (v : Text) : List Constraint := (newConstraint v).getD []

variable {x : Constraint} {c : Text} {t : Text} {w : Version}

lemma parseSingle_original {v : Text} (h : parseSingle v = some x) : x.original = v := by
  unfold parseSingle at h
  simp only [bind_eq_bind, bind_eq_some_iff] at h
  obtain ⟨p, -, h⟩ := h
  split at h
  · rw [← some.inj h]
  · simp at h

lemma newConstraint_of_not_mem (hc : ',' ∉ c) : newConstraint c = (parseSingle c).map ([·]) := by
  rw [newConstraint, splitOn_eq_singleton_iff.mpr ⟨hc, rfl⟩]
  cases h : parseSingle c <;> simp [mapM_cons, h]

lemma constraints_original (hx : x ∈ constraints c) : newConstraint x.original = some [x] := by
  cases h : newConstraint c with
  | none => simp [constraints, h] at hx
  | some l =>
    obtain ⟨part, hp, hf⟩ := forall₂_mem_right (mapM_eq_some_iff.mp h) (by simpa [constraints, h] using hx)
    rw [parseSingle_original hf, newConstraint_of_not_mem (not_mem_of_mem_splitOn hp), hf]
    rfl

lemma newConstraint_single : newConstraint c = some [x] ↔ ',' ∉ c ∧ parseSingle c = some x := by
  constructor
  · intro h
    have hf := mapM_eq_some_iff.mp h
    cases hs : c.splitOn ',' with
    | nil => exact absurd hs (splitOn_ne_nil _ _)
    | cons part parts =>
      rw [hs] at hf
      cases hf with
      | cons hp hn =>
        cases hn
        obtain ⟨hc, rfl⟩ := splitOn_eq_singleton_iff.mp hs
        exact ⟨hc, hp⟩
  · rintro ⟨hc, hp⟩
    simp [newConstraint_of_not_mem hc, hp]

lemma scanSegments_rest {segment t rest : Text} {segments : List Text}
    (h : scanSegments segment t = some (segments, rest)) : rest <:+ t := by
  induction t generalizing segment segments with
  | nil =>
    simp only [scanSegments] at h
    split at h <;> simp_all
  | cons c cs ih =>
    simp only [scanSegments] at h
    split at h
    · exact (ih h).trans (suffix_cons c cs)
    · split at h
      · simp at h
      · split at h
        · obtain ⟨p, hp, he⟩ := map_eq_some_iff.mp h
          obtain ⟨-, rfl⟩ := Prod.mk.inj he
          exact (ih hp).trans (suffix_cons c cs)
        · obtain ⟨-, rfl⟩ := Prod.mk.inj (some.inj h)
          exact suffix_rfl

lemma skipV_suffix (t : Text) : skipV t <:+ t := by
  unfold skipV
  split
  · exact suffix_cons _ _
  · exact suffix_rfl

lemma newVersion_eq_some (h : newVersion t = some w) : scanVersion t = some (w, []) := by
  unfold newVersion at h
  split at h
  next hs => rw [hs, some.inj h]
  next => simp at h

lemma newVersion_pre (ht : t.all isNumberChar = true) (h : newVersion t = some w) : w.pre = [] := by
  have hs := newVersion_eq_some h
  simp only [scanVersion, bind_eq_bind, bind_eq_some_iff] at hs
  obtain ⟨⟨segments, rest⟩, hsg, segs, -, hw⟩ := hs
  have hsf := (scanSegments_rest hsg).trans (skipV_suffix t)
  have hp : scanPrerelease rest = ([], rest) := by
    cases rest with
    | nil => rfl
    | cons c cs =>
      have hc := isNumberChar_iff.mp (all_eq_true.mp ht c (hsf.subset mem_cons_self))
      have hch : ∀ c ∈ ['0', '1', '2', '3', '4', '5', '6', '7', '8', '9', '.'],
        isIdentStart c = false ∧ c ≠ '-' := by decide
      obtain ⟨hst, hd⟩ := hch c hc
      unfold scanPrerelease
      split
      next he => exact absurd (List.cons.inj he).1 hd
      next he =>
        obtain ⟨rfl, rfl⟩ := List.cons.inj he
        simp [hst]
      next he => simp at he
  rw [← (Prod.mk.inj (some.inj hw)).1, hp]

lemma newConstraint_pin (ht : t.all isNumberChar = true) (h : newVersion t = some w) :
    newConstraint ('=' :: ' ' :: t) = some [⟨.equal, w, '=' :: ' ' :: t⟩] := by
  have hch : ∀ c ∈ ['0', '1', '2', '3', '4', '5', '6', '7', '8', '9', '.'], c ≠ ',' ∧ isSpace c = false := by
    decide
  have ha : ∀ c ∈ t, c ≠ ',' ∧ isSpace c = false := fun c hc =>
    hch c (isNumberChar_iff.mp (all_eq_true.mp ht c hc))
  have hs : (' ' :: t).dropWhile isSpace = t := by
    have hd : t.dropWhile isSpace = t := by
      rw [dropWhile_eq_self_iff]
      intro hl
      simpa using (ha _ (getElem_mem hl)).2
    exact hd
  refine newConstraint_single.mpr ⟨by simpa using fun hc => (ha _ hc).1 rfl, ?_⟩
  have hop : scanOperator (('=' :: ' ' :: t).dropWhile isSpace) = (.equal, ' ' :: t) := rfl
  simp only [parseSingle, hop, hs, newVersion_eq_some h, bind_eq_bind, bind_some]
  rfl

end Goiardi.GVersion
