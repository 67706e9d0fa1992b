import Goiardi.Base.Text

/-! The validators a cookbook version passes when it is uploaded. -/

namespace Goiardi.Validation

open Text

inductive Json
  | null
  | bool (b : Bool)
  | num (literal : Text)
  | str (t : Text)
  | arr (elems : List Json)
  | obj (members : List (Text × Json))

abbrev JsonMap := List (Text × Json)

def lookupField (m : JsonMap) (k : Text) : Json := (m.lookup k).getD .null

def setField (m : JsonMap) (k : Text) (j : Json) : JsonMap := (k, j) :: m.filter (fun p => p.1 ≠ k)

lemma lookupField_setField (m : JsonMap) (k : Text) (j : Json) : lookupField (setField m k j) k = j := by
  simp [lookupField, setField]

lemma lookupField_setField_ne (m : JsonMap) {k k' : Text} (j : Json) (h : k' ≠ k) : lookupField (setField m k j) k' = lookupField m k' := by
  have hk : (k' == k) = false := by simpa using h
  have hl := lookup_filter_ne m h
  simp only [lookupField, setField, List.lookup_cons, hk, hl]

def validateName (name : Text) : Bool :=
  name.all fun c => c.isAlphanum || c = '_' || c = '.' || c = '-'

lemma validateName_a : validateName "a" = true := by decide

lemma validateName_b : validateName "b" = true := by decide

def parseIntError (t : Text) : Text :=
  "strconv.ParseInt: parsing \"" ++ t ++ "\": value out of range"

def invalidVersion : Text := "Invalid version number"

def invalidConstraint : Text := "Invalid constraint"

def zeroVersion : Text := "0.0"

/-- The groups of `^(\d+)\.(\d+)(\.?)(\d+)?$` that hold numbers, when the text matches. -/
def versionNumbers (ver : Text) : Option (List Text) :=
  let (major, rest) := span Char.isDigit ver
  match major, rest with
  | _ :: _, '.' :: rest =>
    let (minor, rest) := span Char.isDigit rest
    match minor, rest with
    | _ :: _, [] => some [major, minor]
    | _ :: _, '.' :: patch =>
      if patch.all Char.isDigit then some (if patch = [] then [major, minor] else [major, minor, patch]) else none
    | _, _ => none
  | _, _ => none

def validateNumbers (ver : Text) : List Text → Except Text Text
  | [] => .ok ver
  | n :: ns =>
    let (v, ok) := parseInt n
    if ¬ ok then .error (parseIntError n)
    else if v < 0 then .error invalidVersion
    else validateNumbers ver ns

def validateAsVersion : Json → Except Text Text
  | .str ver =>
    match versionNumbers ver with
    | some nums => if ver ≠ zeroVersion then validateNumbers ver nums else .error invalidVersion
    | none => .error invalidVersion
  | .null => .ok "0.0.0"
  | _ => .error invalidVersion

def isConstraintChar (c : Char) : Bool := c = '<' || c = '>' || c = '=' || c = '~'

/-- The second group of `^([<>=~]{1,2}) (.*)`, which stops at a line break. -/
def constraintItem : Text → Option Text
  | a :: ' ' :: ver => if isConstraintChar a then some (ver.takeWhile (· ≠ '\n')) else none
  | a :: b :: ' ' :: ver =>
    if isConstraintChar a ∧ isConstraintChar b then some (ver.takeWhile (· ≠ '\n')) else none
  | _ => none

def validateAsConstraint : Json → Except Text Bool
  | .str t =>
    match constraintItem t with
    | some ver => (validateAsVersion (.str ver)).map fun _ => true
    | none => .error invalidConstraint
  | _ => .error invalidConstraint

mutual

/-- Go's `%v` of a decoded JSON value. -/
def sprint : Json → Text
  | .null => "<nil>"
  | .bool b => (toString b).toList
  | .num literal => literal
  | .str t => t
  | .arr elems => "[" ++ join [' '] (sprintElems elems) ++ "]"
  | .obj members => "map[" ++ join [' '] (sprintMembers members) ++ "]"

def sprintElems : List Json → List Text
  | [] => []
  | j :: js => sprint j :: sprintElems js

def sprintMembers : List (Text × Json) → List Text
  | [] => []
  | (k, j) :: ms => (k ++ ':' :: sprint j) :: sprintMembers ms

end

def nameField : Text := "name"

def versionField : Text := "version"

def longDescriptionField : Text := "long_description"

def dependenciesField : Text := "dependencies"

def groupingsField : Text := "groupings"

def fieldInvalid (v : Text) : Text := "Field 'metadata." ++ v ++ "' invalid"

def fieldMissing (v : Text) : Text := "Field 'metadata." ++ v ++ "' missing"

def valueInvalid (s v : Text) : Text :=
  "Invalid value '" ++ s ++ "' for metadata." ++ v

def badMetadata : Text := "bad metadata: chng msg"

def emptyHash : Text := "\x7b[]\x7d"

def checkVersion (mdata : JsonMap) : Except Text Unit :=
  match mdata.lookup versionField with
  | some (.str mv) =>
    match validateAsVersion (.str mv) with
    | .ok _ => .ok ()
    | .error _ => .error (fieldInvalid versionField)
  | some .null => .ok ()
  | some _ => .error (fieldInvalid versionField)
  | none => .error (fieldMissing versionField)

def checkString (mdata : JsonMap) (v : Text) : Except Text JsonMap :=
  match lookupField mdata v with
  | .str sv => if v = nameField ∧ ¬ validateName sv then .error (fieldInvalid v) else .ok mdata
  | .null => .ok (if v = longDescriptionField then setField mdata v (.str []) else mdata)
  | _ => .error (fieldInvalid v)

def checkHashValue (v : Text) : Json → Except Text Unit
  | .str s =>
    match validateAsConstraint (.str s), validateAsVersion (.str s) with
    | .ok _, _ => .ok ()
    | .error _, .ok _ => .ok ()
    | .error _, .error _ => .error (valueInvalid s v)
  | .obj _ => if v ≠ groupingsField then .error (valueInvalid emptyHash v) else .ok ()
  | j => .error (valueInvalid (sprint j) v)

def checkHash (mdata : JsonMap) (v : Text) : Except Text JsonMap :=
  match lookupField mdata v with
  | .obj hv => (hv.forM fun p => checkHashValue v p.2).map fun _ => mdata
  | .null => .ok (if v = dependenciesField then setField mdata v (.obj []) else mdata)
  | _ => .error (fieldInvalid v)

def strchk : List Text :=
  ["maintainer", nameField, "description", "maintainer_email",
    longDescriptionField, "license"]

def hashchk : List Text :=
  ["platforms", dependenciesField, "recommendations", "suggestions",
    "conflicting", "replacing", groupingsField]

def validateCookbookMetadata : Json → Except Text JsonMap
  | .obj mdata =>
    if mdata.isEmpty then .error (fieldMissing versionField)
    else do
      checkVersion mdata
      let mdata ← strchk.foldlM checkString mdata
      hashchk.foldlM checkHash mdata
  | _ => .error badMetadata

def AcceptedVersion (s : Text) : Prop := ∃ v, validateAsVersion (.str s) = .ok v

variable {t : Text} {v : Text} {j : Json} {m m' : JsonMap} {vs : List Text} {nums : List Text}

lemma AcceptedVersion.ne_nil (h : AcceptedVersion t) : t ≠ [] := by
  rintro rfl
  obtain ⟨v, hv⟩ := h
  cases hv

def AcceptedConstraint (s : Text) : Prop :=
  (∃ b, validateAsConstraint (.str s) = .ok b) ∨ AcceptedVersion s

structure DependencyMap (mdata : JsonMap) (deps : JsonMap) : Prop where
  field : lookupField mdata dependenciesField = .obj deps
  accepted : ∀ p ∈ deps, ∃ s, p.2 = .str s ∧ AcceptedConstraint s

lemma checkHashValue_str (hv : v ≠ groupingsField)
    (h : checkHashValue v j = .ok ()) : ∃ s, j = .str s ∧ AcceptedConstraint s := by
  cases j with
  | str s =>
    refine ⟨s, rfl, ?_⟩
    simp only [checkHashValue] at h
    split at h
    next b hb => exact Or.inl ⟨_, hb⟩
    next w _ hw => exact Or.inr ⟨_, hw⟩
    next => simp at h
  | obj ms => simp [checkHashValue, hv] at h
  | _ => simp [checkHashValue] at h

lemma checkHash_dependencies (h : checkHash m dependenciesField = .ok m') : ∃ deps, DependencyMap m' deps := by
  unfold checkHash at h
  split at h
  next hv hg =>
    obtain ⟨u, hf, rfl⟩ := map_eq_ok h
    exact ⟨hv, hg, fun p hp => checkHashValue_str (by decide) (forM_eq_ok hf p hp)⟩
  next hg =>
    rw [if_pos rfl, Except.ok.injEq] at h
    subst h
    exact ⟨[], lookupField_setField _ _ _, by simp⟩
  next => simp at h

lemma checkHash_other (hv : v ≠ dependenciesField) (h : checkHash m v = .ok m') : m' = m := by
  unfold checkHash at h
  split at h
  next ms _ =>
    obtain ⟨u, -, rfl⟩ := map_eq_ok h
    rfl
  next =>
    rw [if_neg hv, Except.ok.injEq] at h
    exact h.symm
  next => simp at h

lemma foldlM_checkHash_other (hv : dependenciesField ∉ vs) (h : vs.foldlM checkHash m = .ok m') : m' = m := by
  induction vs generalizing m with
  | nil => exact (Except.ok.inj h).symm
  | cons v vs ih =>
    simp only [List.mem_cons, not_or] at hv
    obtain ⟨n, hc, hn⟩ := bind_eq_ok (x := checkHash m v) h
    rw [ih hv.2 hn, checkHash_other (Ne.symm hv.1) hc]

theorem validateCookbookMetadata_dependencies {m : JsonMap}
    (h : validateCookbookMetadata j = .ok m) : ∃ deps, DependencyMap m deps := by
  cases j with
  | obj mdata =>
    simp only [validateCookbookMetadata] at h
    split at h
    · simp at h
    · obtain ⟨u, -, h⟩ := bind_eq_ok h
      obtain ⟨m₁, -, h⟩ := bind_eq_ok h
      obtain ⟨m₂, -, h⟩ := bind_eq_ok (x := checkHash m₁ _) h
      obtain ⟨m₃, hd, h⟩ := bind_eq_ok (x := checkHash m₂ _) h
      rw [foldlM_checkHash_other (by decide) h]
      exact checkHash_dependencies hd
  | _ => simp [validateCookbookMetadata] at h

def plainMetadata (version : Text) (deps : List (Text × Text)) : JsonMap :=
  [(longDescriptionField, .str []), (versionField, .str version),
    (dependenciesField, .obj (deps.map fun d => (d.1, .str d.2)))]

lemma validateNumbers_eq {ver v : Text} (h : validateNumbers ver nums = .ok v) : v = ver := by
  induction nums with
  | nil => exact (Except.ok.inj h).symm
  | cons n nums ih =>
    rw [validateNumbers] at h
    simp only at h
    split at h
    · cases h
    · split at h
      · cases h
      · exact ih h

lemma validateAsVersion_str {t v : Text} (h : validateAsVersion (.str t) = .ok v) : v = t := by
  simp only [validateAsVersion] at h
  split at h
  · split at h
    · exact validateNumbers_eq h
    · cases h
  · cases h

lemma versionNumbers_chars (h : versionNumbers t = some nums) : t.all isNumberChar = true := by
  simp only [versionNumbers, span] at h
  rw [all_isNumberChar_dropWhile]
  split at h
  next rest h₁ h₂ =>
    rw [h₂, List.all_cons, all_isNumberChar_dropWhile]
    split at h
    next h₃ h₄ =>
      rw [h₄]
      rfl
    next patch h₃ h₄ =>
      split at h
      next hp =>
        have hpt : patch.all isNumberChar = true := by
          rw [List.all_eq_true] at hp ⊢
          intro c hc
          simp [isNumberChar, hp c hc]
        rw [h₄, List.all_cons, hpt]
        rfl
      next => simp at h
    next => simp at h
  next => simp at h

lemma AcceptedVersion.chars (h : AcceptedVersion t) : t.all isNumberChar = true := by
  obtain ⟨v, hv⟩ := h
  simp only [validateAsVersion] at hv
  split at hv
  next nums hn => exact versionNumbers_chars hn
  next => simp at hv

end Goiardi.Validation
