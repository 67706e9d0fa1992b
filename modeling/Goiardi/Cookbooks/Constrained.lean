import Goiardi.Objects.Records

/-! The three readings of a version constraint: `LatestConstrained`, `ConstrainedInfoHash` and the library's choice.
They choose the same version exactly if each version that they judge differently is older than one that passes both. -/

namespace Goiardi.Cookbooks

open GVersion Validation List
open Objects (ChefEnvironment)

section

inductive Action
  | ok
  | skip
  | breakOff
  | invalid
deriving DecidableEq

def increment (n : ℤ) : ℤ := (Int64.ofInt n + 1).toInt

def upperBound (verB : Text) : Text :=
  let pv := verB.splitOn '.'
  if pv.length = 3 then pv.getD 0 [] ++ '.' :: Text.formatInt (increment (atoi (pv.getD 1 [])))
  else Text.formatInt (increment (atoi (pv.getD 0 []))) ++ ".0"

def verConstraintCheck (verA verB op : Text) : Action :=
  if op = "=" then
    if verA = verB then .ok else if versionLess verA verB then .breakOff else .skip
  else if op = ">" then if verA = verB ∨ versionLess verA verB then .breakOff else .ok
  else if op = "<" then if verA = verB ∨ ¬ versionLess verA verB then .skip else .ok
  else if op = ">=" then if ¬ versionLess verA verB then .ok else .breakOff
  else if op = "<=" then if verA = verB ∨ versionLess verA verB then .ok else .skip
  else if op = "~>" then
    if versionLess verA verB then .breakOff
    else if ¬ versionLess verA verB ∧ versionLess verA (upperBound verB) then .ok
    else .skip
  else .invalid

def traints (constraint : Text) : Option (Text × Text) :=
  match constraint.splitOn ' ' with
  | [op, ver] => some (op, ver)
  | _ => none

def Cookbook.latestConstrained (c : Cookbook) (constraint : Text) : Except Panic (Option CookbookVersion) :=
  if constraint = [] then some <$> c.latestVersion
  else
    match traints constraint with
    | none => .ok none
    | some (op, ver) => .ok (c.sortedVersions.find? fun cv => verConstraintCheck cv.version ver op = .ok)

structure InfoHash where
  url : Text
  versions : List (Text × Text)
deriving DecidableEq

variable (baseURL : Text)

def Cookbook.objURL (c : Cookbook) : Text := baseURL ++ "/cookbooks/" ++ c.name

-- the first character of the path is looked at, so that the empty path is a panic
def Cookbook.customObjURL (c : Cookbook) : Text → Except Panic Text
  | [] => .error .indexOutOfRange
  | '/' :: path => .ok (c.objURL baseURL ++ '/' :: path)
  | path => .ok (c.objURL baseURL ++ '/' :: path)

def Cookbook.infoLoop (c : Cookbook) (numVersions : Option ℤ) (check : Text → Action) :
    ℤ → List CookbookVersion → Except Panic (List (Text × Text))
  | _, [] => .ok []
  | nr, cv :: rest =>
    if numVersions.any (· ≤ nr) then .ok []
    else
      match check cv.version with
      | .skip => c.infoLoop numVersions check nr rest
      | .breakOff => .ok []
      | .ok | .invalid => do
        let url ← c.customObjURL baseURL cv.version
        let versions ← c.infoLoop numVersions check (nr + 1) rest
        return (url, cv.version) :: versions

def numVersionsOf (numResults : Text) : Option ℤ :=
  if numResults ≠ [] ∧ numResults ≠ "all" then some (atoi numResults)
  else if numResults = [] then some 1
  else none

def Cookbook.constrainedInfoHash (c : Cookbook) (numResults constraint : Text) : Except Panic (Option InfoHash) := do
  let numVersions := numVersionsOf numResults
  if constraint = [] then
    let versions ← c.infoLoop baseURL numVersions (fun _ => .ok) 0 c.sortedVersions
    return some ⟨c.objURL baseURL, versions⟩
  else
    match traints constraint with
    | none => return none
    | some (op, ver) =>
      let versions ← c.infoLoop baseURL numVersions (fun v => verConstraintCheck v ver op) 0 c.sortedVersions
      return some ⟨c.objURL baseURL, versions⟩

def listed (h : Option InfoHash) : List Text := h.elim [] fun h => h.versions.map Prod.snd

end

section

variable {α : Type}

def firstListed (act : α → Action) : List α → Option α
  | [] => none
  | v :: vs =>
    match act v with
    | .skip => firstListed act vs
    | .breakOff => none
    | .ok | .invalid => some v

def firstPassing (test : α → Except Panic Bool) : List α → Except Panic (Option α)
  | [] => .ok none
  | v :: vs => do
    if ← test v then return some v else firstPassing test vs

def Shielded (clear : α → Prop) (doubtful : α → List α → Prop) (vs : List α) : Prop :=
  ∀ l v r, vs = l ++ v :: r → doubtful v r → ∃ w ∈ l, clear w

lemma shielded_cons {clear : α → Prop} {doubtful : α → List α → Prop} {v : α} {r : List α} :
    Shielded clear doubtful (v :: r) ↔ ¬ doubtful v r ∧ (clear v ∨ Shielded clear doubtful r) := by
  constructor
  · intro h
    refine ⟨fun hd => ?_, ?_⟩
    · obtain ⟨w, hw, -⟩ := h [] v r rfl hd
      cases hw
    · by_cases hv : clear v
      · exact .inl hv
      · refine .inr fun l w r' hr hd => ?_
        obtain ⟨u, hu, hc⟩ := h (v :: l) w r' (by rw [hr]; rfl) hd
        rcases mem_cons.mp hu with rfl | hu
        · exact absurd hc hv
        · exact ⟨u, hu, hc⟩
  · rintro ⟨hd, h⟩ l w r' hr hdb
    cases l with
    | nil =>
      cases hr
      exact absurd hdb hd
    | cons u l =>
      cases hr
      rcases h with hc | h
      · exact ⟨v, .head _, hc⟩
      · obtain ⟨u, hu, hc⟩ := h l w r' rfl hdb
        exact ⟨u, .tail _ hu, hc⟩

variable (act : α → Action) (test : α → Except Panic Bool)

def Doubtful (v : α) (rest : List α) : Prop :=
  act v = .invalid ∨ (act v = .breakOff ∧ ∃ w ∈ rest, act w = .ok) ∨ test v ≠ .ok (decide (act v = .ok))

def Clear (v : α) : Prop := act v = .ok ∧ test v = .ok true

def Same (vs : List α) : Prop :=
  ∃ r, vs.find? (fun v => act v = .ok) = r ∧ firstListed act vs = r ∧ firstPassing test vs = .ok r

variable {act test} {v : α} {vs : List α}

lemma find?_eq_none_of (h : ∀ w ∈ vs, act w ≠ .ok) : vs.find? (fun v => act v = .ok) = none :=
  List.find?_eq_none.mpr fun w hw => by simpa using h w hw

lemma firstListed_eq_none_of (hi : ∀ w, act w ≠ .invalid) (h : ∀ w ∈ vs, act w ≠ .ok) : firstListed act vs = none := by
  induction vs with
  | nil => rfl
  | cons v vs ih =>
    rw [firstListed]
    cases hv : act v with
    | ok => exact absurd hv (h v (.head _))
    | skip => exact ih fun w hw => h w (.tail _ hw)
    | breakOff => rfl
    | invalid => exact absurd hv (hi v)

lemma firstPassing_of_true (h : test v = .ok true) : firstPassing test (v :: vs) = .ok (some v) := by
  rw [firstPassing, h]
  rfl

lemma firstPassing_of_false (h : test v = .ok false) : firstPassing test (v :: vs) = firstPassing test vs := by
  rw [firstPassing, h]
  rfl

lemma find?_cons_ne (h : act v ≠ .ok) : (v :: vs).find? (fun v => act v = .ok) = vs.find? fun v => act v = .ok :=
  List.find?_cons_of_neg (by simpa using h)

lemma same_cons_of_skip (h : act v = .skip) (ht : test v = .ok false) : Same act test (v :: vs) ↔ Same act test vs := by
  have hl : firstListed act (v :: vs) = firstListed act vs := by rw [firstListed, h]
  rw [Same, Same, find?_cons_ne (by rw [h]; decide), hl, firstPassing_of_false ht]

lemma same_cons_of_breakOff (hi : ∀ w, act w ≠ .invalid) (h : act v = .breakOff) (ht : test v = .ok false) :
    Same act test (v :: vs) ↔ (∀ w ∈ vs, act w ≠ .ok) ∧ Same act test vs := by
  have hl : firstListed act (v :: vs) = none := by rw [firstListed, h]
  rw [Same, find?_cons_ne (by rw [h]; decide), hl, firstPassing_of_false ht]
  constructor
  · rintro ⟨r, hf, rfl, hp⟩
    have hn : ∀ w ∈ vs, act w ≠ .ok := fun w hw => by simpa using List.find?_eq_none.mp hf w hw
    exact ⟨hn, none, hf, firstListed_eq_none_of hi hn, hp⟩
  · rintro ⟨hn, r, hf, -, hp⟩
    rw [find?_eq_none_of hn] at hf
    subst hf
    exact ⟨none, find?_eq_none_of hn, rfl, hp⟩

lemma firstPassing_some {w : α} (h : firstPassing test vs = .ok (some w)) : test w = .ok true := by
  induction vs with
  | nil => cases h
  | cons v vs ih =>
    obtain ⟨b, hb, h⟩ := bind_eq_ok h
    cases b with
    | true =>
      cases h
      exact hb
    | false => exact ih h

lemma mem_of_firstListed {w : α} (h : firstListed act vs = some w) : w ∈ vs := by
  induction vs with
  | nil => cases h
  | cons v vs ih =>
    unfold firstListed at h
    cases hv : act v <;> rw [hv] at h
    case skip => exact .tail _ (ih h)
    case breakOff => cases h
    all_goals
      cases h
      exact .head _

lemma not_same_of_doubtful (h : act v = .invalid ∨ test v ≠ .ok (decide (act v = .ok))) :
    ¬ Same act test (v :: vs) := by
  rintro ⟨r, hf, hl, hp⟩
  have hbt : r = some v → act v = .ok ∧ test v = .ok true := by
    rintro rfl
    exact ⟨by simpa using List.find?_some hf, firstPassing_some hp⟩
  have hn : r ≠ some v := by
    intro hr
    obtain ⟨ha, ht⟩ := hbt hr
    simp [ha, ht] at h
  by_cases ha : act v = .ok
  · rw [List.find?_cons_of_pos (by simpa using ha)] at hf
    exact hn hf.symm
  · rcases h with h | h
    · rw [firstListed, h] at hl
      exact hn hl.symm
    · obtain ⟨b, hb, -⟩ := bind_eq_ok hp
      rw [decide_eq_false ha] at h
      cases b with
      | false => exact h hb
      | true =>
        rw [firstPassing_of_true hb] at hp
        exact hn (Except.ok.inj hp).symm

theorem same_iff_shielded (hop : (∀ w, act w = .invalid) ∨ ∀ w, act w ≠ .invalid) (vs : List α) :
    Same act test vs ↔ Shielded (Clear act test) (Doubtful act test) vs := by
  induction vs with
  | nil => exact ⟨fun _ _ _ _ h => by simp at h, fun _ => ⟨none, rfl, rfl, rfl⟩⟩
  | cons v vs ih =>
    rw [shielded_cons]
    by_cases hh : act v = .invalid ∨ test v ≠ .ok (decide (act v = .ok))
    · refine iff_of_false (not_same_of_doubtful hh) fun h => h.1 ?_
      rcases hh with h | h
      · exact .inl h
      · exact .inr (.inr h)
    · obtain ⟨hne, ht⟩ := not_or.mp hh
      rw [not_not] at ht
      have hi := hop.resolve_left fun h => hne (h v)
      have hd : Doubtful act test v vs ↔ act v = .breakOff ∧ ∃ w ∈ vs, act w = .ok := by
        rw [Doubtful]
        simp [hne, ht]
      rw [hd]
      cases hv : act v with
      | invalid => exact absurd hv hne
      | ok =>
        rw [hv] at ht
        have hs : Same act test (v :: vs) := by
          refine ⟨some v, List.find?_cons_of_pos (by simpa using hv), ?_, firstPassing_of_true ht⟩
          rw [firstListed, hv]
        exact iff_of_true hs ⟨fun h => (nomatch h.1), .inl ⟨hv, ht⟩⟩
      | skip =>
        rw [hv] at ht
        rw [same_cons_of_skip hv ht, ih]
        have hc : ¬ Clear act test v := fun h => by simp [h.1] at hv
        exact ⟨fun h => ⟨fun h => (nomatch h.1), .inr h⟩, fun h => h.2.resolve_left hc⟩
      | breakOff =>
        rw [hv] at ht
        rw [same_cons_of_breakOff hi hv ht, ih]
        have hc : ¬ Clear act test v := fun h => by simp [h.1] at hv
        constructor
        · rintro ⟨hn, h⟩
          exact ⟨fun ⟨_, w, hw, hok⟩ => hn w hw hok, .inr h⟩
        · rintro ⟨hn, h⟩
          exact ⟨fun w hw hok => hn ⟨rfl, w, hw, hok⟩, h.resolve_left hc⟩

end

section

variable (constraint : Text)

/-- What `verConstraintCheck` says of a version. A constraint that has not two parts passes over all of them. -/
def verdict (v : CookbookVersion) : Action :=
  match traints constraint with
  | none => .skip
  | some (op, ver) => verConstraintCheck v.version ver op

def judgement (v : CookbookVersion) : Except Panic Bool :=
  match constraints constraint with
  | [] => .ok true
  | cs :: _ => cs.Check (newVersion v.version)

def operators : List Text := ["=", ">", "<", ">=", "<=", "~>"].map String.toList

lemma verConstraintCheck_invalid {v ver op : Text} (hop : op ∉ operators) : verConstraintCheck v ver op = .invalid := by
  simp only [operators, map_cons, map_nil, mem_cons, not_mem_nil, or_false, not_or] at hop
  obtain ⟨h₁, h₂, h₃, h₄, h₅, h₆⟩ := hop
  simp only [verConstraintCheck, if_neg h₁, if_neg h₂, if_neg h₃, if_neg h₄, if_neg h₅, if_neg h₆]

lemma verConstraintCheck_ne_invalid {v ver op : Text} (hop : op ∈ operators) :
    verConstraintCheck v ver op ≠ .invalid := by
  simp only [operators, map_cons, map_nil, mem_cons, not_mem_nil, or_false] at hop
  unfold verConstraintCheck
  rcases hop with rfl | rfl | rfl | rfl | rfl | rfl <;> split_ifs <;>
    first | decide | contradiction

lemma verdict_invalid : (∀ v, verdict constraint v = .invalid) ∨ ∀ v, verdict constraint v ≠ .invalid := by
  unfold verdict
  cases traints constraint with
  | none => exact .inr fun _ => nofun
  | some t =>
    obtain ⟨op, ver⟩ := t
    by_cases hop : op ∈ operators
    · exact .inr fun v => verConstraintCheck_ne_invalid hop
    · exact .inl fun v => verConstraintCheck_invalid hop

variable {constraint} {c : Cookbook} {baseURL : Text}

lemma latestConstrained_eq (hs : constraint ≠ []) :
    c.latestConstrained constraint = .ok (c.sortedVersions.find? fun v => verdict constraint v = .ok) := by
  unfold Cookbook.latestConstrained verdict
  rw [if_neg hs]
  cases traints constraint with
  | none =>
    refine congrArg Except.ok (Eq.symm (List.find?_eq_none.mpr fun _ _ => ?_))
    simp
  | some t => rfl

lemma latestMultiConstraint_eq (hne : constraints constraint = [] → c.versions ≠ []) :
    c.latestMultiConstraint (constraints constraint) = firstPassing (judgement constraint) c.sortedVersions := by
  unfold Cookbook.latestMultiConstraint judgement
  cases hcs : constraints constraint with
  | nil =>
    rw [if_pos rfl, Cookbook.latestVersion]
    cases hs : c.sortedVersions with
    | nil =>
      have hp : c.sortedVersions.Perm c.versions := perm_insertionSort _ _
      rw [hs] at hp
      exact absurd hp.nil_eq.symm (hne hcs)
    | cons v vs => rfl
  | cons cs rest =>
    rw [if_neg (by simp)]
    generalize c.sortedVersions = vs
    induction vs with
    | nil => rfl
    | cons v vs ih =>
      rw [verLoop, firstPassing, ih]

lemma infoLoop_one (c : Cookbook) (baseURL : Text) (check : Text → Action) {vs : List CookbookVersion}
    (hvs : ∀ v ∈ vs, v.version ≠ []) : ∃ l, c.infoLoop baseURL (some 1) check 0 vs = .ok l ∧
      l.map Prod.snd = ((firstListed (fun v => check v.version) vs).map CookbookVersion.version).toList := by
  induction vs with
  | nil => exact ⟨[], rfl, rfl⟩
  | cons v vs ih =>
    obtain ⟨l, hl, hls⟩ := ih fun w hw => hvs w (.tail _ hw)
    have hz : ¬ (some (1 : ℤ)).any (· ≤ 0) = true := by decide
    have ho : ∀ ws, c.infoLoop baseURL (some 1) check (0 + 1) ws = .ok [] := by
      intro ws
      cases ws with
      | nil => rfl
      | cons w ws => rw [Cookbook.infoLoop, if_pos (by decide)]
    obtain ⟨url, hu⟩ : ∃ url, c.customObjURL baseURL v.version = .ok url := by
      unfold Cookbook.customObjURL
      split
      · next h => exact absurd h (hvs v (.head _))
      · exact ⟨_, rfl⟩
      · exact ⟨_, rfl⟩
    rw [Cookbook.infoLoop, if_neg hz, firstListed]
    cases check v.version with
    | skip => exact ⟨l, hl, hls⟩
    | breakOff => exact ⟨[], rfl, rfl⟩
    | ok | invalid =>
      refine ⟨[(url, v.version)], ?_, rfl⟩
      simp only [hu, ho, ok_bind]
      rfl

lemma constrainedInfoHash_eq (baseURL : Text) (hs : constraint ≠ []) (hvs : ∀ v ∈ c.versions, v.version ≠ []) :
    ∃ h, c.constrainedInfoHash baseURL "1" constraint = .ok h ∧
      listed h = ((firstListed (verdict constraint) c.sortedVersions).map CookbookVersion.version).toList := by
  unfold Cookbook.constrainedInfoHash verdict
  rw [if_neg hs]
  cases traints constraint with
  | none =>
    refine ⟨none, rfl, ?_⟩
    have hsk : ∀ vs : List CookbookVersion, firstListed (fun _ => Action.skip) vs = none := by
      intro vs
      induction vs with
      | nil => rfl
      | cons v vs ih => exact ih
    rw [hsk]
    rfl
  | some t =>
    obtain ⟨l, hl, hls⟩ := infoLoop_one c baseURL (fun v => verConstraintCheck v t.2 t.1)
      fun v hv => hvs v (mem_sortedVersions.mp hv)
    refine ⟨some ⟨c.objURL baseURL, l⟩, ?_, hls⟩
    have hn : numVersionsOf "1" = some 1 := by decide
    simp only [hn, hl, ok_bind]
    rfl

def OneMeaning (c : Cookbook) (baseURL constraint : Text) : Prop :=
  ∃ r : Option CookbookVersion, c.latestConstrained constraint = .ok r ∧
    (∃ h, c.constrainedInfoHash baseURL "1" constraint = .ok h ∧
      listed h = (r.map CookbookVersion.version).toList) ∧
    c.latestMultiConstraint (constraints constraint) = .ok r

lemma oneMeaning_iff_same (hs : constraint ≠ []) (hvs : ∀ v ∈ c.versions, v.version ≠ [])
    (hne : constraints constraint = [] → c.versions ≠ []) :
    OneMeaning c baseURL constraint ↔ Same (verdict constraint) (judgement constraint) c.sortedVersions := by
  obtain ⟨h, hh, hl⟩ := constrainedInfoHash_eq baseURL hs hvs
  rw [OneMeaning, latestConstrained_eq hs, latestMultiConstraint_eq hne]
  constructor
  · rintro ⟨r, hfn, ⟨h', hh', hr⟩, hp⟩
    obtain rfl := Except.ok.inj (hh.symm.trans hh')
    have hfn := Except.ok.inj hfn
    refine ⟨r, hfn, ?_, hp⟩
    -- a cookbook has each version once, so that the listed number tells the version
    rw [hl] at hr
    cases hf : firstListed (verdict constraint) c.sortedVersions with
    | none =>
      rw [hf] at hr
      cases r with
      | none => rfl
      | some w => cases hr
    | some v =>
      rw [hf] at hr
      cases r with
      | none => cases hr
      | some w =>
        have hv := mem_sortedVersions.mp (mem_of_firstListed hf)
        have hw := mem_sortedVersions.mp (mem_of_find?_eq_some hfn)
        rw [inj_on_of_nodup_map c.versions_nodup hv hw (head_eq_of_cons_eq hr)]
  · rintro ⟨r, hfn, hf, hp⟩
    refine ⟨r, congrArg _ hfn, ⟨h, hh, ?_⟩, hp⟩
    rw [hl, hf]

def single : Cookbook where
  name := "a"
  name_valid := validateName_a
  versions := [.plain "a" "1.0.0" []]
  cookbookName_eq := by decide
  versions_nodup := by decide

end

end Goiardi.Cookbooks
