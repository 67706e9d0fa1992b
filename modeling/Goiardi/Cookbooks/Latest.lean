import Goiardi.Cookbooks.Uploads

/-! The latest version of a cookbook is its greatest one, as long as the cached version is not the one that is
deleted. -/

namespace Goiardi.Uploads

open Validation List Option AList
open Cookbooks (atoi partsLess versionLess)

section

variable {α κ : Type} [LinearOrder κ] {r : α → α → Prop} [DecidableRel r] {f : α → κ} {p : α → Prop}

-- the relation decides ties in any way, so that it need not be an order itself
lemma pairwise_orderedInsert_key (hr : ∀ a b, p a → p b → r a b → f b ≤ f a)
    (hn : ∀ a b, p a → p b → ¬ r a b → f a ≤ f b) {a : α} (ha : p a) {l : List α} (hp : ∀ b ∈ l, p b)
    (hl : l.Pairwise fun b c => f c ≤ f b) : (l.orderedInsert r a).Pairwise fun b c => f c ≤ f b := by
  induction l with
  | nil => simp
  | cons b l ih =>
    obtain ⟨hb, ht⟩ := pairwise_cons.mp hl
    rw [List.orderedInsert]
    split
    · next hab =>
      have hba := hr a b ha (hp b (by simp)) hab
      refine pairwise_cons.mpr ⟨fun c hc => ?_, hl⟩
      rcases mem_cons.mp hc with rfl | hc
      · exact hba
      · exact (hb c hc).trans hba
    · next hab =>
      refine pairwise_cons.mpr ⟨fun c hc => ?_, ih (fun c hc => hp c (by simp [hc])) ht⟩
      rcases (mem_orderedInsert r).mp hc with rfl | hc
      · exact hn c b ha (hp b (by simp)) hab
      · exact hb c hc

lemma pairwise_insertionSort_key (hr : ∀ a b, p a → p b → r a b → f b ≤ f a)
    (hn : ∀ a b, p a → p b → ¬ r a b → f a ≤ f b) {l : List α} (hp : ∀ a ∈ l, p a) :
    (l.insertionSort r).Pairwise fun a b => f b ≤ f a := by
  induction l with
  | nil => exact .nil
  | cons a l ih =>
    have hl : ∀ b ∈ l, p b := fun b hb => hp b (by simp [hb])
    exact pairwise_orderedInsert_key hr hn (hp a (by simp)) (fun b hb => hl b ((mem_insertionSort r).mp hb)) (ih hl)

end

def component (ver : Text) (i : ℕ) : ℕ := Text.digitsValue ((ver.splitOn '.').getD i [])

def numericKey (ver : Text) : ℕ ×ₗ ℕ ×ₗ ℕ := toLex (component ver 0, toLex (component ver 1, component ver 2))

lemma parseInt_digits {t : Text} (hd : t.all Char.isDigit = true) (h : (Text.parseInt t).2 = true) :
    (Text.parseInt t).1 = Text.digitsValue t := by
  have hs : ∀ c ds, t = c :: ds → c ≠ '-' ∧ c ≠ '+' := by
    rintro c ds rfl
    have hc : c.isDigit = true := (all_eq_true.mp hd) c (by simp)
    constructor <;> rintro rfl <;> simp [Char.isDigit] at hc
  unfold Text.parseInt at h ⊢
  split at h
  next negative digits heq =>
    split at heq
    · exact absurd rfl (hs _ _ rfl).1
    · exact absurd rfl (hs _ _ rfl).2
    · cases heq
      simp only [Bool.false_eq_true, if_false] at h ⊢
      split_ifs at h ⊢ with hb hm hmx
      rfl

lemma validateNumbers_ok {ver v : Text} {nums : List Text} (h : validateNumbers ver nums = .ok v) :
    ∀ n ∈ nums, (Text.parseInt n).2 = true := by
  induction nums with
  | nil => simp
  | cons n nums ih =>
    rw [validateNumbers] at h
    simp only at h
    split at h
    · cases h
    · next hok =>
      split at h
      · cases h
      · exact forall_mem_cons.mpr ⟨by simpa using hok, ih h⟩

lemma splitOn_digits {t : Text} (h : t.all Char.isDigit = true) : t.splitOn '.' = [t] :=
  splitOn_eq_singleton fun hc => by
    have hd := all_eq_true.mp h '.' hc
    simp [Char.isDigit] at hd

lemma splitOn_digits_dot {t rest : Text} (h : t.all Char.isDigit = true) :
    (t ++ '.' :: rest).splitOn '.' = t :: rest.splitOn '.' := by
  rw [splitOn_append_cons_self, splitOn_digits h, singleton_append]

lemma all_takeWhile_digits (t : Text) : (t.takeWhile Char.isDigit).all Char.isDigit = true :=
  all_eq_true.mpr fun _ hc => mem_takeWhile_imp hc

lemma versionNumbers_parts {t : Text} {nums : List Text} (h : versionNumbers t = some nums) :
    ∃ major minor rest, t.splitOn '.' = major :: minor :: rest ∧ rest.length ≤ 1 ∧
      ∀ p ∈ t.splitOn '.', p = [] ∨ p ∈ nums ∧ p.all Char.isDigit = true := by
  simp only [versionNumbers, Text.span] at h
  have ht := (takeWhile_append_dropWhile (p := Char.isDigit) (l := t)).symm
  split at h
  next a as rest h₁ h₂ =>
    have hmj := all_takeWhile_digits t
    have hm := all_takeWhile_digits rest
    have hr := (takeWhile_append_dropWhile (p := Char.isDigit) (l := rest)).symm
    rw [h₁] at ht hmj
    rw [h₂] at ht
    split at h
    next b bs h₃ h₄ =>
      cases h
      rw [h₃] at hr hm
      rw [h₄, append_nil] at hr
      have hs : t.splitOn '.' = [a :: as, b :: bs] := by
        rw [ht, splitOn_digits_dot hmj, hr, splitOn_digits hm]
      refine ⟨_, _, _, hs, by simp, ?_⟩
      rw [hs, h₁, h₃]
      simp_all
    next b bs patch h₃ h₄ =>
      split at h
      next hp =>
        rw [h₃] at hr hm
        rw [h₄] at hr
        have hs : t.splitOn '.' = [a :: as, b :: bs, patch] := by
          rw [ht, splitOn_digits_dot hmj, hr, splitOn_digits_dot hm, splitOn_digits hp]
        refine ⟨_, _, _, hs, by simp, ?_⟩
        rw [hs, h₁, h₃] at *
        cases h
        split <;> simp_all
      next => cases h
    next => cases h
  next => cases h

lemma AcceptedVersion.parts {t : Text} (h : AcceptedVersion t) :
    ∃ major minor rest, t.splitOn '.' = major :: minor :: rest ∧ rest.length ≤ 1 ∧
      ∀ p ∈ t.splitOn '.', atoi p = Text.digitsValue p := by
  obtain ⟨v, hv⟩ := h
  simp only [validateAsVersion] at hv
  split at hv
  next nums hn =>
    split at hv
    next hz =>
      obtain ⟨major, minor, rest, hs, hl, hpr⟩ := versionNumbers_parts hn
      refine ⟨major, minor, rest, hs, hl, fun p hp => ?_⟩
      rcases hpr p hp with rfl | ⟨hm, hd⟩
      · rfl
      · exact parseInt_digits hd (validateNumbers_ok hv p hm)
    next => cases hv
  next => cases hv

lemma numericKey_le {a b : Text} : numericKey a ≤ numericKey b ↔ component a 0 < component b 0 ∨
    component a 0 = component b 0 ∧ (component a 1 < component b 1 ∨
      component a 1 = component b 1 ∧ component a 2 ≤ component b 2) := by
  rw [numericKey, numericKey, Prod.Lex.toLex_le_toLex, Prod.Lex.toLex_le_toLex]

lemma versionLess_key {a b : Text} (ha : AcceptedVersion a) (hb : AcceptedVersion b) :
    (versionLess a b = true → numericKey a ≤ numericKey b) ∧ (versionLess a b = false → numericKey b ≤ numericKey a) := by
  obtain ⟨a₀, a₁, as, hsa, hla, hna⟩ := AcceptedVersion.parts ha
  obtain ⟨b₀, b₁, bs, hsb, hlb, hnb⟩ := AcceptedVersion.parts hb
  unfold versionLess
  split
  · next heq =>
    subst heq
    exact ⟨fun _ => le_rfl, fun _ => le_rfl⟩
  · rw [numericKey_le, numericKey_le]
    simp only [component, hsa, hsb, getD_cons_zero, getD_cons_succ] at *
    simp only [forall_mem_cons] at hna hnb
    have hn : Text.digitsValue [] = 0 := rfl
    -- the lists end after the second or after the third component
    match as, bs with
    | [], [] => simp [partsLess, hna, hnb]; grind
    | [], [b₂] => simp [partsLess, hna, hnb, hn]; grind
    | [a₂], [] => simp [partsLess, hna, hnb, hn]; grind
    | [a₂], [b₂] => simp [partsLess, hna, hnb]; grind

section

inductive Op
  | newVersion (stored : List Text) (ver : Text) (data : JsonMap)
  | updateVersion (stored : List Text) (ver : Text) (data : JsonMap) (force : Bool)
  | deleteVersion (ver : Text)
  | latestVersion
  | getLatest

/-- The handlers pass on versions that `ValidateAsVersion` accepts. -/
def Op.Accepted : Op → Prop
  | newVersion _ ver _ | updateVersion _ ver _ _ | deleteVersion ver => AcceptedVersion ver
  | latestVersion | getLatest => True

namespace Cookbook

def settle {α : Type} (mode : Mode) (c : Cookbook) : Except Fault α × Cookbook → Cookbook
  | (.ok _, c') => c'.fetched mode
  | (.error _, c') =>
    match mode with
    | .copying => c
    | .sharing => c'

def observe {α : Type} (mode : Mode) (c : Cookbook) (r : Except Fault α × Cookbook) : Cookbook :=
  match mode with
  | .copying => c
  | .sharing => r.2

def perform (mode : Mode) (baseURL : Text) (c : Cookbook) : Op → Cookbook
  | .newVersion stored ver data => c.settle mode ((c.fetched mode).newVersion baseURL stored ver data)
  | .updateVersion stored ver data force => c.settle mode ((c.fetched mode).updateVersion baseURL stored ver data force)
  | .deleteVersion ver => c.settle mode ((c.fetched mode).deleteVersion ver)
  | .latestVersion => c.observe mode (c.fetched mode).latestVersion
  | .getLatest => c.observe mode ((c.fetched mode).getVersion latestName)

def run (mode : Mode) (baseURL : Text) (c : Cookbook) (ops : List Op) : Cookbook := ops.foldl (perform mode baseURL) c

structure Greatest (c : Cookbook) (v : CookbookVersion) : Prop where
  stored : c.versions.lookup v.version = some v
  le : ∀ ver w, c.versions.lookup ver = some w → numericKey w.version ≤ numericKey v.version

def RightLatest (mode : Mode) (c : Cookbook) : Prop :=
  c.numVersions ≠ 0 → ∃ v, (c.fetched mode).latestVersion.1 = .ok v ∧
    ((c.fetched mode).getVersion latestName).1 = .ok v ∧ c.Greatest v

def dropsLatest (mode : Mode) (c : Cookbook) : Op → Bool
  | .deleteVersion ver => mode = .sharing ∧ 1 < c.numVersions ∧ c.latest.map CookbookVersion.version = some ver
  | _ => false

def Keyed (c : Cookbook) : Prop :=
  ∀ ver v, c.versions.lookup ver = some v → v.version = ver ∧ AcceptedVersion ver

def Cached (c : Cookbook) : Prop := ∀ l, c.latest = some l → c.numVersions = 0 ∨ c.Greatest l

structure Fit (c : Cookbook) : Prop where
  keyed : c.Keyed
  cached : c.Cached

section

variable {mode : Mode} {baseURL : Text} {c : Cookbook} {v : CookbookVersion} {ver : Text}

lemma Fit.fetched (h : c.Fit) (mode : Mode) : (c.fetched mode).Fit := by
  cases mode with
  | copying => exact ⟨h.keyed, fun l hl => nomatch hl⟩
  | sharing => exact h

lemma Fit.settle {α : Type} {r : Except Fault α × Cookbook} (h : c.Fit) (hr : r.2.Fit) : (c.settle mode r).Fit := by
  obtain ⟨_ | _, c'⟩ := r
  · cases mode with
    | copying => exact h
    | sharing => exact hr
  · exact hr.fetched mode

lemma Fit.observe {α : Type} {r : Except Fault α × Cookbook} (h : c.Fit) (hr : r.2.Fit) : (c.observe mode r).Fit := by
  cases mode with
  | copying => exact h
  | sharing => exact hr

lemma Keyed.greatest_head (h : c.Keyed) {vs : List CookbookVersion} (hs : c.sortedVersions = v :: vs) :
    c.Greatest v := by
  have hky : ∀ ver ∈ c.versions.keys, AcceptedVersion ver := by
    intro ver hv
    obtain ⟨w, hw⟩ := isSome_iff_exists.mp (lookup_isSome.mpr hv)
    exact (h ver w hw).2
  have hsr : (c.versions.keys.insertionSort fun a b => ¬ versionLess a b = true).Pairwise
      fun a b => numericKey b ≤ numericKey a := pairwise_insertionSort_key
    (fun a b ha hb hab => (versionLess_key ha hb).2 (by simpa using hab))
    (fun a b ha hb hab => (versionLess_key ha hb).1 (by simpa using hab)) hky
  have hm : ∀ ver ∈ c.versions.keys.insertionSort (fun a b => ¬ versionLess a b), ver ∈ c.versions.keys :=
    fun ver hv => (mem_insertionSort _).mp hv
  rw [sortedVersions] at hs
  cases hl : c.versions.keys.insertionSort fun a b => ¬ versionLess a b with
  | nil =>
    rw [hl] at hs
    cases hs
  | cons k ks =>
    rw [hl] at hs hsr hm
    obtain ⟨u, hu⟩ := isSome_iff_exists.mp (lookup_isSome.mpr (hm k (by simp)))
    rw [filterMap_cons_some (f := fun a => c.versions.lookup a) hu] at hs
    cases hs
    obtain ⟨hk, -⟩ := h k v hu
    refine ⟨by rw [hk, hu], fun ver w hw => ?_⟩
    rw [(h ver w hw).1, hk]
    have hv : ver ∈ k :: ks := by
      rw [← hl, mem_insertionSort]
      exact lookup_isSome.mp (by rw [hw]; rfl)
    rcases mem_cons.mp hv with rfl | hv
    · exact le_rfl
    · exact (pairwise_cons.mp hsr).1 ver hv

lemma Fit.latestVersion (h : c.Fit) :
    c.latestVersion.2.Fit ∧ (c.numVersions ≠ 0 → ∃ v, c.latestVersion.1 = .ok v ∧ c.Greatest v) := by
  cases hl : c.latest with
  | some l =>
    have heq : c.latestVersion = (.ok l, c) := by rw [Cookbook.latestVersion, hl]
    rw [heq]
    exact ⟨h, fun hne => ⟨l, rfl, (h.cached l hl).resolve_left hne⟩⟩
  | none =>
    cases hs : c.sortedVersions with
    | nil =>
      have heq : c.latestVersion = (.error (.panic .indexOutOfRange), c) := by rw [Cookbook.latestVersion, hl, hs]
      rw [heq]
      refine ⟨h, fun hne => absurd ?_ hne⟩
      rw [numVersions, sortedVersions_eq_nil.mp hs, length_nil]
    | cons v vs =>
      have heq : c.latestVersion = (.ok v, { c with latest := some v }) := by rw [Cookbook.latestVersion, hl, hs]
      have hv := h.keyed.greatest_head hs
      rw [heq]
      refine ⟨⟨h.keyed, fun l hl => .inr ?_⟩, fun _ => ⟨v, rfl, hv⟩⟩
      cases hl
      exact ⟨hv.stored, hv.le⟩

lemma Keyed.updateLatestVersion (h : c.Keyed) : c.updateLatestVersion.Fit :=
  (Fit.latestVersion (c := { c with latest := none }) ⟨h, fun _ hl => nomatch hl⟩).1

lemma Keyed.insert (h : c.Keyed) (hvr : AcceptedVersion ver) (hv : v.version = ver) :
    { c with versions := c.versions.insert ver v }.Keyed := by
  intro w u hu
  by_cases hw : w = ver
  · subst hw
    rw [lookup_insert] at hu
    cases hu
    exact ⟨hv, hvr⟩
  · rw [lookup_insert_ne hw] at hu
    exact h w u hu

variable {stored : List Text} {data : JsonMap} {force : Bool}

lemma Fit.newVersion (h : c.Fit) (hvr : AcceptedVersion ver) : (c.newVersion baseURL stored ver data).2.Fit := by
  cases hv : c.versions.lookup ver with
  | some v =>
    rw [Cookbook.newVersion, getVersion_some hvr hv]
    exact h
  | none =>
    rw [Cookbook.newVersion, getVersion_none hvr hv]
    simp only [versionNotFound]
    split
    · exact h
    · next cbv hc => exact (h.keyed.insert hvr (updateVersion_version hc)).updateLatestVersion

lemma Fit.setVersion (h : c.Fit) {cbv : CookbookVersion} (hv : c.versions.lookup ver = some v)
    (hc : cbv.version = ver) : (c.setVersion ver cbv).Fit := by
  refine ⟨h.keyed.insert (h.keyed ver v hv).2 hc, fun l' hl' => .inr ?_⟩
  obtain ⟨l, hl, rfl⟩ := map_eq_some_iff.mp hl'
  have hg := (h.cached l hl).resolve_left (numVersions_ne_zero hv)
  -- the new version has the number of the old one
  have hle : ∀ w u, (c.versions.insert ver cbv).lookup w = some u → numericKey u.version ≤ numericKey l.version := by
    intro w u hu
    by_cases hw : w = ver
    · subst hw
      rw [lookup_insert] at hu
      cases hu
      have ho := hg.le w v hv
      rwa [(h.keyed w v hv).1, ← hc] at ho
    · rw [lookup_insert_ne hw] at hu
      exact hg.le w u hu
  split
  · next heq =>
    refine ⟨?_, fun w u hu => ?_⟩
    · rw [hc]
      exact lookup_insert c.versions
    · rw [hc, ← heq]
      exact hle w u hu
  · next hne => exact ⟨(lookup_insert_ne hne).trans hg.stored, hle⟩

lemma Fit.updateVersion (h : c.Fit) (hvr : AcceptedVersion ver) :
    (c.updateVersion baseURL stored ver data force).2.Fit := by
  cases hv : c.versions.lookup ver with
  | none =>
    rw [Cookbook.updateVersion, getVersion_none hvr hv]
    exact h
  | some v =>
    rw [Cookbook.updateVersion, getVersion_some hvr hv]
    simp only
    split
    · exact h
    · next cbv hc => exact h.setVersion hv ((updateVersion_version hc).trans (h.keyed ver v hv).1)

lemma numVersions_erase (hv : c.versions.lookup ver = some v) :
    { c with versions := c.versions.erase ver }.numVersions = c.numVersions - 1 :=
  length_eraseP_of_mem (mem_lookup_iff.mp hv) (by simp)

lemma Fit.erase (h : c.Fit) (hv : c.versions.lookup ver = some v)
    (hd : 1 < c.numVersions → c.latest.map CookbookVersion.version ≠ some ver) :
    { c with versions := c.versions.erase ver }.Fit := by
  have hb : ∀ {w u}, (c.versions.erase ver).lookup w = some u → c.versions.lookup w = some u := by
    intro w u hu
    by_cases hw : w = ver
    · subst hw
      simp at hu
    · rwa [lookup_erase_ne hw] at hu
  refine ⟨fun w u hu => h.keyed w u (hb hu), fun l hl => ?_⟩
  have hg := (h.cached l hl).resolve_left (numVersions_ne_zero hv)
  by_cases hlv : l.version = ver
  · left
    have ho : ¬ 1 < c.numVersions := fun hlt => hd hlt (by rw [hl, map_some, hlv])
    rw [numVersions_erase hv]
    omega
  · exact .inr ⟨(lookup_erase_ne hlv).trans hg.stored, fun w u hu => hg.le w u (hb hu)⟩

lemma Fit.deleteVersion (h : c.Fit) (hvr : AcceptedVersion ver)
    (hd : 1 < c.numVersions → c.latest.map CookbookVersion.version ≠ some ver) : (c.deleteVersion ver).2.Fit := by
  cases hv : c.versions.lookup ver with
  | none =>
    rw [Cookbook.deleteVersion, getVersion_none hvr hv]
    exact h
  | some v =>
    rw [Cookbook.deleteVersion, getVersion_some hvr hv]
    exact h.erase hv hd

lemma Fit.rightLatest (h : c.Fit) : c.RightLatest mode := by
  intro hne
  have hl := (h.fetched mode).latestVersion.2
  have hsm : (c.fetched mode).getVersion latestName = (c.fetched mode).latestVersion := by
    rw [getVersion, if_pos rfl]
  have hn : (c.fetched mode).numVersions = c.numVersions := by
    rw [numVersions, numVersions, fetched_versions]
  rw [hn] at hl
  obtain ⟨v, hv, hg⟩ := hl hne
  refine ⟨v, hv, by rw [hsm, hv], ?_⟩
  obtain ⟨hs, hle⟩ := hg
  rw [fetched_versions] at hs hle
  exact ⟨hs, hle⟩

lemma Fit.perform (h : c.Fit) {op : Op} (hop : op.Accepted) (hd : c.dropsLatest mode op = false) :
    (c.perform mode baseURL op).Fit := by
  have hf := h.fetched mode
  cases op with
  | newVersion stored ver data => exact h.settle (hf.newVersion hop)
  | updateVersion stored ver data force => exact h.settle (hf.updateVersion hop)
  | deleteVersion ver =>
    refine h.settle (hf.deleteVersion hop fun hlt hl => ?_)
    cases mode with
    | copying => cases hl
    | sharing =>
      rw [dropsLatest, decide_eq_false_iff_not] at hd
      exact hd ⟨rfl, hlt, hl⟩
  | latestVersion => exact h.observe hf.latestVersion.1
  | getLatest =>
    refine h.observe ?_
    rw [getVersion, if_pos rfl]
    exact hf.latestVersion.1

lemma Fit.not_rightLatest (h : c.Fit) {op : Op} (hop : op.Accepted) (hd : c.dropsLatest mode op = true) :
    ¬ (c.perform mode baseURL op).RightLatest mode := by
  cases op with
  | deleteVersion ver =>
    rw [dropsLatest, decide_eq_true_eq] at hd
    obtain ⟨rfl, hlt, hls⟩ := hd
    obtain ⟨l, hl, hlv⟩ := map_eq_some_iff.mp hls
    have hg := (h.cached l hl).resolve_left (by omega)
    have hv : c.versions.lookup ver = some l := hlv ▸ hg.stored
    have hdn : c.perform .sharing baseURL (.deleteVersion ver) = { c with versions := c.versions.erase ver } := by
      rw [Cookbook.perform, Cookbook.fetched, Cookbook.deleteVersion, getVersion_some hop hv]
      rfl
    rw [hdn]
    intro hr
    obtain ⟨v, hrt, -, hgv⟩ := hr (by rw [numVersions_erase hv]; omega)
    have hla : { c with versions := c.versions.erase ver }.latestVersion =
        (.ok l, { c with versions := c.versions.erase ver }) := by
      rw [Cookbook.latestVersion]
      simp only [hl]
    rw [Cookbook.fetched, hla] at hrt
    cases hrt
    have hs := hgv.stored
    rw [hlv, lookup_erase] at hs
    cases hs
  | _ => cases hd

end

lemma forall_prefix_cons {α : Type} {p : List α → Prop} {a : α} {l : List α} :
    (∀ q, q <+: a :: l → p q) ↔ p [] ∧ ∀ q, q <+: l → p (a :: q) := by
  constructor
  · intro h
    exact ⟨h [] nil_prefix, fun q hq => h (a :: q) (cons_prefix_cons.mpr ⟨rfl, hq⟩)⟩
  · rintro ⟨hn, hc⟩ q hq
    rcases prefix_cons_iff.mp hq with rfl | ⟨t, rfl, ht⟩
    · exact hn
    · exact hc t ht

variable {mode : Mode} {baseURL : Text} {c : Cookbook}

lemma Fit.run_rightLatest_iff (h : c.Fit) {ops : List Op} (ho : ∀ op ∈ ops, op.Accepted) :
    (∀ p, p <+: ops → (c.run mode baseURL p).RightLatest mode) ↔
      ∀ p op, p ++ [op] <+: ops → (c.run mode baseURL p).dropsLatest mode op = false := by
  induction ops generalizing c with
  | nil => simp [run, h.rightLatest]
  | cons op ops ih =>
    obtain ⟨hop, ho⟩ := forall_mem_cons.mp ho
    rw [forall_prefix_cons]
    cases hd : c.dropsLatest mode op with
    | true =>
      refine ⟨fun hr => ?_, fun hk => ?_⟩
      · exact absurd (hr.2 [] nil_prefix) (h.not_rightLatest hop hd)
      · have hf := hk [] op (cons_prefix_cons.mpr ⟨rfl, nil_prefix⟩)
        rw [run, foldl_nil, hd] at hf
        cases hf
    | false =>
      have hn : (c.perform mode baseURL op).Fit := h.perform hop hd
      have hih := ih hn ho
      refine ⟨fun hr p op' hp => ?_, fun hk => ⟨h.rightLatest, hih.mpr fun p op' hp => ?_⟩⟩
      · cases p with
        | nil =>
          obtain ⟨rfl, -⟩ := cons_prefix_cons.mp hp
          exact hd
        | cons a p =>
          obtain ⟨rfl, hrs⟩ := cons_prefix_cons.mp hp
          exact hih.mp hr.2 p op' hrs
      · exact hk (op :: p) op' (cons_prefix_cons.mpr ⟨rfl, hp⟩)

theorem latest_is_greatest_iff (mode : Mode) (baseURL name : Text) (ops : List Op) (hops : ∀ op ∈ ops, op.Accepted) :
    (∀ p, p <+: ops → ((blank name).run mode baseURL p).RightLatest mode) ↔
      ∀ p op, p ++ [op] <+: ops → ((blank name).run mode baseURL p).dropsLatest mode op = false :=
  Fit.run_rightLatest_iff ⟨fun _ _ h => (by cases h), fun _ h => (by cases h)⟩ hops

def addApp (ver : String) : Op := .newVersion [] ver.toList (plainBody "app" ver.toList)

theorem latest_is_greatest_app :
    ((blank "app").run .sharing [] [addApp "1.0.0", addApp "10.0", .deleteVersion "1.0.0"]).RightLatest .sharing := by
  refine (latest_is_greatest_iff .sharing [] _ _ ?_).mpr ?_ _ prefix_rfl
  · have h₁ : AcceptedVersion "1.0.0" := ⟨_, rfl⟩
    have h₂ : AcceptedVersion "10.0" := ⟨_, rfl⟩
    exact forall_mem_cons.mpr ⟨h₁, forall_mem_cons.mpr ⟨h₂, forall_mem_singleton.mpr h₁⟩⟩
  · rintro p op ⟨t, ht⟩
    match p with
    | [] =>
      cases ht
      rfl
    | [_] =>
      cases ht
      rfl
    | [_, _] =>
      cases ht
      decide +kernel
    | _ :: _ :: _ :: p => simp at ht

theorem latest_was_deleted :
    ¬ ((blank "app".toList).run .sharing [] [addApp "1.0.0", addApp "2.0.0", .deleteVersion "2.0.0".toList]).RightLatest
      .sharing := by
  intro h
  obtain ⟨v, hv, -, hg⟩ := h (by decide +kernel)
  have hvr : (((blank "app".toList).run .sharing []
      [addApp "1.0.0", addApp "2.0.0", .deleteVersion "2.0.0".toList]).fetched .sharing).latestVersion.1.map
        CookbookVersion.version = .ok "2.0.0".toList := by decide +kernel
  rw [hv] at hvr
  have hn : (((blank "app".toList).run .sharing []
      [addApp "1.0.0", addApp "2.0.0", .deleteVersion "2.0.0".toList]).versions.lookup "2.0.0".toList).isNone = true := by
    decide +kernel
  have hs := hg.stored
  rw [Except.ok.inj hvr, isNone_iff_eq_none.mp hn] at hs
  cases hs

end Cookbook

end

end Goiardi.Uploads
