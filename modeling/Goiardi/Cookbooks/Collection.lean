import Goiardi.Base.Interleaving
import Goiardi.Cookbooks.Requests

/-! Uploads of files and requests on cookbook versions that take turns step by step, over a store that hands out copies.

A request that deletes files looks for the cookbooks that still use them first. What another request has checked but
not yet saved it cannot see. -/

namespace Goiardi.Uploads

open Validation List Option AList

inductive Job
  | upload (chksum : Text)
  | put (name path : Text) (data : JsonMap) (force : Bool)
  | delete (name path : Text)

/-- A job with what it has read and computed so far; each constructor is named for the step that comes next. -/
inductive Task
  | waiting (job : Job)
  | opening (name ver : Text) (data : JsonMap) (force : Bool) (c : Cookbook)
  | checking (name ver : Text) (data : JsonMap) (force : Bool) (c : Cookbook)
  | cleaning (c : Cookbook) (cbv : CookbookVersion) (fhashes : List Text)
  | sweeping (c : Cookbook) (unused : List Text)
  | saving (c : Cookbook) (mends : Bool)
  | removing (ver : Text) (c : Cookbook)
  | scanning (c : Cookbook) (fhashes : List Text)
  | unlinking (c : Cookbook) (unused : List Text)
  | dropping (c : Cookbook)
  | finished

section

variable (baseURL : Text)

def safe : Settings := ⟨.copying, baseURL⟩

def begin (s : Server) : Job → Server × Task
  | .upload chksum => ({ s with files := chksum :: s.files }, .finished)
  | .put name path data force =>
    match pathVersion path with
    | .error _ => (s, .finished)
    | .ok ver =>
      match s.get (safe baseURL) name with
      | some h => (s, .checking name ver data force h.val)
      | none =>
        match Cookbook.new name with
        | .error _ => (s, .finished)
        | .ok c => (s, .opening name ver data force c)
  | .delete name path =>
    match pathVersion path with
    | .error _ => (s, .finished)
    | .ok ver =>
      match s.get (safe baseURL) name with
      | none => (s, .finished)
      | some h => (s, if (h.val.versions.lookup ver).isSome then .removing ver h.val else .finished)

def check (stored : List Text) (name ver : Text) (data : JsonMap) (force : Bool) (c : Cookbook) : Task :=
  match c.versions.lookup ver with
  | some _ =>
    match c.updateVersion baseURL stored ver data force with
    | (.error _, _) => .finished
    | (.ok (cbv, fhashes), c) => if fhashes = [] then .saving c false else .cleaning c cbv fhashes
  | none =>
    if namesOther data name then .finished
    else
      match c.newVersion baseURL stored ver data with
      | (.error (.panic _), _) => .finished
      | (.error (.refused _), c) => if c.numVersions = 0 then .dropping c else .finished
      | (.ok _, c) => .saving c false

def next (s : Server) : Task → Server × Task
  | .waiting job => begin baseURL s job
  | .opening name ver data force c => (s.save (safe baseURL) ⟨0, c⟩, .checking name ver data force c)
  | .checking name ver data force c => (s, check baseURL s.files name ver data force c)
  | .cleaning c cbv fhashes =>
    match s.get (safe baseURL) cbv.cookbookName with
    | none => (s, .finished)
    | some h =>
      (s, .sweeping c (s.unusedHashes (safe baseURL)
        { h.val with versions := h.val.versions.insert cbv.version cbv } fhashes))
  | .sweeping c unused => (s.removeFiles unused, .saving c true)
  | .saving c _ => (s.save (safe baseURL) ⟨0, c⟩, .finished)
  | .removing ver c =>
    match c.deleteVersion ver with
    | (.error _, _) => (s, .finished)
    | (.ok fhashes, c) => (s.save (safe baseURL) ⟨0, c⟩, .scanning c fhashes)
  | .scanning c fhashes => (s, .unlinking c (s.unusedHashes (safe baseURL) c fhashes))
  | .unlinking c unused => (s.removeFiles unused, if c.numVersions = 0 then .dropping c else .finished)
  | .dropping c => (s.delete c, .finished)
  | .finished => (s, .finished)

end

namespace Task

def inProgress : Task → Bool
  | waiting _ | finished => false
  | _ => true

def collects : Task → Bool
  | checking _ ver _ _ c => (c.versions.lookup ver).any fun v => !v.fileHashes.isEmpty
  | cleaning _ _ _ | sweeping _ _ | removing _ _ | scanning _ _ | unlinking _ _ => true
  | saving _ mends => mends
  | waiting _ | opening _ _ _ _ _ | dropping _ | finished => false

def Apart (t u : Task) : Prop :=
  (t.collects = true → u.inProgress = false) ∧ (u.collects = true → t.inProgress = false)

instance (t u : Task) : Decidable (Apart t u) := inferInstanceAs (Decidable (_ ∧ _))

end Task

def StaysApart (baseURL : Text) (s : Server) (t u : Task) : Prop := (next baseURL s t).2.Apart u

instance (baseURL : Text) (s : Server) (t u : Task) : Decidable (StaysApart baseURL s t u) :=
  inferInstanceAs (Decidable ((next baseURL s t).2.Apart u))

section

def CookbookVersion.Lists (v : CookbookVersion) (h : Text) : Prop := ∃ d, ∃ item ∈ v.divisions d, checksum item = some h

def Cookbook.Lists (c : Cookbook) (h : Text) : Prop := ∃ ver v, c.versions.lookup ver = some v ∧ v.Lists h

def Cookbook.Covered (c : Cookbook) (files : List Text) : Prop := ∀ h, c.Lists h → h ∈ files

def Server.Clean (s : Server) : Prop := ∀ k c, s.cookbooks.find k = some c → c.Covered s.files

def Server.CleanBut (s : Server) (name : Text) : Prop :=
  ∀ k c, s.cookbooks.find k = some c → k ≠ name → c.Covered s.files

def Cookbook.KeyedAs (c : Cookbook) (name : Text) : Prop :=
  ∀ ver v, c.versions.lookup ver = some v → v.version = ver ∧ v.cookbookName = name

structure Server.Named (s : Server) : Prop where
  name : ∀ k c, s.cookbooks.find k = some c → c.name = k
  keyed : ∀ k c, s.cookbooks.find k = some c → c.KeyedAs k

variable {baseURL : Text} {s s' : Server} {c d : Cookbook} {v cbv : CookbookVersion} {h k name ver : Text}
  {stored files : List Text} {data : JsonMap} {force : Bool}

lemma CookbookVersion.Lists.mem_fileHashes (hv : v.Lists h) : h ∈ v.fileHashes := by
  obtain ⟨d, item, hi, hs⟩ := hv
  exact CookbookVersion.mem_fileHashes.mpr ⟨d, item, hi, by rw [hs, getD_some]⟩

lemma Cookbook.Covered.mono (hc : c.Covered files) (hf : files ⊆ stored) : c.Covered stored := fun h hh => hf (hc h hh)

lemma Cookbook.Covered.congr (hc : c.Covered files) (hd : d.versions = c.versions) : d.Covered files := by
  rintro h ⟨ver, v, hv, hl⟩
  rw [hd] at hv
  exact hc h ⟨ver, v, hv, hl⟩

lemma updateVersion_lists (hu : updateVersion baseURL stored v data force = .ok cbv) (hh : cbv.Lists h) :
    h ∈ stored := by
  obtain ⟨body, hb, rfl⟩ := updateVersion_eq_ok hu
  obtain ⟨d, item, hi, hs⟩ := hh
  obtain ⟨chksum, hm, hs'⟩ := validateBody_divisions hb d item hi
  rw [hs] at hs'
  cases hs'
  exact hm

lemma Cookbook.Covered.insert (hc : c.Covered files) (hu : Uploads.updateVersion baseURL files v data force = .ok cbv)
    (hd : d.versions = c.versions.insert ver cbv) : d.Covered files := by
  rintro h ⟨w, u, hw, hl⟩
  rw [hd] at hw
  by_cases hwv : w = ver
  · subst hwv
    rw [lookup_insert] at hw
    cases hw
    exact updateVersion_lists hu hl
  · rw [lookup_insert_ne hwv] at hw
    exact hc h ⟨w, u, hw, hl⟩

lemma Cookbook.Covered.erase (hc : c.Covered files) : { c with versions := c.versions.erase ver }.Covered files := by
  rintro h ⟨w, u, hw, hl⟩
  by_cases hwv : w = ver
  · subst hwv
    rw [lookup_erase] at hw
    cases hw
  · rw [lookup_erase_ne hwv] at hw
    exact hc h ⟨w, u, hw, hl⟩

lemma covered_blank (name : Text) (files : List Text) : (Cookbook.blank name).Covered files := by
  rintro h ⟨ver, v, hv, -⟩
  cases hv

lemma keyedAs_blank (name : Text) : (Cookbook.blank name).KeyedAs name := fun _ _ hv => nomatch hv

lemma Cookbook.KeyedAs.insert (hc : c.KeyedAs name) (hv : cbv.version = ver) (hn : cbv.cookbookName = name)
    (hd : d.versions = c.versions.insert ver cbv) : d.KeyedAs name :=
  (keyed_insert hc hv hn hd).2

lemma Cookbook.KeyedAs.erase (hc : c.KeyedAs name) : { c with versions := c.versions.erase ver }.KeyedAs name := by
  intro w u hw
  by_cases hwv : w = ver
  · subst hwv
    rw [lookup_erase] at hw
    cases hw
  · rw [lookup_erase_ne hwv] at hw
    exact hc w u hw

lemma get_eq_some {x : Cell Cookbook} (hg : s.get (safe baseURL) name = some x) :
    ∃ c, s.cookbooks.find name = some c ∧ x.val = c.fetched .copying := by
  obtain ⟨d, hd, rfl⟩ := map_eq_some_iff.mp hg
  exact ⟨d.val, Shelf.find_of_get hd, rfl⟩

lemma find_saved (s : Server) (c : Cookbook) (k : Text) :
    (s.save (safe baseURL) ⟨0, c⟩).cookbooks.find k = if k = c.name then some c else s.cookbooks.find k :=
  Shelf.find_put_copying

lemma find_dropped (s : Server) (c : Cookbook) (k : Text) :
    (s.delete c).cookbooks.find k = if k = c.name then none else s.cookbooks.find k :=
  Shelf.find_remove

lemma Server.Named.save (hs : s.Named) (hc : c.KeyedAs c.name) : (s.save (safe baseURL) ⟨0, c⟩).Named := by
  constructor
  all_goals
    intro k d hd
    rw [find_saved] at hd
    split at hd
  · next hk =>
    cases hd
    exact hk.symm
  · exact hs.name k d hd
  · next hk =>
    cases hd
    rw [hk]
    exact hc
  · exact hs.keyed k d hd

lemma Server.Named.delete (hs : s.Named) (c : Cookbook) : (s.delete c).Named := by
  constructor
  all_goals
    intro k d hd
    rw [find_dropped] at hd
    split at hd
  · cases hd
  · exact hs.name k d hd
  · cases hd
  · exact hs.keyed k d hd

lemma Server.CleanBut.save (hs : s.CleanBut c.name) (hc : c.Covered s.files) :
    (s.save (safe baseURL) ⟨0, c⟩).Clean := by
  intro k d hd
  rw [find_saved] at hd
  split at hd
  · cases hd
    exact hc
  · next hk => exact hs k d hd hk

lemma Server.Clean.delete (hs : s.Clean) (c : Cookbook) : (s.delete c).Clean := by
  intro k d hd
  rw [find_dropped] at hd
  split at hd
  · cases hd
  · exact hs k d hd

lemma Cookbook.Covered.removeFiles {ha : List Text} (hc : c.Covered s.files) (hn : ∀ h ∈ ha, ¬ c.Lists h) :
    c.Covered (s.removeFiles ha).files := fun h hh => by
  simpa [Server.removeFiles] using ⟨hc h hh, fun hm => hn h hm hh⟩

lemma unusedHashes_not_lists (hs : s.Named) {x : CookbookVersion} (hh : h ∈ s.unusedHashes (safe baseURL) c x.fileHashes)
    (hd : s.cookbooks.find k = some d) : if k = c.name then ¬ c.Lists h else ¬ d.Lists h := by
  have hm := ((Cookbook.mem_unusedHashes (removeDupStrings_sorted _ (pairwise_insertionSort (· ≤ ·) _)) _).mp hh).2
  obtain ⟨cell, hc, rfl⟩ := Shelf.find_eq_some.mp hd
  have ha : cell.val.fetched .copying ∈ s.allCookbooks (safe baseURL) :=
    mem_map.mpr ⟨⟨k, cell⟩, Shelf.mem_entries.mp hc, rfl⟩
  have hsc := hm _ (mem_map.mpr ⟨_, ha, rfl⟩)
  have hn : (cell.val.fetched .copying).name = k := hs.name k cell.val hd
  rw [hn] at hsc
  split
  · next hk =>
    rw [if_pos hk] at hsc
    rintro ⟨ver, v, hv, hl⟩
    exact hsc ver v hv hl.mem_fileHashes
  · next hk =>
    rw [if_neg hk] at hsc
    rintro ⟨ver, v, hv, hl⟩
    exact hsc ver v hv hl.mem_fileHashes

end

section

def Task.Fit (s : Server) : Task → Prop
  | .waiting _ | .dropping _ | .finished => True
  | .opening name ver _ _ c => c = .blank name ∧ AcceptedVersion ver
  | .checking name ver data force c => c.name = name ∧ c.KeyedAs name ∧ AcceptedVersion ver ∧ c.Covered s.files ∧
      ((Task.checking name ver data force c).collects = true →
        ∃ c₀, s.cookbooks.find name = some c₀ ∧ c₀.versions = c.versions)
  | .cleaning c cbv fhashes => c.KeyedAs c.name ∧ c.Covered s.files ∧ (∃ v : CookbookVersion, fhashes = v.fileHashes) ∧
      cbv.cookbookName = c.name ∧
        ∃ c₀, s.cookbooks.find c.name = some c₀ ∧ c.versions = c₀.versions.insert cbv.version cbv
  | .sweeping c unused => c.KeyedAs c.name ∧ c.Covered s.files ∧ (∀ h ∈ unused, ¬ c.Lists h) ∧
      ∀ k d, s.cookbooks.find k = some d → k ≠ c.name → ∀ h ∈ unused, ¬ d.Lists h
  | .saving c _ => c.KeyedAs c.name ∧ c.Covered s.files
  | .removing ver c => c.KeyedAs c.name ∧ AcceptedVersion ver ∧ c.Covered s.files
  | .scanning c fhashes => (∃ v : CookbookVersion, fhashes = v.fileHashes) ∧ s.cookbooks.find c.name = some c
  | .unlinking _ unused => ∀ k d, s.cookbooks.find k = some d → ∀ h ∈ unused, ¬ d.Lists h

variable {baseURL : Text} {s s' : Server} {t u : Task}

lemma Task.Fit.mono (h : t.Fit s) (ht : t.collects = false) (hf : s.files ⊆ s'.files) : t.Fit s' := by
  cases t with
  | waiting job | dropping c | finished => trivial
  | opening name ver data force c => exact h
  | checking name ver data force c =>
    obtain ⟨hn, hk, hv, hcv, -⟩ := h
    exact ⟨hn, hk, hv, hcv.mono hf, fun hc => absurd (ht.symm.trans hc) Bool.false_ne_true⟩
  | saving c mends => exact ⟨h.1, h.2.mono hf⟩
  | cleaning _ _ _ | sweeping _ _ | removing _ _ | scanning _ _ | unlinking _ _ => cases ht

lemma Task.Fit.upload (h : t.Fit s) (hc : s'.cookbooks = s.cookbooks) (hf : s.files ⊆ s'.files) : t.Fit s' := by
  cases t with
  | waiting job | dropping c | finished => trivial
  | opening name ver data force c => exact h
  | checking name ver data force c =>
    obtain ⟨hn, hk, hv, hcv, hs⟩ := h
    exact ⟨hn, hk, hv, hcv.mono hf, by rwa [hc]⟩
  | saving c mends => exact ⟨h.1, h.2.mono hf⟩
  | cleaning c cbv fhashes =>
    obtain ⟨hk, hcv, hsr, hn, hs⟩ := h
    exact ⟨hk, hcv.mono hf, hsr, hn, by rwa [hc]⟩
  | sweeping c unused =>
    obtain ⟨hk, hcv, ho, hot⟩ := h
    exact ⟨hk, hcv.mono hf, ho, by rwa [hc]⟩
  | removing ver c =>
    obtain ⟨hk, hv, hcv⟩ := h
    exact ⟨hk, hv, hcv.mono hf⟩
  | scanning c fhashes => exact ⟨h.1, by rw [hc]; exact h.2⟩
  | unlinking c unused => exact fun k d hd => h k d (by rwa [hc] at hd)

lemma begin_cookbooks (baseURL : Text) (s : Server) (job : Job) :
    (begin baseURL s job).1.cookbooks = s.cookbooks ∧ s.files ⊆ (begin baseURL s job).1.files := by
  unfold begin
  split
  · exact ⟨rfl, subset_cons_self _ _⟩
  · split
    · exact ⟨rfl, List.Subset.refl _⟩
    · split
      · exact ⟨rfl, List.Subset.refl _⟩
      · split <;> exact ⟨rfl, List.Subset.refl _⟩
  · split
    · exact ⟨rfl, List.Subset.refl _⟩
    · split <;> exact ⟨rfl, List.Subset.refl _⟩

lemma next_of_not_inProgress (baseURL : Text) (s : Server) (ht : t.inProgress = false) :
    (next baseURL s t).1.cookbooks = s.cookbooks ∧ s.files ⊆ (next baseURL s t).1.files := by
  cases t with
  | waiting job => exact begin_cookbooks baseURL s job
  | finished => exact ⟨rfl, List.Subset.refl _⟩
  | _ => cases ht

lemma files_subset_next (ht : t.collects = false) : s.files ⊆ (next baseURL s t).1.files := by
  cases t with
  | waiting job => exact (begin_cookbooks baseURL s job).2
  | cleaning _ _ _ | sweeping _ _ | removing _ _ | scanning _ _ | unlinking _ _ => cases ht
  | _ => exact List.Subset.refl _

lemma Task.Fit.other (hu : u.Fit s) (hp : t.Apart u) (hs : (next baseURL s t).2.Apart u) :
    u.Fit (next baseURL s t).1 := by
  cases hcu : u.collects with
  | true =>
    obtain ⟨hc, hf⟩ := next_of_not_inProgress baseURL s (hp.2 hcu)
    exact hu.upload hc hf
  | false =>
    cases hct : t.collects with
    | false => exact hu.mono hcu (files_subset_next hct)
    | true =>
      have hi := hp.1 hct
      cases u with
      | waiting job | finished => trivial
      | _ => cases hi

lemma begin_fit (hn : s.Named) (hcl : s.Clean) (job : Job) : (begin baseURL s job).2.Fit (begin baseURL s job).1 := by
  cases job with
  | upload chksum => trivial
  | put name path data force =>
    simp only [begin]
    split
    · trivial
    next ver hp =>
      have hvr := pathVersion_accepted hp
      split
      · next h hg =>
        obtain ⟨c, hc, hv⟩ := get_eq_some hg
        rw [hv]
        exact ⟨hn.name name c hc, hn.keyed name c hc, hvr, (hcl name c hc).congr rfl, fun _ => ⟨c, hc, rfl⟩⟩
      · split
        · trivial
        · next c hc =>
          refine ⟨?_, hvr⟩
          unfold Cookbook.new at hc
          split at hc <;> cases hc
          rfl
  | delete name path =>
    simp only [begin]
    split
    · trivial
    next ver hp =>
      split
      · trivial
      · next h hg =>
        obtain ⟨c, hc, hv⟩ := get_eq_some hg
        split
        · have hnm : h.val.name = name := by
            rw [hv]
            exact hn.name name c hc
          refine ⟨?_, pathVersion_accepted hp, ?_⟩
          · rw [hnm, hv]
            exact hn.keyed name c hc
          · rw [hv]
            exact (hcl name c hc).congr rfl
        · trivial

lemma check_fit {name ver : Text} {data : JsonMap} {force : Bool} {c : Cookbook}
    (ht : (Task.checking name ver data force c).Fit s) : (check baseURL s.files name ver data force c).Fit s := by
  obtain ⟨rfl, hk, hve, hcv, hs⟩ := ht
  unfold check
  cases hv : c.versions.lookup ver with
  | some v =>
    simp only
    obtain ⟨hvv, hvn⟩ := hk ver v hv
    rcases updateVersion_cases baseURL s.files data force hve hv with ⟨cbv, heq, hu⟩ | ⟨e, heq⟩
    · rw [heq]
      have hcb := (updateVersion_version hu).trans hvv
      have hcn := (updateVersion_cookbookName hu).trans hvn
      have hk' : (c.setVersion ver cbv).KeyedAs c.name := hk.insert hcb hcn rfl
      have hc' : (c.setVersion ver cbv).Covered s.files := hcv.insert hu rfl
      simp only
      split
      · exact ⟨hk', hc'⟩
      · next hne =>
        have hc : (Task.checking c.name ver data force c).collects = true := by
          simpa [Task.collects, hv] using hne
        obtain ⟨c₀, hc₀, hvr⟩ := hs hc
        refine ⟨hk', hc', ⟨v, rfl⟩, hcn, c₀, hc₀, ?_⟩
        rw [hvr, hcb]
        rfl
    · rw [heq]
      trivial
  | none =>
    simp only
    split
    · trivial
    · rcases newVersion_cases (c := c) baseURL s.files data hve with ⟨cbv, d, heq, hd, hu⟩ | ⟨e, heq⟩
      · have hn := newVersion_name baseURL s.files data c hve
        rw [heq] at hn ⊢
        have hdn : d.name = c.name := hn
        refine ⟨?_, hcv.insert hu hd⟩
        rw [hdn]
        exact hk.insert (updateVersion_version hu) (updateVersion_cookbookName hu) hd
      · rw [heq]
        cases e with
        | panic p => trivial
        | refused e =>
          simp only
          split <;> trivial

lemma next_fit (hn : s.Named) (hcl : t.inProgress = false → s.Clean) (ht : t.Fit s) :
    (next baseURL s t).2.Fit (next baseURL s t).1 := by
  cases t with
  | waiting job => exact begin_fit hn (hcl rfl) job
  | dropping c | finished => trivial
  | opening name ver data force c =>
    obtain ⟨rfl, hvr⟩ := ht
    exact ⟨rfl, keyedAs_blank name, hvr, covered_blank name _, fun hc => nomatch hc⟩
  | checking name ver data force c => exact check_fit ht
  | cleaning c cbv fhashes =>
    obtain ⟨hky, hcv, ⟨v, rfl⟩, hcb, c₀, hc₀, hvs⟩ := ht
    simp only [next]
    split
    · trivial
    next h hg =>
      obtain ⟨c₁, hc₁, hvl⟩ := get_eq_some hg
      rw [hcb, hc₀] at hc₁
      cases hc₁
      have hs : ∀ {h' k d}, h' ∈ s.unusedHashes (safe baseURL)
          { h.val with versions := h.val.versions.insert cbv.version cbv } v.fileHashes →
          s.cookbooks.find k = some d → if k = c.name then ¬ c.Lists h' else ¬ d.Lists h' := by
        intro h' k d hh hd
        have hl := unusedHashes_not_lists hn hh hd
        have hnm : h.val.name = c.name := by
          rw [hvl]
          exact hn.name c.name c₀ hc₀
        have hsm : Cookbook.Lists { h.val with versions := h.val.versions.insert cbv.version cbv } h' ↔ c.Lists h' := by
          rw [Cookbook.Lists, Cookbook.Lists, hvs, hvl]
          rfl
        rw [hnm] at hl
        rwa [hsm] at hl
      refine ⟨hky, hcv, fun h' hh => ?_, fun k d hd hk h' hh => ?_⟩
      · have hl := hs hh hc₀
        rwa [if_pos rfl] at hl
      · have hl := hs hh hd
        rwa [if_neg hk] at hl
  | sweeping c unused => exact ⟨ht.1, ht.2.1.removeFiles ht.2.2.1⟩
  | saving c mends => trivial
  | removing ver c =>
    obtain ⟨hky, hvr, hcv⟩ := ht
    simp only [next]
    cases hv : c.versions.lookup ver with
    | none =>
      rw [Cookbook.deleteVersion, Cookbook.getVersion_none hvr hv]
      trivial
    | some v =>
      rw [Cookbook.deleteVersion, Cookbook.getVersion_some hvr hv]
      exact ⟨⟨v, rfl⟩, (find_saved s _ _).trans (if_pos rfl)⟩
  | scanning c fhashes =>
    obtain ⟨⟨v, rfl⟩, hst⟩ := ht
    intro k d hd h hh
    have hf : s.cookbooks.find k = some d := hd
    have hl := unusedHashes_not_lists hn hh hf
    split at hl
    · next hk =>
      rw [hk, hst] at hf
      cases hf
      exact hl
    · exact hl
  | unlinking c unused =>
    simp only [next]
    split <;> trivial

lemma next_named (hn : s.Named) (ht : t.Fit s) : (next baseURL s t).1.Named := by
  cases t with
  | waiting job =>
    obtain ⟨hc, -⟩ := begin_cookbooks baseURL s job
    constructor
    · rw [next, hc]
      exact hn.name
    · rw [next, hc]
      exact hn.keyed
  | opening name ver data force c =>
    obtain ⟨rfl, -⟩ := ht
    exact hn.save (keyedAs_blank name)
  | saving c mends => exact hn.save ht.1
  | removing ver c =>
    obtain ⟨hk, hv, -⟩ := ht
    simp only [next]
    rcases deleteVersion_cases (c := c) hv with ⟨fhashes, heq⟩ | ⟨e, heq⟩
    · rw [heq]
      exact hn.save hk.erase
    · rw [heq]
      exact hn
  | dropping c => exact hn.delete c
  | cleaning c cbv fhashes =>
    simp only [next]
    split <;> exact hn
  | checking name ver data force c | scanning c fhashes | finished => exact hn
  | sweeping c unused | unlinking c unused => exact ⟨hn.name, hn.keyed⟩

lemma next_clean (baseURL : Text) (hcl : s.Clean) (ht : t.Fit s) : (next baseURL s t).1.Clean ∨
    ∃ c, (next baseURL s t).2 = .saving c true ∧ (next baseURL s t).1.CleanBut c.name := by
  cases t with
  | waiting job =>
    left
    obtain ⟨hck, hf⟩ := begin_cookbooks baseURL s job
    intro k c hc
    rw [next, hck] at hc
    exact (hcl k c hc).mono hf
  | opening name ver data force c =>
    obtain ⟨rfl, -⟩ := ht
    exact .inl (Server.CleanBut.save (fun k d hd _ => hcl k d hd) (covered_blank name _))
  | saving c mends => exact .inl (Server.CleanBut.save (fun k d hd _ => hcl k d hd) ht.2)
  | removing ver c =>
    left
    obtain ⟨-, hv, hcv⟩ := ht
    simp only [next]
    rcases deleteVersion_cases (c := c) hv with ⟨fhashes, heq⟩ | ⟨e, heq⟩
    · rw [heq]
      exact Server.CleanBut.save (fun k d hd _ => hcl k d hd) hcv.erase
    · rw [heq]
      exact hcl
  | dropping c => exact .inl (hcl.delete c)
  | cleaning c cbv fhashes =>
    left
    simp only [next]
    split <;> exact hcl
  | sweeping c unused =>
    exact .inr ⟨c, rfl, fun k d hd hk => (hcl k d hd).removeFiles (ht.2.2.2 k d hd hk)⟩
  | unlinking c unused => exact .inl fun k d hd => (hcl k d hd).removeFiles (ht k d hd)
  | checking name ver data force c | scanning c fhashes | finished => exact .inl hcl

end

section

variable {baseURL : Text}

structure Intact (p : Pool Server Task) : Prop where
  named : p.shared.Named
  fit : ∀ (i : ℕ) t, p.threads[i]? = some t → t.Fit p.shared
  apart : ∀ (i j : ℕ) t u, i ≠ j → p.threads[i]? = some t → p.threads[j]? = some u → t.Apart u
  clean : p.shared.Clean ∨ ∃ (i : ℕ) (c : Cookbook), p.threads[i]? = some (.saving c true) ∧ p.shared.CleanBut c.name

lemma Task.Apart.symm {t u : Task} (h : t.Apart u) : u.Apart t := ⟨h.2, h.1⟩

lemma Server.CleanBut.upload {s s' : Server} {name : Text} (h : s.CleanBut name) (hc : s'.cookbooks = s.cookbooks)
    (hf : s.files ⊆ s'.files) : s'.CleanBut name := fun k d hd hk =>
  (h k d (by rwa [hc] at hd) hk).mono hf

lemma Intact.clean_of_begin {p : Pool Server Task} (hp : Intact p) {i : ℕ} {t : Task} (hi : p.threads[i]? = some t)
    (ht : t.inProgress = false) (hs : ∀ (j : ℕ) u, j ≠ i → p.threads[j]? = some u →
      (next baseURL p.shared t).2.Apart u) (hb : (next baseURL p.shared t).2.inProgress = true) : p.shared.Clean := by
  rcases hp.clean with hc | ⟨j, c, hj, -⟩
  · exact hc
  · have hji : j ≠ i := by
      rintro rfl
      rw [hi] at hj
      cases hj
      cases ht
    have hid := (hs j _ hji hj).2 rfl
    rw [hb] at hid
    cases hid

lemma Intact.step {p : Pool Server Task} (hp : Intact p) {i : ℕ} (hq : p.Quiet (StaysApart baseURL) i) :
    Intact (p.step (next baseURL) i) := by
  cases hi : p.threads[i]? with
  | none =>
    rw [Pool.step_none hi]
    exact hp
  | some t =>
    rw [Pool.step_some hi]
    have ht := hp.fit i t hi
    have hs : ∀ (j : ℕ) u, j ≠ i → p.threads[j]? = some u → (next baseURL p.shared t).2.Apart u :=
      fun j u hj hu => hq j t u hj hi hu
    refine ⟨next_named hp.named ht, fun j u hu => ?_, fun j k u v hjk hu hv => ?_, ?_⟩
    · rcases Pool.set_cases hu with ⟨-, rfl⟩ | ⟨hj, hu⟩
      · cases hb : (next baseURL p.shared t).2.inProgress with
        | true => exact next_fit hp.named (fun hid => hp.clean_of_begin hi hid hs hb) ht
        | false =>
          cases h : (next baseURL p.shared t).2 with
          | waiting job | finished => trivial
          | _ =>
            rw [h] at hb
            cases hb
      · exact (hp.fit j u hu).other (hp.apart i j t u hj.symm hi hu) (hs j u hj hu)
    · rcases Pool.set_cases hu with ⟨hj, rfl⟩ | ⟨hj, hu'⟩ <;> rcases Pool.set_cases hv with ⟨hk, rfl⟩ | ⟨hk, hv'⟩
      · exact absurd (hj.trans hk.symm) hjk
      · exact hs k v hk hv'
      · exact (hs j u hj hu').symm
      · exact hp.apart j k u v hjk hu' hv'
    · rcases hp.clean with hcl | ⟨j, c, hj, hbt⟩
      · rcases next_clean baseURL hcl ht with hn | ⟨c, hc, hbt⟩
        · exact .inl hn
        · refine .inr ⟨i, c, ?_, hbt⟩
          rw [List.getElem?_set_self (List.getElem?_eq_some_iff.mp hi).1, hc]
      · by_cases hji : j = i
        · subst hji
          rw [hi] at hj
          cases hj
          exact .inl (hbt.save ht.2)
        · have hid := (hp.apart j i _ t hji hj hi).1 rfl
          obtain ⟨hck, hf⟩ := next_of_not_inProgress baseURL p.shared hid
          refine .inr ⟨j, c, ?_, hbt.upload hck hf⟩
          rw [List.getElem?_set_ne (fun heq => hji heq.symm), hj]

lemma Intact.run {p : Pool Server Task} (hp : Intact p) (schedule : List ℕ)
    (hq : p.QuietRun (next baseURL) (StaysApart baseURL) schedule) : Intact (p.run (next baseURL) schedule) := by
  induction schedule generalizing p with
  | nil => exact hp
  | cons i schedule ih => exact ih (hp.step hq.1) hq.2

def collectionPool (s : Server) (jobs : List Job) : Pool Server Task := ⟨s, jobs.map .waiting⟩

theorem run_clean (baseURL : Text) (s : Server) (jobs : List Job) (schedule : List ℕ) (hnamed : s.Named)
    (hclean : s.Clean) (hquiet : (collectionPool s jobs).QuietRun (next baseURL) (StaysApart baseURL) schedule)
    (hidle : ∀ t ∈ ((collectionPool s jobs).run (next baseURL) schedule).threads, t.inProgress = false) :
    ((collectionPool s jobs).run (next baseURL) schedule).shared.Clean := by
  have hs : Intact (collectionPool s jobs) := by
    have hw : ∀ (i : ℕ) t, (jobs.map Task.waiting)[i]? = some t → ∃ job, t = .waiting job := by
      intro i t ht
      obtain ⟨job, -, rfl⟩ := mem_map.mp (mem_of_getElem? ht)
      exact ⟨job, rfl⟩
    refine ⟨hnamed, fun i t ht => ?_, fun i j t u _ ht hu => ?_, .inl hclean⟩
    · obtain ⟨job, rfl⟩ := hw i t ht
      trivial
    · obtain ⟨job, rfl⟩ := hw i t ht
      obtain ⟨job', rfl⟩ := hw j u hu
      exact ⟨fun _ => rfl, fun _ => rfl⟩
  rcases (hs.run schedule hquiet).clean with hf | ⟨i, c, hi, -⟩
  · exact hf
  · cases hidle _ (mem_of_getElem? hi)

def readme : Text := "0cc175b9c0f1b6a831c399e269772661"

def readmeItem : Json :=
  .obj [(nameField, .str "README.md"), ("path", .str "README.md"),
    ("specificity", .str "default"), (checksumField, .str readme)]

def putReadme (name : String) : Job :=
  .put name.toList "1.0.0"
    (plainBody name.toList "1.0.0" ++ [(Division.rootFiles.field, .arr [readmeItem])]) false

theorem run_clean_one_by_one :
    ((collectionPool emptyServer [.upload readme, putReadme "app", .delete "app" "1.0.0"]).run (next [])
      [0, 1, 1, 1, 1, 2, 2, 2, 2, 2]).shared.Clean :=
  run_clean [] emptyServer _ [0, 1, 1, 1, 1, 2, 2, 2, 2, 2] ⟨fun _ _ h => (by cases h), fun _ _ h => (by cases h)⟩ (fun _ _ hc => nomatch hc)
    (by decide +kernel) (by decide +kernel)

-- app 1.0.0 is stored with the file when web 1.0.0 is put and app 1.0.0 deleted
def twoReadmes : Pool Server Task :=
  (collectionPool emptyServer [.upload readme, putReadme "app", putReadme "web",
    .delete "app" "1.0.0"]).run (next []) [0, 1, 1, 1, 1]

def listsReadme (c : Cookbook) : Option Bool :=
  (c.versions.lookup "1.0.0".toList).map fun v => (v.divisions .rootFiles).any fun item => checksum item = some readme

theorem run_not_clean : (∀ t ∈ (twoReadmes.run (next []) [2, 2, 2, 3, 3, 3, 3, 3, 2]).threads, t.inProgress = false) ∧
      ¬ (twoReadmes.run (next []) [2, 2, 2, 3, 3, 3, 3, 3, 2]).shared.Clean := by
  refine ⟨by decide +kernel, fun hcl => ?_⟩
  have hg : readme ∉ (twoReadmes.run (next []) [2, 2, 2, 3, 3, 3, 3, 3, 2]).shared.files := by
    decide +kernel
  have hl : ((twoReadmes.run (next []) [2, 2, 2, 3, 3, 3, 3, 3, 2]).shared.cookbooks.find "web".toList).bind
      listsReadme = some true := by
    decide +kernel
  obtain ⟨c, hc, hvr⟩ := bind_eq_some_iff.mp hl
  obtain ⟨v, hv, hi⟩ := map_eq_some_iff.mp hvr
  obtain ⟨item, hit, hs⟩ := any_eq_true.mp hi
  exact hg (hcl _ c hc readme ⟨_, v, hv, .rootFiles, item, hit, of_decide_eq_true hs⟩)

end

end Goiardi.Uploads
