import Goiardi.Cookbooks.Requests
import Goiardi.DataBags.Items

/-! Requests on versions of one cookbook, or on items of one data bag, that run at the same time. Each of them reads
the whole cookbook or bag, changes its own copy and stores it. -/

namespace Goiardi.Uploads

open Validation List Option AList

inductive VersionRequest
  | create (stored : List Text) (path : Text) (data : JsonMap)
  | delete (path : Text)

abbrev Reply := Except Fault Unit × List (Option Cookbook)

namespace VersionRequest

variable (baseURL name : Text)

def addVersion (stored : List Text) (ver : Text) (data : JsonMap) (c : Cookbook) : Reply :=
  if (c.versions.lookup ver).isNone ∧ namesOther data name then (.error (fieldInvalid nameField), [])
  else
    match c.newVersion baseURL stored ver data with
    | (.error (.panic p), _) => (.error (.panic p), [])
    | (.error (.refused e), c) => (.error (.refused e), if c.numVersions = 0 then [none] else [])
    | (.ok _, c) => (.ok (), [some c])

def createIn (stored : List Text) (ver : Text) (data : JsonMap) : Option Cookbook → Reply
  | some c => addVersion baseURL name stored ver data (c.fetched .copying)
  | none =>
    match Cookbook.new name with
    | .error e => (.error e, [])
    | .ok c =>
      let (answer, writes) := addVersion baseURL name stored ver data c
      (answer, some c :: writes)

def deleteIn (ver : Text) : Option Cookbook → Reply
  | none => (.error (cookbookNotFound name), [])
  | some c =>
    match (c.fetched .copying).deleteVersion ver with
    | (.error _, c) => (.error (c.versionNotFound ver), [])
    | (.ok _, c) => (.ok (), some c :: if c.numVersions = 0 then [none] else [])

def serve (s : Option Cookbook) : VersionRequest → Reply
  | create stored path data =>
    match pathVersion path with
    | .error e => (.error e, [])
    | .ok ver => createIn baseURL name stored ver data s
  | delete path =>
    match pathVersion path with
    | .error e => (.error e, [])
    | .ok ver => deleteIn name ver s

def key : VersionRequest → Text
  | create _ path _ | delete path => path

def toUpdate (r : VersionRequest) : Update (Option Cookbook) Text where
  key := r.key
  writes s := (r.serve baseURL name s).2
  succeeds s := (r.serve baseURL name s).1.isOk

end VersionRequest

def look (s : Option Cookbook) (ver : Text) : Option CookbookVersion := s.bind fun c => c.versions.lookup ver

def VersionRequest.Reflected (baseURL name : Text) (v final : Option Cookbook) : VersionRequest → Prop
  | create stored path data => ∃ cbv,
      updateVersion baseURL stored ((v.getD (.blank name)).blankVersion path) data false = .ok cbv ∧
        look final path = some cbv
  | delete path => look final path = none

section

open VersionRequest

variable {baseURL name ver : Text} {stored : List Text} {data : JsonMap} {c : Cookbook}

lemma look_empty (h : c.numVersions = 0) (k : Text) : look (some c) k = none := by
  by_contra hne
  obtain ⟨v, hv⟩ := ne_none_iff_exists'.mp hne
  exact Cookbook.numVersions_ne_zero hv h

lemma look_purge {w : Option Cookbook} (h : w ∈ if c.numVersions = 0 then [none] else []) (k : Text) :
    look w k = look (some c) k := by
  split at h
  · next hz =>
    obtain rfl := mem_singleton.mp h
    exact (look_empty hz k).symm
  · cases h

lemma addVersion_look (hv : AcceptedVersion ver) :
    ∀ w ∈ (addVersion baseURL name stored ver data c).2, ∀ k, k ≠ ver → look w k = look (some c) k := by
  intro w hw k hk
  unfold addVersion at hw
  split at hw
  · cases hw
  · rcases newVersion_cases baseURL stored data hv with ⟨cbv, d, heq, hd, -⟩ | ⟨e, heq⟩
    · rw [heq] at hw
      obtain rfl := mem_singleton.mp hw
      simp only [look, bind_some, hd]
      exact lookup_insert_ne hk
    · rw [heq] at hw
      cases e with
      | panic p => cases hw
      | refused e => exact look_purge hw k

lemma addVersion_ok (hv : AcceptedVersion ver) (hok : (addVersion baseURL name stored ver data c).1.isOk = true) :
    ∃ d cbv, (addVersion baseURL name stored ver data c).2 = [some d] ∧ d.versions.lookup ver = some cbv ∧
      updateVersion baseURL stored (c.blankVersion ver) data false = .ok cbv := by
  unfold addVersion at hok ⊢
  split at hok
  · cases hok
  · next hn =>
    rw [if_neg hn]
    rcases newVersion_cases baseURL stored data hv with ⟨cbv, d, heq, hd, hu⟩ | ⟨e, heq⟩
    · rw [heq]
      exact ⟨d, cbv, rfl, by rw [hd, lookup_insert], hu⟩
    · rw [heq] at hok
      cases e <;> cases hok

lemma toUpdate_local (r : VersionRequest) : (r.toUpdate baseURL name).Local look := by
  intro s w hw k hk
  cases r with
  | create stored path data =>
    simp only [toUpdate, VersionRequest.serve] at hw
    split at hw
    · cases hw
    next ver hp =>
      have hv := pathVersion_accepted hp
      obtain rfl := pathVersion_eq hp
      cases s with
      | some c => exact addVersion_look hv w hw k hk
      | none =>
        simp only [createIn, Cookbook.new] at hw
        split at hw
        · cases hw
        next c hc =>
          split at hc
          · cases hc
            rcases mem_cons.mp hw with rfl | hw
            · rfl
            · exact addVersion_look hv w hw k hk
          · cases hc
  | delete path =>
    simp only [toUpdate, VersionRequest.serve] at hw
    split at hw
    · cases hw
    next ver hp =>
      have hv := pathVersion_accepted hp
      obtain rfl := pathVersion_eq hp
      cases s with
      | none => cases hw
      | some c =>
        rw [deleteIn] at hw
        rcases deleteVersion_cases (c := c.fetched .copying) hv with ⟨fhashes, heq⟩ | ⟨e, heq⟩
        · rw [heq] at hw
          have he : look (some { c.fetched .copying with versions := c.versions.erase ver }) k = look (some c) k :=
            lookup_erase_ne hk
          rcases mem_cons.mp hw with rfl | hw
          · exact he
          · exact (look_purge hw k).trans he
        · rw [heq] at hw
          cases hw

lemma VersionRequest.Reflected.congr {r : VersionRequest} {v final final' : Option Cookbook}
    (h : r.Reflected baseURL name v final) (hf : look final' r.key = look final r.key) :
    r.Reflected baseURL name v final' := by
  cases r with
  | create stored path data =>
    obtain ⟨cbv, hu, hl⟩ := h
    exact ⟨cbv, hu, hf.trans hl⟩
  | delete path => exact hf.trans h

lemma toUpdate_outcome (r : VersionRequest) {v : Option Cookbook} (hok : (r.toUpdate baseURL name).succeeds v = true) :
    r.Reflected baseURL name v ((r.toUpdate baseURL name).outcome v) := by
  cases r with
  | create stored path data =>
    simp only [Update.outcome, toUpdate, VersionRequest.serve] at hok ⊢
    split at hok
    · cases hok
    next ver hp =>
      have hv := pathVersion_accepted hp
      obtain rfl := pathVersion_eq hp
      cases v with
      | some c =>
        obtain ⟨d, cbv, hw, hd, hu⟩ := addVersion_ok hv hok
        refine ⟨cbv, hu, ?_⟩
        simp only [createIn, hw]
        exact hd
      | none =>
        simp only [createIn] at hok ⊢
        cases hc : Cookbook.new name with
        | error e =>
          rw [hc] at hok
          cases hok
        | ok c =>
          rw [hc] at hok
          obtain ⟨d, cbv, hw, hd, hu⟩ := addVersion_ok hv hok
          obtain rfl : .blank name = c := by
            unfold Cookbook.new at hc
            split at hc <;> cases hc
            rfl
          refine ⟨cbv, hu, ?_⟩
          simp only [hw]
          exact hd
  | delete path =>
    simp only [Update.outcome, toUpdate, VersionRequest.serve] at hok ⊢
    split at hok
    · cases hok
    next ver hp =>
      have hv := pathVersion_accepted hp
      obtain rfl := pathVersion_eq hp
      cases v with
      | none => cases hok
      | some c =>
        rw [deleteIn] at hok ⊢
        rcases deleteVersion_cases (c := c.fetched .copying) hv with ⟨fhashes, heq⟩ | ⟨e, heq⟩
        · rw [heq]
          simp only
          split
          · rfl
          · exact lookup_erase ver _
        · rw [heq] at hok
          cases hok

end

section

open VersionRequest

variable {baseURL name path ver : Text} {s : Server} {data : JsonMap} {h : Cell Cookbook}

/-- The handler's answer and the cookbook it leaves are the request's. -/
def Follows (name : Text) (s : Server) (reply : Reply) (r : Except Fault Unit × Server) : Prop :=
  r.1 = reply.1 ∧ r.2.cookbooks.find name = reply.2.getLast?.getD (s.cookbooks.find name)

lemma find_save_copying (baseURL : Text) (s : Server) (h : Cell Cookbook) (k : Text) :
    (s.save ⟨.copying, baseURL⟩ h).cookbooks.find k = if k = h.val.name then some h.val else s.cookbooks.find k :=
  Shelf.find_put_copying

lemma putInto_follows (baseURL : Text) (s : Server) (data : JsonMap) (force : Bool) (hvr : AcceptedVersion ver)
    (hnm : h.val.name = name) (hv : h.val.versions.lookup ver = none) : Follows name s (addVersion baseURL name s.files ver data h.val)
      (putInto ⟨.copying, baseURL⟩ name ver data force h s) := by
  have hn := newVersion_name baseURL s.files data h.val hvr
  simp only [putInto, addVersion, hv, isNone_none, true_and]
  split
  · exact ⟨rfl, rfl⟩
  · unfold createVersion
    cases hr : h.val.newVersion baseURL s.files ver data with
    | mk answer c =>
      rw [hr, hnm] at hn
      cases answer with
      | ok cbv =>
        refine ⟨rfl, ?_⟩
        refine (find_save_copying baseURL s ⟨h.id, c⟩ name).trans ?_
        rw [if_pos hn.symm]
        rfl
      | error e =>
        cases e with
        | panic p => exact ⟨rfl, rfl⟩
        | refused e =>
          refine ⟨rfl, ?_⟩
          simp only
          split
          · refine Shelf.find_remove.trans ?_
            rw [if_pos hn.symm]
            rfl
          · rfl

theorem putVersion_follows (ht : s.cookbooks.Tidy Cookbook.name) (hf : look (s.cookbooks.find name) path = none)
    (force : Bool) : Follows name s ((create s.files path data).serve baseURL name (s.cookbooks.find name))
      (putVersion ⟨.copying, baseURL⟩ true name path (.ok data) force s) := by
  simp only [VersionRequest.serve, putVersion]
  cases hp : pathVersion path with
  | error e =>
    rw [checkPut, hp]
    exact ⟨rfl, rfl⟩
  | ok ver =>
    have hv := pathVersion_accepted hp
    obtain rfl := pathVersion_eq hp
    rw [checkPut_eq_ok.mpr ⟨hp, rfl, rfl⟩]
    simp only
    cases hg : s.cookbooks.get name with
    | some h =>
      rw [Shelf.find_of_get hg] at hf ⊢
      simp only [Server.get, hg, map_some, createIn]
      exact putInto_follows (h := ⟨h.id, h.val.fetched .copying⟩) baseURL s data force hv (ht.named name h hg) hf
    | none =>
      rw [Shelf.find_eq_none.mpr hg]
      simp only [Server.get, hg, map_none, createIn]
      cases hc : Cookbook.new name with
      | error e => exact ⟨rfl, rfl⟩
      | ok c =>
        obtain rfl : .blank name = c := by
          unfold Cookbook.new at hc
          split at hc <;> cases hc
          rfl
        have hn : (s.cookbooks.fresh (Cookbook.blank name)).val.name = name := rfl
        obtain ⟨ha, hfn⟩ := putInto_follows baseURL (s.save ⟨.copying, baseURL⟩ (s.cookbooks.fresh (.blank name)))
          data force hv hn rfl
        refine ⟨ha, hfn.trans ?_⟩
        rw [find_fresh, if_pos rfl, List.getLast?_cons, getD_some]
        rfl

theorem putVersion_follows_empty : Follows "app" emptyServer
    ((create [] "1.0.0" (plainBody "app" "1.0.0")).serve [] "app" none)
      (putVersion ⟨.copying, []⟩ true "app" "1.0.0" (.ok (plainBody "app" "1.0.0")) false emptyServer) :=
  putVersion_follows Shelf.tidy_empty rfl false

end

section

open Update

def versionPool (baseURL name : Text) (start : Option Cookbook) (rs : List VersionRequest) :
    Pool (Option Cookbook) (Stage (Option Cookbook) Text) :=
  ⟨start, (rs.map (VersionRequest.toUpdate baseURL name)).map .idle⟩

def itemPool (name : Text) (start : Option DataBags.DataBag) (rs : List DataBags.ItemRequest) :
    Pool (Option DataBags.DataBag) (Stage (Option DataBags.DataBag) Text) :=
  ⟨start, (rs.map (DataBags.ItemRequest.toUpdate name)).map .idle⟩

/-- If no request reads the cookbook or bag while another one is between its own read and its last store, then the
change of every request that reports success is in what is stored at the end. -/
theorem changes_kept (name : Text) :
    (∀ (baseURL : Text) (start : Option Cookbook) (rs : List VersionRequest) (schedule : List ℕ),
      rs.Pairwise (fun r r' => r.key ≠ r'.key) →
      Pool.QuietRun advance Apart (versionPool baseURL name start rs) schedule → ∀ (i : ℕ) r, rs[i]? = some r →
        ((versionPool baseURL name start rs).run advance schedule).threads[i]?.any Stage.succeeded = true →
        ∃ v, look v r.key = look start r.key ∧
          r.Reflected baseURL name v ((versionPool baseURL name start rs).run advance schedule).shared) ∧
    (∀ (start : Option DataBags.DataBag) (rs : List DataBags.ItemRequest) (schedule : List ℕ),
      rs.Pairwise (fun r r' => r.key ≠ r'.key) → Pool.QuietRun advance Apart (itemPool name start rs) schedule →
      ∀ (i : ℕ) r, rs[i]? = some r →
        ((itemPool name start rs).run advance schedule).threads[i]?.any Stage.succeeded = true →
        ∃ db, r.Reflected start db ((itemPool name start rs).run advance schedule).shared) := by
  constructor
  · intro baseURL start rs schedule hk hq i r hr hd
    have hu : (rs.map (VersionRequest.toUpdate baseURL name))[i]? = some (r.toUpdate baseURL name) := by
      rw [List.getElem?_map, hr, map_some]
    obtain ⟨v, hok, hv, hf⟩ := run_reflects look (rs.map (VersionRequest.toUpdate baseURL name))
      (by simp [toUpdate_local]) (pairwise_map.mpr hk) hq hu hd
    exact ⟨v, hv, (toUpdate_outcome r hok).congr hf⟩
  · intro start rs schedule hk hq i r hr hd
    have hu : (rs.map (DataBags.ItemRequest.toUpdate name))[i]? = some (r.toUpdate name) := by
      rw [List.getElem?_map, hr, map_some]
    obtain ⟨v, hok, hv, hf⟩ := run_reflects DataBags.look (rs.map (DataBags.ItemRequest.toUpdate name))
      (by simp [DataBags.toUpdate_local]) (pairwise_map.mpr hk) hq hu hd
    obtain ⟨db, -, hdb⟩ := DataBags.toUpdate_outcome r hok
    exact ⟨db, hdb.congr hv.symm hf⟩

def createApp (ver : String) : VersionRequest :=
  .create [] ver.toList (plainBody "app" ver.toList)

def appCookbook : Cookbook :=
  ((Cookbook.blank "app").newVersion [] [] "0.1.0" (plainBody "app" "0.1.0")).2

def twoApps : Pool (Option Cookbook) (Stage (Option Cookbook) Text) :=
  versionPool [] "app" (some appCookbook) [createApp "1.0.0", createApp "2.0.0"]

def postItem (id : String) : DataBags.ItemRequest := .post [(DataBags.idField, .str id.toList)]

def twoItems : Pool (Option DataBags.DataBag) (Stage (Option DataBags.DataBag) Text) :=
  itemPool "bag" (some ⟨"bag", ∅⟩) [postItem "one", postItem "two"]

theorem changes_kept_one_by_one : (∃ v, look v "1.0.0" = look twoApps.shared "1.0.0" ∧
      (createApp "1.0.0").Reflected [] "app" v (twoApps.run advance [0, 0, 0, 1, 1, 1]).shared) ∧
    ∃ db, (postItem "one").Reflected twoItems.shared db (twoItems.run advance [0, 0, 0, 1, 1, 1]).shared :=
  ⟨(changes_kept "app").1 [] _ [createApp "1.0.0", createApp "2.0.0"] [0, 0, 0, 1, 1, 1] (by decide)
      (by decide +kernel) 0 _ rfl (by decide +kernel),
    (changes_kept "bag").2 _ [postItem "one", postItem "two"] [0, 0, 0, 1, 1, 1] (by decide) (by decide +kernel)
      0 _ rfl (by decide +kernel)⟩

theorem change_lost : ((twoApps.run advance [0, 1, 0, 1, 0, 1]).threads.map Stage.succeeded = [true, true] ∧
      ∀ v, ¬ (createApp "1.0.0").Reflected [] "app" v (twoApps.run advance [0, 1, 0, 1, 0, 1]).shared) ∧
    (twoItems.run advance [0, 1, 0, 1, 0, 1]).threads.map Stage.succeeded = [true, true] ∧
      ∀ db, ¬ (postItem "one").Reflected twoItems.shared db (twoItems.run advance [0, 1, 0, 1, 0, 1]).shared := by
  refine ⟨⟨by decide +kernel, ?_⟩, by decide +kernel, ?_⟩
  · rintro v ⟨cbv, -, hl⟩
    have hn : (look (twoApps.run advance [0, 1, 0, 1, 0, 1]).shared "1.0.0").isNone = true := by
      decide +kernel
    rw [hl] at hn
    cases hn
  · rintro db ⟨data, -, hl⟩
    have hn : (DataBags.look (twoItems.run advance [0, 1, 0, 1, 0, 1]).shared (postItem "one").key).isNone = true := by
      decide +kernel
    rw [postItem, hl] at hn
    cases hn

end

end Goiardi.Uploads
