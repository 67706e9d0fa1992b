import Goiardi.Dump.Actors
import Goiardi.Dump.Cookbooks
import Goiardi.Dump.History

/-! What an export and an import into a new server give back. -/

namespace Goiardi.Dump

open Validation List
open Actors (Client User World)
open DataBags (DataBag)
open Nodes (StatusStore StatusFault)
open Objects (Node Role ChefEnvironment Sandbox ShoveyRunStream LogInfo checkAttrs)
open Push (Shovey ShoveyRun)
open Retention (NodeStatus)
open Uploads (Cookbook Fault refuse demand)

structure Snapshot (formats : Formats) extends Server where
  summed : ∀ k f, files.lookup k = some f → f.chksum = k ∧ formats.md5 f.data = k
  consistent : statuses.Consistent encodes

def SameBag (db db' : DataBag) : Prop := db.name = db'.name ∧ ∀ id, db.items.lookup id = db'.items.lookup id

/-- Two servers with the same objects. What a cookbook has cached and the numbers of the statuses do not count. -/
structure Same (s t : Server) : Prop where
  clients : ∀ k, t.actors.clients.find k = s.actors.clients.find k
  users : ∀ k, t.actors.users.find k = s.actors.users.find k
  cookbooks : ∀ k, Option.Rel SameCookbook (t.cookbooks.lookup k) (s.cookbooks.lookup k)
  bags : ∀ k, Option.Rel SameBag (t.bags.lookup k) (s.bags.lookup k)
  environments : ∀ k, t.findEnvironment k = s.findEnvironment k
  nodes : ∀ k, t.nodes.lookup k = s.nodes.lookup k
  roles : ∀ k, t.roles.lookup k = s.roles.lookup k
  sandboxes : ∀ k, t.sandboxes.lookup k = s.sandboxes.lookup k
  logs : ∀ i, t.logs.lookup i = s.logs.lookup i
  reports : ∀ k, t.reports.lookup k = s.reports.lookup k
  statuses : SameStatuses s.statuses t.statuses
  shoveys : ∀ k, t.shoveys.lookup k = s.shoveys.lookup k
  runs : ∀ k, t.runs.lookup k = s.runs.lookup k
  streams : ∀ k, t.streams.lookup k = s.streams.lookup k

def Restores (setup : Setup) (now : ℤ) (s : Server) : Prop :=
  ∃ doc, exportAll setup.formats now s = .ok doc ∧ ∃ t, importAll setup doc = .ok t ∧ Same s t

structure Restorable (setup : Setup) (s : Server) : Prop where
  clients : ∀ k c, s.actors.clients.find k = some c → ClientReturns setup k c
  users : ∀ k u, s.actors.users.find k = some u → UserReturns setup s.actors.clients k u
  cookbooks : ∀ k c, s.cookbooks.lookup k = some c → c.name = k ∧ CookbookReturns setup s.files.keys c
  bags : ∀ k, s.bags.lookup k = none
  environments : ∀ k e, s.environments.lookup k = some e → k ≠ ChefEnvironment.defaultName →
    e.name = k ∧ EnvironmentReturns e
  nodes : ∀ k n, s.nodes.lookup k = some n → n.name = k ∧ NodeReturns n
  roles : ∀ k r, s.roles.lookup k = some r → r.name = k ∧ RoleReturns r
  sandboxes : ∀ k sb, s.sandboxes.lookup k = some sb → k = [] ∧ sb.id = []
  logs : ∀ i, s.logs.lookup i = none
  reports : ∀ k r, s.reports.lookup k = some r → r.runID = k ∧ ReportReturns r
  made : s.nodes.list = [] ∨ s.statuses.objs.isSome = true
  statuses : StatusesReturn s
  shoveys : ∀ k sh, s.shoveys.lookup k = some sh → sh.runID = k ∧ Text.Fits sh.timeout
  runs : ∀ k sr, s.runs.lookup k = some sr → sr.shoveyUUID ++ sr.nodeName = k ∧ Listed s k
  streams : ∀ k srs, s.streams.lookup k = some srs → ofStream srs = k ∧ Text.Fits srs.seq ∧ Written s k

section

variable {α : Type} {setup : Setup} {now : ℤ} {s t : Server}

lemma loadChecked_eq {step : Table α → JsonMap → Except Fault (Table α)} {encode : α → JsonMap}
    (ha : ∀ a, checkAttrs (encode a) = .ok (encode a)) (as : List α) (t : Table α) :
    loadChecked step t (objects encode as) = (as.map encode).foldlM step t >>= fun t => .ok (t, true) := by
  induction as generalizing t with
  | nil => rfl
  | cons a as ih =>
    have hs : loadChecked step t (objects encode (a :: as)) =
        (step t (encode a) >>= fun t => loadChecked step t (objects encode as)) := by
      unfold objects
      rw [map_cons, loadChecked, show castObj (.obj (encode a)) = .ok (encode a) from rfl, ok_bind, ha]
    rw [hs, map_cons, foldlM_cons, bind_assoc]
    exact congrArg _ (funext fun t => ih t)

structure Loads (setup : Setup) (now : ℤ) (s t : Server) : Prop where
  actors : ∃ w, (objects clientJSON (shelved s.actors.clients)).foldlM (importClient setup) Server.empty.actors = .ok w ∧
    (objects (userJSON setup.formats) (shelved s.actors.users)).foldlM (importUser setup) w = .ok t.actors
  files : (objects (fileJSON setup.formats) (values s.files)).foldlM (importFile setup) ∅ = .ok t.files
  cookbooks : (objects cookbookJSON (values s.cookbooks)).foldlM (importCookbook setup t.files.keys) ∅ = .ok t.cookbooks
  bags : t.bags = ∅
  environments : (s.allEnvironments.map environmentJSON).foldlM importEnvironment ∅ = .ok t.environments
  nodes : ((values s.nodes).map nodeJSON).foldlM importNode ∅ = .ok t.nodes
  roles : ((values s.roles).map roleJSON).foldlM importRole ∅ = .ok t.roles
  sandboxes : (objects (sandboxJSON setup.formats) (values s.sandboxes)).foldlM (importSandbox setup.formats) ∅ =
    .ok t.sandboxes
  logs : (objects (logJSON setup.formats) (s.allLogInfos now)).foldlM (importLog setup.formats) ∅ = .ok t.logs
  reports : (objects (reportJSON setup.formats) (values s.reports)).foldlM (importReport setup.formats) ∅ = .ok t.reports
  statuses : (objects (statusJSON setup.formats) (written s)).foldlM (importStatus setup.formats t.nodes) ⟨none, none⟩ =
    .ok t.statuses
  shoveys : (objects (shoveyJSON setup.formats) (values s.shoveys)).foldlM (importShovey setup.formats) ∅ = .ok t.shoveys
  runs : (objects (runJSON setup.formats) s.allShoveyRuns).foldlM (importRun setup.formats) ∅ = .ok t.runs
  streams : (objects (streamJSON setup.formats) s.allShoveyRunStreams).foldlM (importStream setup.formats) ∅ =
    .ok t.streams

lemma importFirst_eq_ok_iff {l : List NodeStatus} : importFirst setup (document setup.formats now s l) = .ok t ↔
    ∃ w w' files cookbooks,
      (objects clientJSON (shelved s.actors.clients)).foldlM (importClient setup) Server.empty.actors = .ok w ∧
      (objects (userJSON setup.formats) (shelved s.actors.users)).foldlM (importUser setup) w = .ok w' ∧
      (objects (fileJSON setup.formats) (values s.files)).foldlM (importFile setup) ∅ = .ok files ∧
      (objects cookbookJSON (values s.cookbooks)).foldlM (importCookbook setup files.keys) ∅ = .ok cookbooks ∧
      t = { Server.empty with actors := w', files, cookbooks } := by
  simp only [importFirst, bind_eq_ok_iff, ok_eq_ok_iff]
  constructor
  · rintro ⟨w, hw, w', hw', files, hf, cookbooks, hc, bags, hb, rfl⟩
    obtain rfl : ∅ = bags := Except.ok.inj hb
    exact ⟨w, w', files, cookbooks, hw, hw', hf, hc, rfl⟩
  · rintro ⟨w, w', files, cookbooks, hw, hw', hf, hc, rfl⟩
    exact ⟨w, hw, w', hw', files, hf, cookbooks, hc, ∅, rfl, rfl⟩

lemma importChecked_eq {l : List NodeStatus} {s₁ : Server} :
    importChecked (document setup.formats now s l) s₁ = (do
      let environments ← (s.allEnvironments.map environmentJSON).foldlM importEnvironment ∅
      let nodes ← ((values s.nodes).map nodeJSON).foldlM importNode ∅
      let roles ← ((values s.roles).map roleJSON).foldlM importRole ∅
      return ({ s₁ with environments, nodes, roles }, true)) := by
  have he : (document setup.formats now s l).list "environment" = objects environmentJSON s.allEnvironments := rfl
  have hn : (document setup.formats now s l).list "node" = objects nodeJSON (values s.nodes) := rfl
  have hr : (document setup.formats now s l).list "role" = objects roleJSON (values s.roles) := rfl
  rw [importChecked, he, hn, hr]
  simp only [loadChecked_eq fun e => show checkAttrs (environmentJSON e) = _ from rfl, loadChecked_eq checkAttrs_nodeJSON,
    loadChecked_eq checkAttrs_roleJSON, bind_assoc, ok_bind, Bool.not_true, Bool.false_eq_true, if_false]

lemma importAll_eq_ok_iff : importAll setup (document setup.formats now s (written s)) = .ok t ↔
    Loads setup now s t := by
  have hm : importAll setup (document setup.formats now s (written s)) = (do
      let s₁ ← importFirst setup (document setup.formats now s (written s))
      let r ← importChecked (document setup.formats now s (written s)) s₁
      if r.2 then importRest setup (document setup.formats now s (written s)) r.1 else return r.1) := rfl
  have hrs : ∀ s₂, importRest setup (document setup.formats now s (written s)) s₂ = (do
      let sandboxes ← (objects (sandboxJSON setup.formats) (values s.sandboxes)).foldlM (importSandbox setup.formats) ∅
      let logs ← (objects (logJSON setup.formats) (s.allLogInfos now)).foldlM (importLog setup.formats) ∅
      let reports ← (objects (reportJSON setup.formats) (values s.reports)).foldlM (importReport setup.formats) ∅
      let statuses ← (objects (statusJSON setup.formats) (written s)).foldlM (importStatus setup.formats s₂.nodes)
        s₂.statuses
      let shoveys ← (objects (shoveyJSON setup.formats) (values s.shoveys)).foldlM (importShovey setup.formats) ∅
      let runs ← (objects (runJSON setup.formats) s.allShoveyRuns).foldlM (importRun setup.formats) ∅
      let streams ← (objects (streamJSON setup.formats) s.allShoveyRunStreams).foldlM (importStream setup.formats) ∅
      return { s₂ with sandboxes, logs, reports, statuses, shoveys, runs, streams }) := fun _ => rfl
  rw [hm]
  simp only [importChecked_eq, hrs, bind_assoc, pure_bind, if_true, bind_eq_ok_iff, importFirst_eq_ok_iff, ok_eq_ok_iff]
  constructor
  · rintro ⟨_, ⟨w, w', files, cookbooks, hw, hw', hf, hc, rfl⟩, environments, he, nodes, hn,
      roles, hrl, sandboxes, hs, logs, hl, reports, hr, statuses, hst, shoveys, hsh, runs,
      hrn, streams, hsr, rfl⟩
    exact ⟨⟨w, hw, hw'⟩, hf, hc, rfl, he, hn, hrl, hs, hl, hr, hst,
      hsh, hrn, hsr⟩
  · rintro ⟨⟨w, hw, hw'⟩, hf, hc, hb, he, hn, hrl, hs, hl, hr, hst,
      hsh, hrn, hsr⟩
    refine ⟨_, ⟨w, _, _, _, hw, hw', hf, hc, rfl⟩, _, he, _, hn, _, hrl, _, hs, _,
      hl, _, hr, _, hst, _, hsh, _, hrn, _, hsr, ?_⟩
    cases t
    cases hb
    rfl

end

section

variable {formats : Formats} {now : ℤ} {s : Server}

end

section

variable {setup : Setup} {now : ℤ}

lemma restores_iff_loads (s : Snapshot setup.formats) : Restores setup now s.toServer ↔
    (s.nodes.list = [] ∨ s.statuses.objs.isSome = true) ∧ ∃ t, Loads setup now s.toServer t ∧ Same s.toServer t := by
  simp only [Restores, exportAll, bind_eq_ok_iff, allNodeStatuses_eq_ok_iff s.consistent, ok_eq_ok_iff]
  constructor
  · rintro ⟨_, ⟨_, ⟨hm, rfl⟩, rfl⟩, t, ht, hs⟩
    exact ⟨hm, t, importAll_eq_ok_iff.mp ht, hs⟩
  · rintro ⟨hm, t, ht, hs⟩
    exact ⟨_, ⟨_, ⟨hm, rfl⟩, rfl⟩, t, importAll_eq_ok_iff.mpr ht, hs⟩

lemma keys_subset {α : Type} {t t' : Table α} (h : ∀ k, t.lookup k = t'.lookup k) : t.keys ⊆ t'.keys := by
  intro k hk
  have hs := AList.lookup_isSome.mpr hk
  rw [h] at hs
  exact AList.lookup_isSome.mp hs

lemma Loads.files_eq {s : Snapshot setup.formats} {t : Server} (h : Loads setup now s.toServer t) (k : Text) :
    t.files.lookup k = s.files.lookup k := by
  obtain ⟨files, hf, hs⟩ := files_restored setup s.summed
  cases hf.symm.trans h.files
  exact hs k

lemma restorable_of_loads {s : Snapshot setup.formats} {t : Server}
    (hm : s.nodes.list = [] ∨ s.statuses.objs.isSome = true) (h : Loads setup now s.toServer t)
    (hs : Same s.toServer t) : Restorable setup s.toServer := by
  obtain ⟨w, hw, hw'⟩ := h.actors
  obtain ⟨hcl, hu⟩ := actors_restored_iff.mp ⟨w, t.actors, hw, hw', hs.clients, hs.users⟩
  have hck := (cookbooks_restored_iff s.cookbooks).mp ⟨_, h.cookbooks, hs.cookbooks⟩
  have hnd := (nodes_restored_iff s.nodes).mp ⟨_, h.nodes, hs.nodes⟩
  have hr := (runs_restored_iff setup.formats).mp ⟨_, h.runs, hs.runs⟩
  have hst := statuses_restored_iff setup.formats (fun k n hn => (hnd k n hn).1) hs.nodes
  have hsm := streams_restored_iff setup.formats fun k sr hsr => (hr k sr hsr).2
  exact {
    clients := hcl
    users := hu
    cookbooks := fun k c hc =>
      ⟨(hck k c hc).1, (hck k c hc).2.of_subset (keys_subset h.files_eq)⟩
    bags := fun k => by
      have hb := hs.bags k
      rw [h.bags] at hb
      cases hk : s.bags.lookup k with
      | none => rfl
      | some db =>
        rw [hk] at hb
        cases hb
    environments := environments_restored_iff.mp ⟨_, h.environments, findEnvironment_eq_iff.mp hs.environments⟩
    nodes := hnd
    roles := (roles_restored_iff s.roles).mp ⟨_, h.roles, hs.roles⟩
    sandboxes := (sandboxes_restored_iff setup.formats s.sandboxes).mp ⟨_, h.sandboxes, hs.sandboxes⟩
    logs := fun i => by
      have hl := h.logs
      rw [← hs.logs]
      cases hi : s.allLogInfos now with
      | nil =>
        rw [hi] at hl
        rw [← Except.ok.inj hl]
        rfl
      | cons le l =>
        rw [hi] at hl
        obtain ⟨_, hst, -⟩ := bind_eq_ok hl
        cases hst
    reports := (reports_restored_iff setup.formats s.reports).mp ⟨_, h.reports, hs.reports⟩
    made := hm
    statuses := hst.mp ⟨_, h.statuses, hs.statuses⟩
    shoveys := (shoveys_restored_iff setup.formats s.shoveys).mp ⟨_, h.shoveys, hs.shoveys⟩
    runs := hr
    streams := hsm.mp ⟨_, h.streams, hs.streams⟩ }

lemma loads_of_restorable {s : Snapshot setup.formats} (h : Restorable setup s.toServer) :
    ∃ t, Loads setup now s.toServer t ∧ Same s.toServer t := by
  obtain ⟨w, actors, hw, hw', hcl, hu⟩ := actors_restored_iff.mpr ⟨h.clients, h.users⟩
  obtain ⟨files, hfl, hf⟩ := files_restored setup s.summed
  have hrt : ∀ k c, s.cookbooks.lookup k = some c → c.name = k ∧ CookbookReturns setup files.keys c :=
    fun k c hc => ⟨(h.cookbooks k c hc).1, (h.cookbooks k c hc).2.of_subset (keys_subset fun k => (hf k).symm)⟩
  obtain ⟨cookbooks, hck, hcs⟩ := (cookbooks_restored_iff s.cookbooks).mpr hrt
  obtain ⟨environments, hen, he⟩ := environments_restored_iff.mpr h.environments
  obtain ⟨nodes, hnd, hns⟩ := (nodes_restored_iff s.nodes).mpr h.nodes
  obtain ⟨roles, hrl, hrs⟩ := (roles_restored_iff s.roles).mpr h.roles
  obtain ⟨sandboxes, hsn, hs⟩ := (sandboxes_restored_iff setup.formats s.sandboxes).mpr h.sandboxes
  obtain ⟨reports, hrp, hr⟩ := (reports_restored_iff setup.formats s.reports).mpr h.reports
  obtain ⟨statuses, hsa, hss⟩ :=
    (statuses_restored_iff setup.formats (fun k n hn => (h.nodes k n hn).1) hns).mpr h.statuses
  obtain ⟨shoveys, hsv, hsh⟩ := (shoveys_restored_iff setup.formats s.shoveys).mpr h.shoveys
  obtain ⟨runs, hru, hrn⟩ := (runs_restored_iff setup.formats).mpr h.runs
  obtain ⟨streams, hsm, hst⟩ :=
    (streams_restored_iff setup.formats fun k sr hsr => (h.runs k sr hsr).2).mpr h.streams
  refine ⟨⟨actors, files, cookbooks, ∅, environments, nodes, roles, sandboxes, ∅, reports, statuses, shoveys, runs,
    streams⟩, ?_, ?_⟩
  · refine ⟨⟨w, hw, hw'⟩, hfl, hck, rfl, hen, hnd, hrl, hsn, ?_, hrp, hsa,
      hsv, hru, hsm⟩
    rw [Server.allLogInfos, filterMap_eq_nil_iff.mpr fun i _ => by rw [h.logs]; rfl]
    rfl
  · refine ⟨hcl, hu, hcs, fun k => ?_, findEnvironment_eq_iff.mpr he, hns,
      hrs, hs, fun i => (h.logs i).symm, hr, hss, hsh, hrn,
      hst⟩
    rw [h.bags]
    exact .none

end

def readDecimal : Text → ℤ
  | '-' :: ds => -(Text.digitsValue ds : ℤ)
  | ds => Text.digitsValue ds

lemma readDecimal_formatNat (n : ℕ) : readDecimal (Text.formatNat n) = n := by
  have hd := Text.all_isDigit_formatNat n
  unfold readDecimal
  split
  · next h =>
    rw [h] at hd
    cases hd
  · rw [Text.digitsValue_formatNat]

lemma readDecimal_formatInt (n : ℤ) : readDecimal (Text.formatInt n) = n := by
  rw [Text.formatInt]
  split
  · change -(Text.digitsValue (Text.formatNat n.natAbs) : ℤ) = n
    rw [Text.digitsValue_formatNat]
    omega
  · rw [readDecimal_formatNat]
    omega

def decimals : Formats where
  time := Text.formatInt
  readTime t := .ok (readDecimal t)
  readTime_time t := by rw [readDecimal_formatInt]
  reportTime t := Text.formatInt (t - t % second)
  readReportTime t := .ok (readDecimal t)
  readReportTime_reportTime t := by rw [readDecimal_formatInt]
  bytes b := b.map fun n => Char.ofNat n.toNat
  readBytes t := .ok (t.map fun c => UInt8.ofNat c.toNat)
  readBytes_bytes b := by
    have hchar : ∀ i : Fin 256, (Char.ofNat i).toNat = i := by decide +kernel
    have hbyte : ∀ n : UInt8, UInt8.ofNat (Char.ofNat n.toNat).toNat = n := by
      intro n
      rw [hchar ⟨n.toNat, n.toNat_lt⟩]
      exact UInt8.ofNat_toNat
    rw [map_map]
    exact congrArg Except.ok ((map_congr_left fun n _ => hbyte n).trans b.map_id)
  md5 _ := []

def twin : Setup := ⟨decimals, Actors.copyingEnv, fun _ => ⟨.ok ([], []), .ok []⟩⟩

def defaults : Server :=
  let clients := Shelf.empty.put .copying "chef-webui"
    (Shelf.empty.fresh { Client.new "chef-webui" with admin := true })
  let validator := { Client.new "chef-validator" with validator := true }
  { Server.empty with
    actors :=
      ⟨clients.put .copying "chef-validator" (clients.fresh validator),
        Shelf.empty.put .copying "admin" (Shelf.empty.fresh { User.new "admin" [] with admin := true })⟩
    environments := (∅ : Table ChefEnvironment).insert ChefEnvironment.defaultName ChefEnvironment.defaultEnvironment }

def withBag : Server := { defaults with bags := (∅ : Table DataBag).insert "secrets" ⟨"secrets", ∅⟩ }

def creation : LogInfo where
  actor := none
  actorInfo := "\x7b\x7d"
  actorType := "user"
  time := Server.epoch + 1
  action := "create"
  objectType := "role"
  objectName := "web"
  extendedInfo := []
  id := 1

def withEvent : Server := { defaults with logs := (∅ : AList fun _ : ℤ => LogInfo).insert 1 creation }

def startedRun : Text := "11111111-2222-3333-4444-555555555555"

def withReport : Server :=
  { defaults with
    reports := (∅ : Table Report).insert startedRun
      ⟨⟨startedRun, 0, 0, 0, "started", [], [], [], "web", 0⟩, false⟩ }

end Goiardi.Dump
