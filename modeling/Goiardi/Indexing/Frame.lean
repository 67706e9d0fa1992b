import Goiardi.Indexing.Convergence
import Goiardi.Indexing.Server

/-! Data bag operations and the built-in indexes. A bag shares the name space of the collections with them, and no check
along the creation of a bag refuses their names. -/

namespace Goiardi.Indexing

open Validation List AList
open Search (FileIndex IdxDoc Link Query runQuery)
open DataBags (DataBag DataBagItem)
open Uploads (Fault)

inductive BagOp
  | create (name : Text)
  | delete (name : Text)
  | newItem (bag : Text) (data : JsonMap)
  | updateItem (bag id : Text) (data : JsonMap)
  | deleteItem (bag id : Text)
  | process (n : ℕ)

section

variable (env : Settings)

def noSuchBag (name : Text) : Fault := .refused ⟨"Cannot load data bag " ++ name, 404⟩

def processPending (n : ℕ) (s : Server) : Server :=
  match s.pending[n]? with
  | none => s
  | some o => { s with pending := s.pending.eraseIdx n, index := saveItem s.index env.build o }

def BagOp.perform : BagOp → Handler Unit
  | create name => do
    let db ← newDataBag name
    saveBag db
  | delete name => do
    let db ← getBag name (noSuchBag name)
    deleteBag db
  | newItem bag data => do
    let db ← getBag bag (noSuchBag bag)
    let _ ← newDBItem env db data
  | updateItem bag id data => do
    let db ← getBag bag (noSuchBag bag)
    let _ ← updateDBItem env db id data
  | deleteItem bag id => do
    let db ← getBag bag (noSuchBag bag)
    let _ ← deleteDBItem db id
  | process n => modify (processPending env n)

def Server.after {α : Type} (s : Server) (x : Handler α) : Server :=
  match x s with
  | .ok _ s' | .error _ s' => s'

def Server.performAll (s : Server) (ops : List BagOp) : Server := ops.foldl (fun s op => s.after (op.perform env)) s

end

structure Foreign (db : DataBag) : Prop where
  name : db.name ∉ builtins
  items : ∀ id item, db.items.lookup id = some item → item.dataBagName ∉ builtins

structure Server.Apart (s : Server) : Prop where
  bags : ∀ k db, s.bags.lookup k = some db → Foreign db
  pending : ∀ o ∈ s.pending, o.index ∉ builtins

def BagOp.Apart : BagOp → Prop
  | create name => name ∉ builtins
  | _ => True

structure Untouched (start : FileIndex) (s : Server) : Prop where
  apart : s.Apart
  same : ∀ idx ∈ builtins, s.index.idxmap.lookup idx = start.idxmap.lookup idx

variable {env : Settings} {start : FileIndex} {s : Server} {db : DataBag}

lemma Untouched.withIndex (h : Untouched start s) {i : FileIndex}
    (hi : ∀ idx ∈ builtins, i.idxmap.lookup idx = s.index.idxmap.lookup idx) : Untouched start { s with index := i } :=
  ⟨⟨h.apart.bags, h.apart.pending⟩, fun idx hid => (hi idx hid).trans (h.same idx hid)⟩

lemma ne_of_builtin {idx name : Text} (hi : idx ∈ builtins) (hn : name ∉ builtins) : idx ≠ name :=
  fun h => hn (h ▸ hi)

lemma keeps_check {I : Server → Prop} {α : Type} (x : Except Actors.Refusal α) :
    Keeps I (check x) fun a => x = .ok a := by
  cases x with
  | ok a => exact Keeps.pure rfl
  | error e => exact Keeps.throw _

lemma keeps_attain {I : Server → Prop} {α : Type} (x : Except Fault α) : Keeps I (attain x) fun a => x = .ok a := by
  cases x with
  | ok a => exact Keeps.pure rfl
  | error e => exact Keeps.throw _

lemma keeps_saveBag (hdb : Foreign db) : Keeps (Untouched start) (saveBag db) fun _ => True := by
  refine Keeps.modify fun s hs => ⟨⟨fun k db' hk => ?_, hs.apart.pending⟩, hs.same⟩
  by_cases h : k = db.name
  · subst h
    rw [lookup_insert] at hk
    cases hk
    exact hdb
  · rw [lookup_insert_ne h] at hk
    exact hs.apart.bags k db' hk

lemma keeps_indexObj {o : Object} (ho : o.index ∉ builtins) :
    Keeps (Untouched start) (indexObj env o) fun _ => True := by
  refine Keeps.modify fun s hs => ⟨⟨hs.apart.bags, fun o' ho' => ?_⟩, hs.same⟩
  rcases mem_append.mp ho' with hm | hm
  · exact hs.apart.pending o' hm
  · rw [mem_singleton.mp hm]
    exact ho

lemma keeps_deleteItemFromCollection {name : Text} (hn : name ∉ builtins) (doc : Text) :
    Keeps (Untouched start) (deleteItemFromCollection name doc) fun _ => True := by
  refine Keeps.modify fun s hs => hs.withIndex fun idx hi => ?_
  rw [lookup_deleteItem, if_neg (ne_of_builtin hi hn)]

lemma keeps_getBag (name : Text) (missing : Fault) : Keeps (Untouched start) (getBag name missing) Foreign :=
  .of_looks (fun s => looks_getBag s name missing) fun _ hs db hl => hs.apart.bags name db hl

section

lemma Foreign.put (hdb : Foreign db) {id : Text} {item : DataBagItem} (hi : item.dataBagName ∉ builtins) :
    Foreign { db with items := db.items.insert id item } := by
  refine ⟨hdb.name, fun k item' hk => ?_⟩
  by_cases h : k = id
  · subst h
    rw [lookup_insert] at hk
    cases hk
    exact hi
  · rw [lookup_insert_ne h] at hk
    exact hdb.items k item' hk

lemma Foreign.deleteDBItem (hdb : Foreign db) (id : Text) : Foreign (db.deleteDBItem id) := by
  refine ⟨hdb.name, fun k item hk => ?_⟩
  by_cases h : k = id
  · subst h
    rw [DataBag.deleteDBItem, lookup_erase] at hk
    cases hk
  · rw [DataBag.deleteDBItem, lookup_erase_ne h] at hk
    exact hdb.items k item hk

lemma keeps_newDataBag {name : Text} (hn : name ∉ builtins) : Keeps (Untouched start) (newDataBag name) Foreign := by
  refine (keeps_check _).bind fun _ _ => Keeps.get.bind fun t _ => (keeps_check _).bind fun _ _ => ?_
  refine Keeps.bind (Keeps.modify fun s hs => hs.withIndex fun idx hid => ?_) fun _ _ => ?_
  · rw [lookup_createCollection, if_neg (ne_of_builtin hid hn)]
  · exact Keeps.pure ⟨hn, fun id item hi => by cases hi⟩

lemma keeps_newDBItem (hdb : Foreign db) (data : JsonMap) :
    Keeps (Untouched start) (newDBItem env db data) fun _ => True := by
  refine (keeps_attain _).bind fun db' hd' => (keeps_attain _).bind fun id hid => ?_
  have hf : Foreign db' := by
    obtain ⟨id', -, h⟩ := bind_eq_ok hd'
    obtain ⟨-, -, h⟩ := bind_eq_ok h
    obtain ⟨-, -, h⟩ := bind_eq_ok h
    cases h
    exact hdb.put hdb.name
  refine (keeps_saveBag hf).bind fun _ _ => ?_
  exact (keeps_indexObj (o := .item (db.newItem id data)) hdb.name).bind fun _ _ => Keeps.pure trivial

lemma keeps_updateDBItem (hdb : Foreign db) (id : Text) (data : JsonMap) :
    Keeps (Untouched start) (updateDBItem env db id data) fun _ => True := by
  refine (keeps_attain _).bind fun item hi => ?_
  have hn : item.dataBagName ∉ builtins := by
    rw [getDBItem] at hi
    split at hi
    · next item' hl =>
      cases hi
      exact hdb.items id item hl
    · cases hi
  have hp : Foreign { db with items := db.items.insert id { item with rawData := data } } := hdb.put hn
  refine (keeps_saveBag hp).bind fun _ _ => ?_
  exact (keeps_indexObj (o := .item { item with rawData := data }) hn).bind fun _ _ => Keeps.pure trivial

lemma keeps_deleteDBItem (hdb : Foreign db) (id : Text) : Keeps (Untouched start) (deleteDBItem db id) Foreign :=
  (keeps_saveBag (hdb.deleteDBItem id)).bind fun _ _ =>
    (keeps_deleteItemFromCollection hdb.name id).bind fun _ _ => Keeps.pure (hdb.deleteDBItem id)

lemma keeps_deleteDBItems (hdb : Foreign db) (ids : List Text) :
    Keeps (Untouched start) (deleteDBItems db ids) fun _ => True := by
  induction ids generalizing db with
  | nil => exact Keeps.pure trivial
  | cons id ids ih => exact (keeps_deleteDBItem hdb id).bind fun db' hd' => ih hd'

lemma keeps_deleteBag (hdb : Foreign db) : Keeps (Untouched start) (deleteBag db) fun _ => True := by
  refine (keeps_deleteDBItems hdb _).bind fun _ _ => Keeps.bind (Keeps.modify fun s hs => ?_) fun _ _ =>
    Keeps.modify fun s hs => hs.withIndex fun idx hi => ?_
  · refine ⟨⟨fun k db' hk => ?_, hs.apart.pending⟩, hs.same⟩
    by_cases h : k = db.name
    · subst h
      rw [lookup_erase] at hk
      cases hk
    · rw [lookup_erase_ne h] at hk
      exact hs.apart.bags k db' hk
  · rw [lookup_deleteCollection, if_neg fun h => ne_of_builtin hi hdb.name h.1]

lemma keeps_process (n : ℕ) : Keeps (Untouched start) (modify (processPending env n) : Handler Unit) fun _ => True := by
  refine Keeps.modify fun s hs => ?_
  unfold processPending
  cases ho : s.pending[n]? with
  | none => exact hs
  | some o =>
    refine ⟨⟨hs.apart.bags, fun o' ho' => hs.apart.pending o' (mem_of_mem_eraseIdx ho')⟩, fun idx hi => ?_⟩
    have hn := hs.apart.pending o (mem_of_getElem? ho)
    exact (lookup_saveItem s.index env.build o idx).trans
      ((if_neg (ne_of_builtin hi hn)).trans (hs.same idx hi))

variable (env) in
lemma keeps_perform {op : BagOp} (hop : op.Apart) : Keeps (Untouched start) (op.perform env) fun _ => True := by
  cases op with
  | create name => exact (keeps_newDataBag hop).bind fun db hdb => keeps_saveBag hdb
  | delete name => exact (keeps_getBag _ _).bind fun db hdb => keeps_deleteBag hdb
  | newItem bag data =>
    exact (keeps_getBag _ _).bind fun db hdb => (keeps_newDBItem hdb data).bind fun _ _ => Keeps.pure trivial
  | updateItem bag id data =>
    exact (keeps_getBag _ _).bind fun db hdb => (keeps_updateDBItem hdb id data).bind fun _ _ => Keeps.pure trivial
  | deleteItem bag id =>
    exact (keeps_getBag _ _).bind fun db hdb => (keeps_deleteDBItem hdb id).bind fun _ _ => Keeps.pure trivial
  | process n => exact keeps_process n

lemma Untouched.perform (h : Untouched start s) {op : BagOp} (hop : op.Apart) :
    Untouched start (s.after (op.perform env)) := by
  have hk := keeps_perform env hop s h
  unfold Server.after
  cases hr : op.perform env s with
  | ok a s' =>
    rw [hr] at hk
    exact hk.1
  | error e s' =>
    rw [hr] at hk
    exact hk

variable (env) in
lemma Untouched.performAll (h : Untouched start s) {ops : List BagOp} (ho : ∀ op ∈ ops, op.Apart) :
    Untouched start (s.performAll env ops) := by
  induction ops generalizing s with
  | nil => exact h
  | cons op ops ih => exact ih (h.perform (ho op (.head _))) fun op' ho' => ho op' (.tail _ ho')

end

lemma runQuery_congr {i j : FileIndex} {idx : Text} (h : i.idxmap.lookup idx = j.idxmap.lookup idx)
    (lib : Search.Library) (tokens : List (Peg.Token Search.Action)) :
    runQuery lib i idx tokens = runQuery lib j idx tokens := by
  have hc : i.collection idx = j.collection idx := by rw [FileIndex.collection, h, FileIndex.collection]
  have hd : i.documents idx = j.documents idx := by
    funext d
    rw [FileIndex.documents, h, FileIndex.documents]
  have hl : Link.queryable lib i idx = Link.queryable lib j idx := by
    funext q
    have hs : i.search lib idx = j.search lib idx := by
      funext term notop
      rw [FileIndex.search, hc, FileIndex.search]
    have hr : ∀ d, (fun term notop => i.searchResults lib idx term notop d) =
        fun term notop => j.searchResults lib idx term notop d := by
      intro d
      funext term notop
      rw [FileIndex.searchResults, hd, FileIndex.searchResults]
    have hi : ∀ a : Query, a.searchIndex lib i idx q.notop = a.searchIndex lib j idx q.notop := by
      intro a
      cases a <;> simp only [Query.searchIndex, FileIndex.searchText, FileIndex.searchRange, hc, hs]
    have hrs : ∀ (a : Query) d, a.searchResults lib i idx q.notop d = a.searchResults lib j idx q.notop d := by
      intro a d
      cases a <;> simp only [Query.searchResults, FileIndex.searchResultsRange, hd, hr]
      exact congrFun (congrFun (hr d) _) _
    simp only [Link.queryable, hi, hrs]
  rw [runQuery, hl, runQuery]

theorem builtins_unchanged (env : Settings) (s : Server) (ops : List BagOp) (hs : s.Apart)
    (hops : ∀ op ∈ ops, op.Apart) :
    ∀ idx ∈ builtins, (s.performAll env ops).index.idxmap.lookup idx = s.index.idxmap.lookup idx ∧
      ∀ lib tokens, runQuery lib (s.performAll env ops).index idx tokens = runQuery lib s.index idx tokens := by
  intro idx hi
  have hsm := (Untouched.performAll env ⟨hs, fun _ _ => rfl⟩ hops).same idx hi
  exact ⟨hsm, runQuery_congr hsm⟩

def plainSettings : Settings := ⟨Actors.copyingEnv, fun o => [o.docID], plainDoc⟩

def webServer : Server where
  actors := Actors.smallWorld
  nodes := ∅
  roles := ∅
  environments := ∅
  bags := ∅
  index := saveItem noDocuments plainDoc (webNode "debian")
  pending := []

def webItem : JsonMap := [("id", .str "web")]

theorem builtins_unchanged_apps : (webServer.performAll plainSettings [.create "apps", .newItem "apps" webItem,
      .process 0, .deleteItem "apps" "web"]).index.idxmap.lookup "node".toList =
        webServer.index.idxmap.lookup "node".toList := by
  refine (builtins_unchanged plainSettings webServer _ ⟨fun _ _ h => (by cases h), fun _ h => (by cases h)⟩ (fun op hop => ?_) "node" (by decide)).1
  simp only [mem_cons, not_mem_nil, or_false] at hop
  rcases hop with rfl | rfl | rfl | rfl
  · exact (by decide : "apps".toList ∉ builtins)
  all_goals exact trivial

theorem builtins_changed : (document webServer.index "node" "web").isSome = true ∧
      (document (webServer.performAll plainSettings [.create "node", .newItem "node" webItem,
        .deleteItem "node" "web"]).index "node" "web").isSome = false := by
  decide +kernel

end Goiardi.Indexing
