import Goiardi.Indexing.Flatten
import Goiardi.Indexing.Runs
import Goiardi.Indexing.SameValues

/-! The documents of the index stay readable, and so do all searches, while requests are served and their index messages
are handled in any order. -/

namespace Goiardi.Indexing

open Validation List
open Search (ok_bind FileIndex IdxDoc IdxCollection Library splitColon searchCollection searchTextCollection
  searchRangeCollection Total collect_of_total orError replaceAll)
open Actors (Actor Draw)

inductive Turn
  | request (r : Request)
  | process (n : ℕ)

section

variable (env : Settings)

def Server.turn (s : Server) : Turn → Server
  | .request r => s.after (serve env r)
  | .process n => processPending env n s

def Server.turns (s : Server) (es : List Turn) : Server := es.foldl (Server.turn env) s

/-- The lines of which `update` makes a document: there are some, and none that is repeated is continued by another. -/
def Fit (lines : List Text) : Prop := lines ≠ [] ∧ Search.Automaton.Heap.Closed lines

def Server.Fits : Server → List Turn → Prop
  | _, [] => True
  | s, e :: es => (∀ n, e = .process n → ∀ o ∈ s.pending[n]?, Fit o.lines) ∧ (s.turn env e).Fits es

end

def fileIndexer (actors : Actors.Env) (trim : ℤ) (flatten : Object → Flattened) : Settings :=
  ⟨actors, fun o => indexify trim (flatten o), fun lines => (Search.Automaton.build lines).toOption⟩

def Readable (d : IdxDoc) : Prop := (∃ trie, d.trie = .ok trie) ∧ ∃ text, d.docText = .ok text

def ReadableIndex (i : FileIndex) : Prop := ∀ idx c, i.idxmap.lookup idx = some c → ∀ kv ∈ c.docs, Readable kv.2

structure Tended (env : Settings) (s : Server) : Prop where
  index : ReadableIndex s.index
  pending : ∀ o ∈ s.pending, ∃ x, o.lines = env.flatten x

section

variable {env : Settings} {i : FileIndex} {op : Actor}

lemma ReadableIndex.createCollection (h : ReadableIndex i) (idx : Text) : ReadableIndex (createCollection i idx) := by
  intro k c hc
  rw [lookup_createCollection] at hc
  split at hc
  · cases hl : i.idxmap.lookup idx with
    | none =>
      rw [hl] at hc
      obtain rfl := Option.some.inj hc
      exact fun kv hkv => absurd hkv not_mem_nil
    | some c' =>
      rw [hl] at hc
      exact h idx c (hl.trans hc)
  · exact h k c hc

lemma ReadableIndex.deleteCollection (h : ReadableIndex i) (idx : Text) :
    ReadableIndex (attempt i (deleteCollection i idx)) := by
  intro k c hc
  rw [lookup_deleteCollection] at hc
  split at hc
  · cases hc
  · exact h k c hc

lemma ReadableIndex.deleteItem (h : ReadableIndex i) (idx doc : Text) :
    ReadableIndex (attempt i (deleteItem i idx doc)) := by
  intro k c hc kv hkv
  rw [lookup_deleteItem] at hc
  split at hc
  · obtain ⟨c', hc', rfl⟩ := Option.map_eq_some_iff.mp hc
    exact h idx c' hc' kv (mem_filter.mp hkv).1
  · exact h k c hc kv hkv

lemma ReadableIndex.saveItem (h : ReadableIndex i) {build : List Text → Option IdxDoc} {o : Indexable} {d : IdxDoc}
    (ho : build o.lines = some d) (hd : Readable d) : ReadableIndex (saveItem i build o) := by
  intro k c hc kv hkv
  rw [lookup_saveItem] at hc
  split at hc
  · obtain rfl := Option.some.inj hc
    rcases mem_cons.mp hkv with rfl | hkv
    · rw [ho]
      exact hd
    · cases hl : i.idxmap.lookup o.index with
      | none =>
        rw [hl] at hkv
        cases hkv
      | some c =>
        rw [hl] at hkv
        exact h _ c hl kv (mem_filter.mp hkv).1
  · exact h k c hc kv hkv

abbrev Tends (env : Settings) {α : Type} (x : Handler α) : Prop := Keeps (Tended env) x fun _ => True

lemma tends_pure {α : Type} (a : α) : Tends env (pure a) := .pure trivial

lemma tends_bind {α β : Type} {x : Handler α} {f : α → Handler β} (hx : Tends env x) (hf : ∀ a, Tends env (f a)) :
    Tends env (x >>= f) := hx.bind fun a _ => hf a

lemma tends_get : Tends env get := Keeps.get.mono fun _ _ => trivial

lemma tends_check {α : Type} (x : Except Actors.Refusal α) : Tends env (check x) :=
  (keeps_check x).mono fun _ _ => trivial

lemma tends_attain {α : Type} (x : Except Uploads.Fault α) : Tends env (attain x) :=
  (keeps_attain x).mono fun _ _ => trivial

lemma tends_getBag (name : Text) (missing : Uploads.Fault) : Tends env (getBag name missing) :=
  .of_looks (fun s => looks_getBag s name missing) fun _ _ _ _ => trivial

lemma tends_modify {g : Server → Server} (hi : ∀ s, ReadableIndex s.index → ReadableIndex (g s).index)
    (hp : ∀ s, (g s).pending = s.pending) : Tends env (modify g) :=
  Keeps.modify fun s hs => ⟨hi s hs.index, fun o ho => hs.pending o (hp s ▸ ho)⟩

lemma tends_onActors {α : Type} (x : Actors.Handler α) : Tends env (onActors x) := by
  intro s hs
  rw [onActors]
  cases x s.actors with
  | ok a w => exact ⟨⟨hs.index, hs.pending⟩, trivial⟩
  | error e w => exact ⟨hs.index, hs.pending⟩

lemma tends_quietly {x : Handler Unit} (hx : Tends env x) : Tends env (quietly x) := by
  refine quietly_keeps fun s hs => ?_
  have h := hx s hs
  cases hr : x s with
  | ok a s' =>
    rw [hr] at h
    exact h.1
  | error e s' =>
    rw [hr] at h
    exact h

lemma tends_indexObj (o : Object) : Tends env (indexObj env o) := by
  refine Keeps.modify fun s hs => ⟨hs.index, fun o' ho' => ?_⟩
  rcases mem_append.mp ho' with ho' | ho'
  · exact hs.pending o' ho'
  · exact ⟨o, congrArg Indexable.lines (mem_singleton.mp ho')⟩

lemma tends_deleteItem (idx doc : Text) : Tends env (deleteItemFromCollection idx doc) :=
  tends_modify (fun _ hs => hs.deleteItem idx doc) fun _ => rfl

lemma tends_deleteDBItem (db : DataBags.DataBag) (id : Text) : Tends env (deleteDBItem db id) :=
  tends_bind (tends_modify (fun _ hs => hs) fun _ => rfl) fun _ => tends_bind (tends_deleteItem _ _) fun _ => tends_pure _

lemma tends_deleteDBItems (db : DataBags.DataBag) (ids : List Text) : Tends env (deleteDBItems db ids) := by
  induction ids generalizing db with
  | nil => exact tends_pure ()
  | cons id ids ih => exact tends_bind (tends_deleteDBItem db id) fun db => ih db

lemma tends_renameEnvironment (envName jsonName : Text) (data : JsonMap) :
    Tends env (renameEnvironment envName jsonName data) := by
  refine tends_bind tends_get fun _ => tends_bind (tends_check _) fun _ => tends_bind tends_get fun _ =>
    tends_bind (tends_attain _) fun e => tends_bind tends_get fun t => ?_
  cases findEnvironment t envName with
  | none => exact tends_pure e
  | some old =>
    refine tends_bind (tends_quietly (tends_bind (tends_check _) fun _ => tends_bind (tends_modify ?_ ?_) fun _ =>
      tends_deleteItem _ _)) fun _ => tends_pure e
    · exact fun _ hs => hs
    · exact fun _ => rfl

-- only `deleteItem`, `createCollection` and `deleteCollection` change the index while a request is served
lemma tends_handle (draw : Draw) (o : Operation) : Tends env (handle env op draw o) := by
  cases o
  all_goals
    dsimp only [handle, nodeCreate, nodePut, nodeDelete, roleCreate, rolePut, roleDelete, environmentCreate,
      environmentPut, environmentDelete, clientCreate, clientPut, clientDelete, bagCreate, bagDelete, itemCreate, itemPut,
      itemDelete, saveNode, deleteNode, saveRole, deleteRole, saveEnvironment, deleteEnvironment, saveClient, newDataBag,
      saveBag, deleteBag, newDBItem, updateDBItem]
    repeat' with_reducible first
      | exact tends_pure _ | exact tends_get | exact tends_check _ | exact tends_attain _ | exact keeps_getNode _
      | exact keeps_getRole _ | exact keeps_getEnvironment _ | exact tends_getBag _ _ | exact tends_onActors _
      | exact tends_indexObj _ | exact tends_deleteItem _ _ | exact tends_deleteDBItem _ _
      | exact tends_deleteDBItems _ _ | exact tends_renameEnvironment _ _ _
      | exact tends_modify (fun _ hs => hs) fun _ => rfl
      | exact tends_modify (fun _ hs => hs.createCollection _) fun _ => rfl
      | exact tends_modify (fun _ hs => hs.deleteCollection _) fun _ => rfl
      | refine tends_bind ?_ fun _ => ?_ | refine tends_quietly ?_ | split

lemma tends_serve (r : Request) : Tends env (serve env r) :=
  tends_bind (tends_onActors _) fun _ => tends_handle _ _

end

section

variable {actors : Actors.Env} {trim : ℤ} {flatten : Object → Flattened} {s : Server}

lemma build_fit {flat : Flattened} (h : Fit (indexify trim flat)) :
    ∃ d, (Search.Automaton.build (indexify trim flat)).toOption = some d ∧ Readable d := by
  have hne : ∀ l ∈ indexify trim flat, l ≠ [] := by
    intro l hl
    obtain ⟨g, u, -, rfl⟩ := mem_indexify.mp hl
    simp [indexLine]
  rw [Search.Automaton.build_of_words h.1 (pairwise_indexify trim flat) hne h.2]
  exact ⟨_, rfl, ⟨_, rfl⟩, _, rfl⟩

lemma Tended.turn (h : Tended (fileIndexer actors trim flatten) s) {e : Turn}
    (he : ∀ n, e = .process n → ∀ o ∈ s.pending[n]?, Fit o.lines) :
    Tended (fileIndexer actors trim flatten) (s.turn (fileIndexer actors trim flatten) e) := by
  cases e with
  | request r =>
    have hr := tends_serve r s h
    rw [Server.turn, Server.after]
    cases hs : serve (fileIndexer actors trim flatten) r s with
    | ok a s' =>
      rw [hs] at hr
      exact hr.1
    | error e s' =>
      rw [hs] at hr
      exact hr
  | process n =>
    rw [Server.turn, processPending]
    cases ho : s.pending[n]? with
    | none => exact h
    | some o =>
      obtain ⟨x, hx⟩ := h.pending o (mem_of_getElem? ho)
      have hx : o.lines = indexify trim (flatten x) := hx
      obtain ⟨d, hb, hd⟩ := build_fit (hx ▸ he n rfl o ho)
      exact ⟨h.index.saveItem (by rw [hx]; exact hb) hd,
        fun o' ho' => h.pending o' (mem_of_mem_eraseIdx ho')⟩

lemma Tended.turns (h : Tended (fileIndexer actors trim flatten) s) {es : List Turn}
    (hes : s.Fits (fileIndexer actors trim flatten) es) :
    Tended (fileIndexer actors trim flatten) (s.turns (fileIndexer actors trim flatten) es) := by
  induction es generalizing s with
  | nil => exact h
  | cons e es ih => exact ih (h.turn hes.1) hes.2

end

/-- The searches that answer on a collection: those of a term whose regular expression compiles, of a text that does not
start with a wildcard, and of a range with a bound. -/
structure Searchable (lib : Library) (docs : List (Text × IdxDoc)) : Prop where
  terms : ∀ term notop, (term.any (fun c => c = '*' || c = '?') = true → ∃ key re reComp,
    splitColon term = some (key, re) ∧ lib.compile (expression re) = .ok reComp) →
      ∃ S, searchCollection lib docs term notop = .ok S
  texts : ∀ c t notop reComp, c ≠ '*' → c ≠ '?' →
    lib.compile ("(?m):".toList ++ replaceAll '?' ".?".toList (replaceAll '*' ".*".toList (c :: t)) ++ "$".toList) =
      .ok reComp → ∃ S, searchTextCollection lib docs (c :: t) notop = .ok S
  ranges : ∀ field start stop inclusive negated, ¬ (start = ['*'] ∧ stop = ['*']) →
    ∃ S, searchRangeCollection docs field start stop inclusive negated = .ok S

lemma searchable_of_readable {lib : Library} {docs : List (Text × IdxDoc)} (h : ∀ kv ∈ docs, Readable kv.2) :
    Searchable lib docs := by
  constructor
  · intro term notop htr
    refine collect_of_total fun kv hkv => ?_
    obtain ⟨⟨trie, ht⟩, -⟩ := h kv hkv
    rw [IdxDoc.examine]
    split
    · next hw =>
      obtain ⟨key, re, reComp, hs, hc⟩ := htr hw
      rw [expression] at hc
      rw [IdxDoc.regexSearch, hs]
      dsimp only
      rw [hc, ht, orError, ok_bind, orError, ok_bind]
      split <;> exact ⟨_, rfl⟩
    · rw [IdxDoc.exactSearch, ht]
      exact ⟨_, rfl⟩
  · intro c t notop reComp hst hm hc
    refine collect_of_total fun kv hkv => ?_
    obtain ⟨-, text, htx⟩ := h kv hkv
    rw [IdxDoc.textSearch, if_neg (not_or.mpr ⟨hst, hm⟩)]
    dsimp only
    rw [hc, htx]
    exact ⟨_, rfl⟩
  · intro field start stop inclusive negated hb
    refine collect_of_total fun kv hkv => ?_
    obtain ⟨⟨trie, ht⟩, -⟩ := h kv hkv
    rw [IdxDoc.rangeSearch, if_neg hb, ht, orError, ok_bind]
    split <;> exact ⟨_, rfl⟩

theorem searches_answer (actors : Actors.Env) (trim : ℤ) (flatten : Object → Flattened) (lib : Library) (s : Server)
    (es : List Turn) (hs : ReadableIndex s.index) (hpending : s.pending = [])
    (hes : s.Fits (fileIndexer actors trim flatten) es) :
    ∀ idx c, (s.turns (fileIndexer actors trim flatten) es).index.idxmap.lookup idx = some c →
      (∀ kv ∈ c.docs, Readable kv.2) ∧ Searchable lib c.docs := by
  have h : Tended (fileIndexer actors trim flatten) s := ⟨hs, fun o ho => absurd ho (hpending ▸ not_mem_nil)⟩
  intro idx c hc
  have hr := (h.turns hes).index idx c hc
  exact ⟨hr, searchable_of_readable hr⟩

def mapOrder : Flattening := ⟨false, false, AList.entries, fun _ => .refl _⟩

def itemIndexer : Settings := fileIndexer Actors.copyingEnv 0 fun
  | .item i => mapOrder.flattenItem i
  | _ => ∅

def appsBag : List Turn :=
  [.request (adaAsks (.createBag (.ok (some (named "apps"))))), .request (adaAsks (.createItem "apps" webItem)), .process 0]

theorem searches_answer_apps : ∃ c, (freshServer.turns itemIndexer appsBag).index.idxmap.lookup "apps".toList = some c ∧
      (∀ kv ∈ c.docs, Readable kv.2) ∧ Searchable Search.asciiLibrary c.docs := by
  have hs : ((freshServer.turns itemIndexer appsBag).index.idxmap.lookup "apps".toList).isSome = true := by decide +kernel
  obtain ⟨c, hc⟩ := Option.isSome_iff_exists.mp hs
  refine ⟨c, hc, searches_answer _ _ _ _ freshServer appsBag ?_ rfl ⟨nofun, nofun, ?_, trivial⟩ _ c hc⟩
  · rintro idx c hc kv hkv
    rw [lookup_noDocuments hc] at hkv
    exact absurd hkv not_mem_nil
  · rintro n ⟨⟩ o ho
    have hp : (freshServer.turns itemIndexer (appsBag.take 2)).pending.map Indexable.lines = [["id:web".toList]] := by
      decide +kernel
    have hl : o.lines = ["id:web".toList] :=
      mem_singleton.mp (hp ▸ mem_map_of_mem (mem_of_getElem? ho))
    rw [hl]
    exact ⟨by simp, fun _ _ hd => absurd hd (nodup_iff_forall_not_duplicate.mp (nodup_singleton _) _)⟩

theorem searches_fail :
    let s := freshServer.turns itemIndexer (appsBag ++ [.request (adaAsks (.putItem "apps" "web" [])), .process 0])
    s.pending = [] ∧ (s.index.idxmap.lookup "apps".toList).map (fun c =>
      ((searchCollection Search.asciiLibrary c.docs "id:web" false).isOk,
        (searchTextCollection Search.asciiLibrary c.docs "web" false).isOk,
        (searchRangeCollection c.docs "id" "a" "z" true false).isOk)) = some (false, false, false) := by
  decide +kernel

end Goiardi.Indexing
