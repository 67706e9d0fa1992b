import Goiardi.Actors.Admins
import Goiardi.Indexing.Agreement

/-! Runs of requests on nodes, roles, environments, clients, data bags and items, and the agreement of the index with
the store after them. -/

namespace Goiardi.Indexing

open Validation List AList
open Search (FileIndex IdxDoc)
open Actors (Client Refusal World Actor Draw)
open DataBags (DataBag DataBagItem rawDataBagJSON idField itemId)
open Uploads (Fault)

variable {env : Settings} {s s' : Server} {op : Actor}

section

variable {db : DataBag} {b id : Text} {item : DataBagItem}

structure Holding (env : Settings) (db : DataBag) (s : Server) : Prop extends Idle env s where
  stored : s.bags.lookup db.name = some db

lemma Holding.agreeing (h : Holding env db s) : Agreeing env s := h.toIdle.agreeing

lemma Holding.apart (h : Holding env db s) : db.name ∉ builtins := (h.named.bags _ _ h.stored).2.1

def itemNames (bags : AList fun _ : Text => DataBag) (idx id : Text) : Bool :=
  ((bags.lookup idx).bind fun db => db.items.lookup id).isSome

structure SameObjects (s s' : Server) : Prop where
  actors : s'.actors = s.actors
  nodes : s'.nodes = s.nodes
  roles : s'.roles = s.roles
  environments : s'.environments = s.environments

variable {idx id' : Text} {p : Prop} {α : Type} {name : Text} {data : JsonMap} {e : Refusal} {f : Unit → Handler α}

lemma names_or (h : SameObjects s s') (hb : b ∉ builtins)
    (hi : itemNames s'.bags idx id' = (decide (idx = b ∧ id' = id) || itemNames s.bags idx id')) :
    s'.names idx id' = (decide (idx = b ∧ id' = id) || s.names idx id') := by
  have hne : ∀ c ∈ builtins, b ≠ c := fun c hc => (ne_of_builtin hc hb).symm
  unfold itemNames at hi
  simp only [Server.names, h.actors, h.nodes, h.roles, h.environments]
  rw [hi, view_or_of_ne (hne _ (by decide)), view_or_of_ne (hne _ (by decide)), view_or_of_ne (hne _ (by decide)),
    view_or_of_ne (hne _ (by decide))]

lemma names_and (h : SameObjects s s') (hb : b ∉ builtins) [Decidable p]
    (hi : itemNames s'.bags idx id' = (!decide (idx = b ∧ p) && itemNames s.bags idx id')) :
    s'.names idx id' = (!decide (idx = b ∧ p) && s.names idx id') := by
  have hne : ∀ c ∈ builtins, b ≠ c := fun c hc => (ne_of_builtin hc hb).symm
  unfold itemNames at hi
  simp only [Server.names, h.actors, h.nodes, h.roles, h.environments]
  rw [hi, view_and_of_ne (hne _ (by decide)), view_and_of_ne (hne _ (by decide)), view_and_of_ne (hne _ (by decide)),
    view_and_of_ne (hne _ (by decide))]

lemma itemNames_insert (bags : AList fun _ : Text => DataBag) (db : DataBag) (idx id : Text) :
    itemNames (bags.insert db.name db) idx id =
      if idx = db.name then (db.items.lookup id).isSome else itemNames bags idx id := by
  unfold itemNames
  split
  · next h => rw [h, lookup_insert, Option.bind_some]
  · next h => rw [lookup_insert_ne h]

lemma itemNames_stored (h : s.bags.lookup db.name = some db) (id : Text) :
    itemNames s.bags db.name id = (db.items.lookup id).isSome := by rw [itemNames, h, Option.bind_some]

lemma Server.Named.putBag (h : s.Named) (db : DataBag) (hb : db.name ∉ builtins)
    (hi : ∀ id item, db.items.lookup id = some item → item.dataBagName = db.name) :
    ∀ k db', (s.bags.insert db.name db).lookup k = some db' → db'.name = k ∧ k ∉ builtins ∧
      ∀ id item, db'.items.lookup id = some item → item.dataBagName = k := by
  intro k db' hk
  by_cases hky : k = db.name
  · subst hky
    rw [lookup_insert] at hk
    cases hk
    exact ⟨rfl, hb, hi⟩
  · rw [lookup_insert_ne hky] at hk
    exact h.bags k db' hk

lemma putItem_leads (item : DataBagItem) (hn : item.dataBagName = db.name) (hd : itemDocID item = id) :
    Leads (Holding env db) (Agreeing env) (do
      saveBag { db with items := db.items.insert id item }
      indexObj env (.item item)
      return item) := by
  intro s hs
  have hit : ∀ id' item', (db.items.insert id item).lookup id' = some item' → item'.dataBagName = db.name := by
    intro id' item' hi
    by_cases hid : id' = id
    · subst hid
      rw [lookup_insert] at hi
      cases hi
      exact hn
    · rw [lookup_insert_ne hid] at hi
      exact (hs.named.bags _ _ hs.stored).2.2 id' item' hi
  have hb := hs.named.putBag { db with items := db.items.insert id item } hs.apart hit
  refine hs.agreeing.saved (.item item) ⟨hs.named.nodes, hs.named.roles, hs.named.environments, hs.named.clients, hb⟩
    rfl rfl fun idx id' => ?_
  change _ = (decide (idx = item.dataBagName ∧ id' = itemDocID item) || s.names idx id')
  rw [hn, hd]
  refine names_or ?_ hs.apart ?_
  · exact ⟨rfl, rfl, rfl, rfl⟩
  refine (itemNames_insert s.bags { db with items := db.items.insert id item } idx id').trans ?_
  split
  · next h =>
    have hix : idx = db.name := h
    rw [hix, isSome_lookup_insert, itemNames_stored hs.stored, decide_eq_decide.mpr (and_iff_right rfl)]
  · next h =>
    have hix : idx ≠ db.name := h
    rw [decide_eq_false fun h' => hix h'.1, Bool.false_or]

lemma leads_getBag {missing : Fault} {f : DataBag → Handler α}
    (hf : ∀ db, Leads (Holding env db) (Agreeing env) (f db)) :
    Leads (Idle env) (Agreeing env) (getBag name missing >>= f) := by
  intro s hs
  cases hl : s.bags.lookup name with
  | none =>
    rw [run_bind_error ((looks_getBag s name missing).missing hl)]
    exact hs.agreeing
  | some db =>
    rw [run_bind_ok ((looks_getBag s name missing).found hl)]
    have hn : db.name = name := (hs.named.bags name db hl).1
    exact hf db s ⟨hs, by rw [hn, hl]⟩

lemma leads_holding {α β : Type} {x : Handler α} {f : α → Handler β} {Q : α → Prop} (hx : Keeps (Holding env db) x Q)
    (hf : ∀ a, Q a → Leads (Holding env db) (Agreeing env) (f a)) : Leads (Holding env db) (Agreeing env) (x >>= f) :=
  .after_keeps hx (fun _ => Holding.agreeing) hf

lemma itemDocID_of_lookup {d : Text} (h : lookupField item.rawData idField = .str d) : itemDocID item = d := by
  rw [itemDocID, h]

lemma itemId_ok (h : itemId data = .ok id) : lookupField data idField = .str id := by
  unfold itemId at h
  split at h
  · next t ht =>
    split at h
    · cases h
    · cases h
      exact ht
  · cases h

lemma newDBItem_leads (data : JsonMap) : Leads (Holding env db) (Agreeing env) (newDBItem env db data) := by
  refine leads_holding (keeps_attain _) fun db' hd' => leads_holding (keeps_attain _) fun id hid => ?_
  obtain ⟨id', hi', h⟩ := bind_eq_ok hd'
  obtain ⟨-, -, h⟩ := bind_eq_ok h
  obtain ⟨-, -, h⟩ := bind_eq_ok h
  cases h
  obtain rfl : id' = id := by rw [hi'] at hid; cases hid; rfl
  exact putItem_leads _ rfl (itemDocID_of_lookup (itemId_ok hi'))

lemma updateDBItem_leads (hd : lookupField data idField = .str id) :
    Leads (Holding env db) (Agreeing env) (updateDBItem env db id data) := by
  intro s hs
  refine leads_holding (keeps_attain _) (fun item hi => ?_) s hs
  have hn : item.dataBagName = db.name := by
    rw [getDBItem] at hi
    split at hi
    · next item' hl =>
      cases hi
      exact (hs.named.bags _ _ hs.stored).2.2 id item hl
    · cases hi
  exact putItem_leads { item with rawData := data } hn (itemDocID_of_lookup hd)

lemma deleteDBItem_run (hs : Holding env db s) (id : Text) :
    ∃ s', deleteDBItem db id s = .ok (db.deleteDBItem id) s' ∧ Holding env (db.deleteDBItem id) s' := by
  refine ⟨_, rfl, ?_, lookup_insert _⟩
  have hit : ∀ id' item', (db.items.erase id).lookup id' = some item' → item'.dataBagName = db.name := by
    intro id' item' hi
    by_cases hid : id' = id
    · subst hid
      rw [lookup_erase] at hi
      cases hi
    · rw [lookup_erase_ne hid] at hi
      exact (hs.named.bags _ _ hs.stored).2.2 id' item' hi
  have hb := hs.named.putBag (db.deleteDBItem id) hs.apart hit
  refine hs.toIdle.deleted db.name id ⟨hs.named.nodes, hs.named.roles, hs.named.environments, hs.named.clients, hb⟩
    rfl rfl fun idx id' => ?_
  refine names_and ?_ hs.apart ?_
  · exact ⟨rfl, rfl, rfl, rfl⟩
  refine (itemNames_insert s.bags (db.deleteDBItem id) idx id').trans ?_
  split
  · next h =>
    have hix : idx = db.name := h
    rw [hix, DataBag.deleteDBItem, isSome_lookup_erase, itemNames_stored hs.stored,
      decide_eq_decide.mpr (and_iff_right rfl)]
  · next h =>
    have hix : idx ≠ db.name := h
    rw [decide_eq_false fun h' => hix h'.1, Bool.not_false, Bool.true_and]

lemma deleteDBItems_run (hs : Holding env db s) (ids : List Text) :
    ∃ s' db', deleteDBItems db ids s = .ok () s' ∧ Holding env db' s' ∧ db'.name = db.name := by
  induction ids generalizing db s with
  | nil => exact ⟨s, db, rfl, hs, rfl⟩
  | cons id ids ih =>
    obtain ⟨s₁, hrn, hs₁⟩ := deleteDBItem_run hs id
    obtain ⟨s₂, db', hr, hs₂, hn⟩ := ih hs₁
    exact ⟨s₂, db', (run_bind_ok hrn).trans hr, hs₂, hn⟩

lemma document_deleteCollection (i : FileIndex) (hb : b ∉ builtins) (idx id : Text) :
    (document (attempt i (deleteCollection i b)) idx id).isSome =
      (!decide (idx = b ∧ True) && (document i idx id).isSome) := by
  rw [document, lookup_deleteCollection, document]
  by_cases h : idx = b
  · rw [if_pos ⟨h, hb⟩, decide_eq_true ⟨h, trivial⟩]
    rfl
  · rw [if_neg fun h' => h h'.1, decide_eq_false fun h' => h h'.1, Bool.not_false, Bool.true_and]

lemma deleteBag_leads : Leads (Holding env db) (Agreeing env) (deleteBag db) := by
  intro s hs
  obtain ⟨s', db', hr, hs', hn⟩ := deleteDBItems_run hs db.items.keys
  have hb : db.name ∉ builtins := hn ▸ hs'.apart
  have he : deleteBag db s = .ok () { s' with
      bags := s'.bags.erase db.name, index := attempt s'.index (deleteCollection s'.index db.name) } :=
    run_bind_ok hr
  rw [he]
  have hq : s'.pending = [] := hs'.quiet
  refine ⟨⟨hs'.named.nodes, hs'.named.roles, hs'.named.environments, hs'.named.clients, fun k db' hk => ?_⟩,
    fun idx id => ?_⟩
  · by_cases hky : k = db.name
    · rw [hky, lookup_erase] at hk
      cases hk
    · exact hs'.named.bags k db' (lookup_erase_ne hky ▸ hk)
  simp only [Server.settled, hq, foldl_nil]
  rw [document_deleteCollection _ hb, hs'.toIdle.present]
  refine (names_and ?_ hb ?_).symm
  · exact ⟨rfl, rfl, rfl, rfl⟩
  by_cases h : idx = db.name
  · subst h
    rw [itemNames, lookup_erase, decide_eq_true ⟨rfl, trivial⟩]
    rfl
  · rw [itemNames, lookup_erase_ne h, decide_eq_false fun h' => h h'.1, Bool.not_false, Bool.true_and, itemNames]

lemma document_createCollection (i : FileIndex) (b idx id : Text) :
    document (createCollection i b) idx id = document i idx id := by
  rw [document, lookup_createCollection, document]
  split
  · next h =>
    subst h
    cases i.idxmap.lookup idx <;> rfl
  · rfl

lemma check_require_pos [Decidable p] (hp : p) : (check (Actors.require p e) >>= f) s = f () s := by
  rw [Actors.require, if_pos hp]
  rfl

lemma check_require_neg [Decidable p] (hp : ¬ p) : (check (Actors.require p e) >>= f) s = .error (.refused e) s := by
  rw [Actors.require, if_neg hp]
  rfl

lemma newDataBag_cases (name : Text) (s : Server) : (∃ e, newDataBag name s = .error e s) ∨ s.bags.lookup name = none ∧
      newDataBag name s = .ok ⟨name, ∅⟩ { s with index := createCollection s.index name } := by
  unfold newDataBag
  by_cases hv : DataBags.validateDBagName name = true
  · rw [check_require_pos hv, run_bind_ok (x := get) rfl]
    by_cases hn : (s.bags.lookup name).isNone = true
    · rw [check_require_pos hn]
      exact .inr ⟨Option.isNone_iff_eq_none.mp hn, rfl⟩
    · rw [check_require_neg hn]
      exact .inl ⟨_, rfl⟩
  · rw [check_require_neg hv]
    exact .inl ⟨_, rfl⟩

lemma createBag_leads (hn : name ∉ builtins) :
    Leads (Idle env) (Agreeing env) (do
      let db ← newDataBag name
      saveBag db
      return db) := by
  intro s hs
  obtain ⟨e, he⟩ | ⟨hnw, hr⟩ := newDataBag_cases name s
  · rw [run_bind_error he]
    exact hs.agreeing
  · rw [run_bind_ok hr]
    have hq : s.pending = [] := hs.quiet
    refine ⟨⟨hs.named.nodes, hs.named.roles, hs.named.environments, hs.named.clients,
      hs.named.putBag ⟨name, ∅⟩ hn fun _ _ hi => by cases hi⟩, fun idx id => ?_⟩
    change (document (s.pending.foldl _ (createCollection s.index name)) idx id).isSome = _
    rw [hq, foldl_nil, document_createCollection, hs.present]
    -- the collection held no name before, and holds none now
    have hsm : itemNames (s.bags.insert name ⟨name, ∅⟩) idx id = (!decide (idx = name ∧ False) &&
        itemNames s.bags idx id) := by
      rw [decide_eq_false fun h => h.2, Bool.not_false, Bool.true_and]
      refine (itemNames_insert s.bags ⟨name, ∅⟩ idx id).trans ?_
      split
      · next h =>
        have hid : idx = name := h
        rw [hid, itemNames, hnw]
        rfl
      · rfl
    have ho : SameObjects s { s with
        index := createCollection s.index name, bags := s.bags.insert name ⟨name, ∅⟩ } := ⟨rfl, rfl, rfl, rfl⟩
    refine Eq.trans ?_ (names_and ho hn hsm).symm
    rw [decide_eq_false fun h => h.2, Bool.not_false, Bool.true_and]

lemma itemCreate_leads (bag : Text) (body : JsonMap) : Leads (Idle env) (Agreeing env) (itemCreate env op bag body) :=
  leads_check fun _ => leads_getBag fun _ => leads_holding (keeps_attain _) fun data _ =>
    newDBItem_leads data

lemma lookupField_of_checkId {u : Unit} (h : DataBags.ItemRequest.checkId id data = .ok u)
    (hd : data.lookup idField ≠ none) : lookupField data idField = .str id := by
  unfold DataBags.ItemRequest.checkId at h
  split at h
  · next hl => exact absurd hl hd
  · next t hl =>
    obtain rfl : t = id := Uploads.demand_eq_ok h
    rw [lookupField, hl]
    rfl
  · cases h

lemma itemPut_leads (bag id : Text) {body : JsonMap}
    (hid : ∀ data, rawDataBagJSON body = .ok data → data.lookup idField ≠ none) :
    Leads (Idle env) (Agreeing env) (itemPut env op bag id body) :=
  leads_check fun _ => leads_getBag fun _ => leads_holding (keeps_attain _) fun _ _ =>
    leads_holding (keeps_attain _) fun data hd => leads_holding (keeps_attain _) fun _ hc =>
    updateDBItem_leads (lookupField_of_checkId hc (hid data hd))

lemma itemDelete_leads (bag id : Text) : Leads (Idle env) (Agreeing env) (itemDelete env op bag id) := by
  refine leads_check fun _ => leads_getBag fun _ => leads_holding (keeps_attain _) fun _ _ s hs => ?_
  obtain ⟨s', hr, hs'⟩ := deleteDBItem_run hs id
  rw [hr]
  exact hs'.agreeing

end

section

open Actors (getClient clientKind)

variable {w : World} {h : Cell Client} {name : Text}

variable {α : Type} {I : Server → Prop} {i : ℕ} {c : Client}

lemma keeps_onActors {x : Actors.Handler α} {Q : α → Prop}
    (hx : ∀ s : Server, Keeps (fun w => I { s with actors := w }) x Q) : Keeps I (onActors x) Q := by
  intro s hs
  have hk := hx s s.actors hs
  rw [onActors]
  cases hr : x s.actors with
  | ok a w' =>
    rw [hr] at hk
    exact hk
  | error e w' =>
    rw [hr] at hk
    exact hk

lemma keeps_checkActors {I : World → Prop} (x : Except Refusal α) : Keeps I (Actors.check x) fun a => x = .ok a := by
  cases x with
  | ok a => exact Keeps.pure rfl
  | error e => exact Keeps.throw _

lemma saveClient_leads (hI : ∀ s, I s → Agreeing env s)
    (ht : ∀ s, I s → (s.actors.clients.put env.actors.mode h.val.name h).Tidy Client.name) :
    Leads I (Agreeing env) (saveClient env h) := by
  intro s hs
  by_cases hf : s.actors.users.get h.val.name = none
  · have hsv : onActors (Actors.Client.save env.actors h) s = .ok () { s with actors :=
        { s.actors with clients := s.actors.clients.put env.actors.mode h.val.name h } } := by
      rw [onActors, Actors.Client.save_free hf]
    have hr : saveClient env h s = _ := run_bind_ok hsv
    rw [hr]
    have hn := (hI s hs).named
    refine (hI s hs).saved (.client h.val) ⟨hn.nodes, hn.roles, hn.environments, ht s hs, hn.bags⟩
      rfl rfl fun idx id => ?_
    simp only [Server.names]
    rw [Shelf.isSome_get_put, view_or, view_or_of_ne client_ne_role, view_or_of_ne client_ne_node]
    rfl
  · have hsv : onActors (Actors.Client.save env.actors h) s = .error (.refused (Actors.userConflict h.val.name)) s := by
      rw [onActors, Actors.Client.save_taken hf]
    have hr : saveClient env h s = _ := run_bind_error hsv
    rw [hr]
    exact hI s hs

lemma clientCreate_leads (draw : Draw) (body : Body) :
    Leads (Idle env) (Agreeing env) (clientCreate env op draw body) := by
  refine leads_check fun _ => leads_check fun _ => leads_get fun _ =>
    leads_check fun _ => leads_after (keeps_check _) fun c _ s hs => ?_
  -- the new object is made from the store that it is saved in
  refine (saveClient_leads (I := (· = s)) ?_ ?_).bind_pure (fun _ => c.1) s rfl
  · rintro s rfl
    exact hs.agreeing
  · rintro s rfl
    exact hs.named.clients.put_fresh _ _

structure Editing (env : Settings) (name : Text) (i : ℕ) (s : Server) : Prop extends Idle env s where
  stored : ∃ c, s.actors.clients.get name = some c ∧ c.id = i

lemma Editing.agreeing (h : Editing env name i s) : Agreeing env s := h.toIdle.agreeing

lemma keeps_assign (hid : h.id = i) (hc : c.name = name) (s : Server) :
    Keeps (fun w => Editing env name i { s with actors := w }) (clientKind.assign env.actors h c)
      fun h' => h'.id = i ∧ h'.val.name = name := by
  refine Keeps.bind (Q := fun _ => True) (Keeps.modify fun w hw => ?_) fun _ _ => Keeps.pure ⟨hid, hc⟩
  obtain ⟨d, hd, hdd⟩ := hw.stored
  have ht : w.clients.Tidy Client.name := hw.named.clients
  have hg : ∀ k, ((w.clients.assign env.actors.mode h c).get k).isSome = (w.clients.get k).isSome :=
    fun k => Shelf.isSome_get_assign
  refine ⟨⟨⟨⟨hw.named.nodes, hw.named.roles, hw.named.environments, ht.assign hd (hid.trans hdd.symm) hc,
    hw.named.bags⟩, fun idx id => ?_⟩, hw.quiet⟩, ?_⟩
  · refine (hw.agrees idx id).trans ?_
    simp only [Server.names]
    rw [← hg id]
    rfl
  · have hn : (w.clients.assign env.actors.mode h c).get name = _ := ht.get_assign hd (hid.trans hdd.symm)
    split at hn
    · exact ⟨_, hn, hdd⟩
    · exact ⟨d, hn.trans hd, hdd⟩

lemma keeps_putPublicKey (hid : h.id = i) (hn : h.val.name = name) (data json : JsonMap) (s : Server) :
    Keeps (fun w => Editing env name i { s with actors := w }) (clientKind.putPublicKey env.actors data h json)
      fun p => p.1.id = i ∧ p.1.val.name = name := by
  refine (keeps_checkActors _).bind fun key _ => ?_
  cases key with
  | none => exact Keeps.pure ⟨hid, hn⟩
  | some pk =>
    have hk : (clientKind.setPublicKey env.actors pk h.val).name = name := by
      rw [Actors.Kind.setPublicKey]
      split <;> exact hn
    exact (keeps_assign hid hk s).bind fun h' hh => Keeps.pure hh

lemma keeps_putPrivateKey (hid : h.id = i) (hn : h.val.name = name) (draw : Draw) (data json : JsonMap) (s : Server) :
    Keeps (fun w => Editing env name i { s with actors := w }) (clientKind.putPrivateKey env.actors draw data h json)
      fun p => p.1.id = i ∧ p.1.val.name = name := by
  refine (keeps_checkActors _).bind fun pair _ => ?_
  cases pair with
  | none => exact Keeps.pure ⟨hid, hn⟩
  | some keys =>
    have hk : (clientKind.setPublicKey env.actors keys.2 h.val).name = name := by
      rw [Actors.Kind.setPublicKey]
      split <;> exact hn
    exact (keeps_assign hid hk s).bind fun h' hh => Keeps.pure hh

lemma Editing.tidy_put (hs : Editing env name i s) (hid : h.id = i) (hn : h.val.name = name) :
    (s.actors.clients.put env.actors.mode h.val.name h).Tidy Client.name := by
  obtain ⟨c, hc, hcd⟩ := hs.stored
  have ht : s.actors.clients.Tidy Client.name := hs.named.clients
  have hsm : h.id = c.id := hid.trans hcd.symm
  refine ht.put rfl (fun k hk => ?_) fun _ k d hd hdd => ?_
  · rw [Shelf.get_put_of_ne hk, ht.get_assign hc hsm, if_neg fun h' => hk (h'.1.trans hn.symm)]
  · rw [hn]
    exact ht.distinct k name d c hd hc (hdd.trans hsm)

lemma quietly_leads {I J : Server → Prop} {x : Handler Unit} (hx : Leads I J x) : Leads I J (quietly x) := by
  intro s hs
  have hk := hx s hs
  rw [quietly]
  cases hr : x s with
  | ok a s' =>
    rw [hr] at hk
    exact hk
  | error e s' =>
    rw [hr] at hk
    exact hk

lemma revise_leads (hid : s.actors.clients.get name = some h) (hc : c.name = name) (draw : Draw)
    (data : JsonMap) (hs : Idle env s) :
    Leads (· = s) (Agreeing env) (do
      let h ← onActors (clientKind.assign env.actors h c)
      let (h, _) ← onActors (clientKind.putKeys env.actors draw data h [])
      quietly (saveClient env h)
      return h.val) := by
  have hst : Editing env name h.id s := ⟨hs, h, hid, rfl⟩
  have hl : Leads (Editing env name h.id) (Agreeing env) (do
      let h ← onActors (clientKind.assign env.actors h c)
      let (h, _) ← onActors (clientKind.putKeys env.actors draw data h [])
      quietly (saveClient env h)
      return h.val) := by
    refine .after_keeps (keeps_onActors (keeps_assign rfl hc)) (fun _ => Editing.agreeing) fun h₁ hh₁ => ?_
    refine .after_keeps (keeps_onActors fun s => (keeps_putPublicKey hh₁.1 hh₁.2 data [] s).bind fun p hp =>
      keeps_putPrivateKey hp.1 hp.2 draw data p.2 s) (fun _ => Editing.agreeing) fun p hp => ?_
    exact (quietly_leads (saveClient_leads (fun _ => Editing.agreeing)
      fun s hs => hs.tidy_put hp.1 hp.2)).bind_pure fun _ => p.1.val
  rintro s rfl
  exact hl s hst

lemma keeps_getClient (name : Text) (s : Server) :
    Keeps (· = s) (onActors (getClient name)) fun h => s.actors.clients.get name = some h := by
  rintro s rfl
  cases hg : s.actors.clients.get name with
  | none =>
    rw [onActors, (Actors.looks_getClient _ _).missing hg]
  | some h =>
    rw [onActors, (Actors.looks_getClient _ _).found hg]
    exact ⟨rfl, rfl⟩

def Renames (env : Settings) (s : Server) (op : Actor) (name : Text) (body : Body) : Prop :=
  ∃ data h newName, readBody body = .ok data ∧ s.actors.clients.get name = some h ∧
    h.val.putChecks env.actors op data = .ok newName ∧ name ≠ newName ∧
      h.val.renameChecks s.actors newName = .ok ()

lemma keeps_rename {newName : Text} (hr : h.val.renameChecks s.actors newName ≠ .ok ()) :
    Keeps (· = s) (onActors (Actors.Client.rename env.actors h newName)) fun _ => False := by
  rintro s rfl
  cases hc : h.val.renameChecks s.actors newName with
  | ok u => exact absurd hc hr
  | error e =>
    have hrn : Actors.Client.rename env.actors h newName s.actors = .error e s.actors :=
      Actors.check_bind_error hc
    rw [onActors, hrn]

lemma clientPut_leads {draw : Draw} {body : Body} (hs : Idle env s) (hnt : ¬ Renames env s op name body) :
    Leads (· = s) (Agreeing env) (clientPut env op draw name body) := by
  have hI : ∀ t, t = s → Agreeing env t := by
    rintro s rfl
    exact hs.agreeing
  refine .after_keeps (keeps_check _) hI fun data hd => .after_keeps (keeps_getClient name s) hI fun h hg =>
    .after_keeps (keeps_check _) hI fun newName hch => ?_
  refine .after_keeps (Q := fun h' => h' = h) ?_ hI ?_
  · split
    · next hne =>
      exact (keeps_rename fun hr => hnt ⟨data, h, newName, hd, hg, hch, hne, hr⟩).mono fun _ hf => hf.elim
    · exact Keeps.pure rfl
  · rintro h rfl
    refine .after_keeps Keeps.get hI fun _ _ => .after_keeps (keeps_check _) hI fun c hc => ?_
    have hn : c.name = name := (Actors.Client.updateFromJSON_ok hc).name.trans (hs.named.clients.named name _ hg)
    exact revise_leads hg hn draw data hs

lemma clientDelete_leads (name : Text) : Leads (Idle env) (Agreeing env) (clientDelete env op name) := by
  intro s hs
  have hI : ∀ t, t = s → Agreeing env t := by
    rintro s rfl
    exact hs.agreeing
  refine Leads.after_keeps (keeps_getClient name s) hI (fun h _ => .after_keeps (keeps_check _) hI fun _ _ =>
    .after_keeps Keeps.get hI fun _ _ => .after_keeps (keeps_check _) hI fun _ _ => ?_) s rfl
  rintro s rfl
  refine Idle.agreeing (hs.deleted "client" h.val.name ⟨hs.named.nodes, hs.named.roles, hs.named.environments,
    hs.named.clients.remove h.val.name, hs.named.bags⟩ rfl rfl fun idx id => ?_)
  have hg : ((s.actors.clients.remove h.val.name).get id).isSome =
      (!decide (id = h.val.name) && (s.actors.clients.get id).isSome) := isSome_lookup_erase h.val.name id
  simp only [Server.names, World.withoutClient, hg]
  rw [view_and, view_and_of_ne client_ne_role, view_and_of_ne client_ne_node]

end

inductive Operation
  | createNode (body : Body)
  | putNode (name : Text) (body : Body)
  | deleteNode (name : Text)
  | createRole (body : Body)
  | putRole (name : Text) (body : Body)
  | deleteRole (name : Text)
  | createEnvironment (body : Body)
  | putEnvironment (name : Text) (body : Body)
  | deleteEnvironment (name : Text)
  | createClient (body : Body)
  | putClient (name : Text) (body : Body)
  | deleteClient (name : Text)
  | createBag (body : Body)
  | deleteBag (name : Text)
  | createItem (bag : Text) (body : JsonMap)
  | putItem (bag id : Text) (body : JsonMap)
  | deleteItem (bag id : Text)

structure Request where
  user : Text
  operation : Operation
  draw : Draw

section

variable (env : Settings)

def handle (op : Actor) (draw : Draw) : Operation → Handler Unit
  | .createNode body => do let _ ← nodeCreate env op body
  | .putNode name body => do let _ ← nodePut env op name body
  | .deleteNode name => do let _ ← nodeDelete env op name
  | .createRole body => do let _ ← roleCreate env op body
  | .putRole name body => do let _ ← rolePut env op name body
  | .deleteRole name => do let _ ← roleDelete env op name
  | .createEnvironment body => do let _ ← environmentCreate env op body
  | .putEnvironment name body => do let _ ← environmentPut env op name body
  | .deleteEnvironment name => do let _ ← environmentDelete env op name
  | .createClient body => do let _ ← clientCreate env op draw body
  | .putClient name body => do let _ ← clientPut env op draw name body
  | .deleteClient name => do let _ ← clientDelete env op name
  | .createBag body => do let _ ← bagCreate env op body
  | .deleteBag name => do let _ ← bagDelete env op name
  | .createItem bag body => do let _ ← itemCreate env op bag body
  | .putItem bag id body => do let _ ← itemPut env op bag id body
  | .deleteItem bag id => do let _ ← itemDelete env op bag id

def serve (r : Request) : Handler Unit := do
  let op ← onActors (Actors.getReqUser env.actors r.user)
  handle env op r.draw r.operation

def Server.complete (s : Server) (r : Request) : Server := (s.after (serve env r)).settle env

def Server.completeAll (s : Server) (rs : List Request) : Server := rs.foldl (Server.complete env) s

def Strays (s : Server) (op : Actor) : Operation → Prop
  | .putClient name body => Renames env s op name body
  | .createBag body => ∃ data name, readBody body = .ok data ∧ bagName data = .ok name ∧ name ∈ builtins
  | .putItem _ _ body => ∃ data, rawDataBagJSON body = .ok data ∧ data.lookup idField = none
  | _ => False

def Request.Strays (s : Server) (r : Request) : Prop :=
  ∃ op, s.actors.actor (if env.actors.useAuth then r.user else Actors.adminField) = some op ∧
    Indexing.Strays env s op r.operation

def Server.Followed : Server → List Request → Prop
  | _, [] => True
  | s, r :: rs => ¬ r.Strays env s ∧ (s.complete env r).Followed rs

end

lemma handle_leads {draw : Draw} {o : Operation} (hs : Idle env s) (ho : ¬ Strays env s op o) :
    Leads (· = s) (Agreeing env) (handle env op draw o) := by
  have hi : ∀ {x : Handler Unit}, Leads (Idle env) (Agreeing env) x → Leads (· = s) (Agreeing env) x := by
    rintro x hx s rfl
    exact hx s hs
  cases o with
  | createNode body => exact hi ((nodeCreate_leads body).bind_pure _)
  | putNode name body => exact hi ((nodePut_leads name body).bind_pure _)
  | deleteNode name => exact hi ((nodeDelete_leads name).bind_pure _)
  | createRole body => exact hi ((roleCreate_leads body).bind_pure _)
  | putRole name body => exact hi ((rolePut_leads name body).bind_pure _)
  | deleteRole name => exact hi ((roleDelete_leads name).bind_pure _)
  | createEnvironment body => exact hi ((environmentCreate_leads body).bind_pure _)
  | putEnvironment name body => exact hi ((environmentPut_leads name body).bind_pure _)
  | deleteEnvironment name => exact hi ((environmentDelete_leads name).bind_pure _)
  | createClient body => exact hi ((clientCreate_leads draw body).bind_pure _)
  | putClient name body => exact (clientPut_leads hs ho).bind_pure _
  | deleteClient name => exact hi ((clientDelete_leads name).bind_pure _)
  | createBag body =>
    exact hi ((leads_check fun _ => leads_after (keeps_check _) fun data hd => leads_after (keeps_check _) fun name hn =>
      leads_get fun _ => leads_check fun _ => createBag_leads fun hb => ho ⟨data, name, hd, hn, hb⟩).bind_pure _)
  | deleteBag name => exact hi ((leads_check fun _ => leads_getBag fun _ => deleteBag_leads.bind_pure _).bind_pure _)
  | createItem bag body => exact hi ((itemCreate_leads bag body).bind_pure _)
  | putItem bag id body =>
    refine hi ((itemPut_leads bag id fun data hd hnn => ?_).bind_pure _)
    exact ho ⟨data, hd, hnn⟩
  | deleteItem bag id => exact hi ((itemDelete_leads bag id).bind_pure _)

lemma keeps_getReqUser (name : Text) (s : Server) :
    Keeps (· = s) (onActors (Actors.getReqUser env.actors name)) fun op =>
      s.actors.actor (if env.actors.useAuth then name else Actors.adminField) = some op := by
  rintro s rfl
  rw [onActors, Actors.getReqUser]
  simp only
  rw [run_bind_ok (x := get) rfl]
  cases hop : s.actors.actor (if env.actors.useAuth then name else Actors.adminField) with
  | none => rfl
  | some op => exact ⟨rfl, rfl⟩

lemma Idle.complete (hs : Idle env s) {r : Request} (hr : ¬ r.Strays env s) : Idle env (s.complete env r) := by
  have hsr : Leads (· = s) (Agreeing env) (serve env r) := by
    refine .after_keeps (keeps_getReqUser r.user s) ?_ fun op hop => ?_
    · rintro s rfl
      exact hs.agreeing
    · exact handle_leads hs fun hst => hr ⟨op, hop, hst⟩
  have hk := hsr s rfl
  refine Agreeing.settle ?_
  unfold Server.after
  cases hrs : serve env r s with
  | ok a s' =>
    rw [hrs] at hk
    exact hk
  | error e s' =>
    rw [hrs] at hk
    exact hk

lemma Idle.completeAll (hs : Idle env s) {rs : List Request} (hr : s.Followed env rs) :
    Idle env (s.completeAll env rs) := by
  induction rs generalizing s with
  | nil => exact hs
  | cons r rs ih => exact ih (hs.complete hr.1) hr.2

theorem index_agrees (env : Settings) (s : Server) (rs : List Request) (hquiet : s.pending = []) (hnamed : s.Named)
    (hagrees : s.Agrees) (hrun : s.Followed env rs) : (s.completeAll env rs).Agrees := by
  have hs : s.settled env = s.index := by rw [Server.settled, hquiet, foldl_nil]
  have hi : Idle env s := ⟨⟨hnamed, fun idx id => by rw [hs]; exact hagrees idx id⟩, hquiet⟩
  intro idx id
  exact (hi.completeAll hrun).present idx id

def freshServer : Server where
  actors := ⟨Shelf.empty, Shelf.empty.put .copying "ada" (Shelf.empty.fresh (Actors.adminUser "ada"))⟩
  nodes := ∅
  roles := ∅
  environments := ∅
  bags := ∅
  index := noDocuments
  pending := []

lemma freshServer_named : freshServer.Named where
  nodes _ _ h := by cases h
  roles _ _ h := by cases h
  environments _ _ h := by cases h
  clients := Shelf.tidy_empty
  bags _ _ h := by cases h

lemma lookup_noDocuments {idx : Text} {c : Search.IdxCollection} (hc : noDocuments.idxmap.lookup idx = some c) :
    c = Collection.empty := by
  obtain ⟨l₁, l₂, hl, -⟩ := lookup_eq_some_iff.mp hc
  have hm : (idx, c) ∈ noDocuments.idxmap := by rw [hl]; simp
  obtain ⟨_, -, he⟩ := mem_map.mp hm
  exact (congrArg Prod.snd he).symm

lemma freshServer_agrees : freshServer.Agrees := by
  intro idx id
  have hd : document noDocuments idx id = none := by
    rw [document]
    cases hc : noDocuments.idxmap.lookup idx with
    | none => rfl
    | some c => rw [lookup_noDocuments hc]; rfl
  have hn : freshServer.names idx id = false := by
    unfold Server.names
    split <;> [rfl; skip]
    split <;> [rfl; skip]
    split <;> [rfl; skip]
    split <;> rfl
  rw [hn]
  exact congrArg Option.isSome hd

def adaAsks (o : Operation) : Request := ⟨"ada", o, Actors.noDraw⟩

def named (name : String) : JsonMap := [(nameField, .str name.toList)]

def keyed (name : String) : JsonMap := (Actors.publicKeyField, .str "key") :: named name

theorem index_agrees_ada : (freshServer.completeAll plainSettings [adaAsks (.createNode (.ok (some (named "web")))),
      adaAsks (.putClient "web" (.ok none)), adaAsks (.deleteNode "web")]).Agrees := by
  refine index_agrees plainSettings freshServer _ rfl freshServer_named freshServer_agrees ⟨?_, ?_, ?_, trivial⟩
  · rintro ⟨op, -, h⟩
    exact h
  · rintro ⟨op, -, data, h, newName, -, hg, -⟩
    cases hg
  · rintro ⟨op, -, h⟩
    exact h

theorem index_disagrees : freshServer.Agrees ∧
    ¬ (freshServer.completeAll plainSettings [adaAsks (.createClient (.ok (some (keyed "web")))),
      adaAsks (.putClient "web" (.ok (some (named "www"))))]).Agrees ∧
    ¬ (freshServer.completeAll plainSettings [adaAsks (.createBag (.ok (some (named "node")))),
      adaAsks (.createItem "node" webItem)]).Agrees ∧
    ¬ (freshServer.completeAll plainSettings [adaAsks (.createBag (.ok (some (named "apps")))),
      adaAsks (.createItem "apps" webItem), adaAsks (.putItem "apps" "web" [])]).Agrees := by
  refine ⟨freshServer_agrees, fun h => ?_, fun h => ?_, fun h => ?_⟩
  · exact absurd (h "client" "web") (by decide +kernel)
  · exact absurd (h "node" "web") (by decide +kernel)
  · exact absurd (h "apps" "data_bag_item__web") (by decide +kernel)

end Goiardi.Indexing
