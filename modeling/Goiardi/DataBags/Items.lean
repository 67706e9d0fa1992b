import Goiardi.Base.Transactions
import Goiardi.Cookbooks.Uploads

/-! Data bags, and the requests that create, replace and delete their items. -/

namespace Goiardi.DataBags

open Validation Uploads AList

structure DataBagItem where
  name : Text
  chefType : Text
  jsonClass : Text
  dataBagName : Text
  rawData : JsonMap

structure DataBag where
  name : Text
  items : AList fun _ : Text => DataBagItem

def idField : Text := "id"

def rawDataField : Text := "raw_data"

def validateDBagName (name : Text) : Bool :=
  name.all fun c => c.isAlphanum || c = '_' || c = '.' || c = ':' || c = '-'

def rawDataBagJSON (body : JsonMap) : Except Fault JsonMap :=
  match body.lookup rawDataField with
  | none => .ok body
  | some (.obj rawData) => .ok rawData
  | some _ => .error (.panic .typeAssertion)

def itemId (data : JsonMap) : Except Fault Text :=
  match lookupField data idField with
  | .str t => if t = [] then .error (refuse "Field 'id' missing") else .ok t
  | _ => .error (refuse "Field 'id' missing")

namespace DataBag

def itemExists (db : DataBag) (id : Text) : Fault :=
  .refused ⟨"Data Bag Item '" ++ id ++ "' already exists in Data Bag '" ++ db.name ++ "'.", 409⟩

def newItem (db : DataBag) (id : Text) (data : JsonMap) : DataBagItem where
  name := "data_bag_item_" ++ db.name ++ '_' :: id
  chefType := "data_bag_item"
  jsonClass := "Chef::DataBagItem"
  dataBagName := db.name
  rawData := data

def newDBItem (data : JsonMap) (db : DataBag) : Except Fault DataBag := do
  let id ← itemId data
  demand (validateDBagName id = true) (fieldInvalid idField)
  demand (db.items.lookup id).isNone (db.itemExists id)
  return { db with items := db.items.insert id (db.newItem id data) }

def updateDBItem (id : Text) (data : JsonMap) (db : DataBag) : Except Fault DataBag :=
  match db.items.lookup id with
  | none => .error (.refused ⟨"data bag item " ++ id ++ " in " ++ db.name ++ " not found", 500⟩)
  | some item => .ok { db with items := db.items.insert id { item with rawData := data } }

def deleteDBItem (id : Text) (db : DataBag) : DataBag := { db with items := db.items.erase id }

end DataBag

inductive ItemRequest
  | post (body : JsonMap)
  | put (id : Text) (body : JsonMap)
  | delete (id : Text)

namespace ItemRequest

def cannotLoad (message : Text) : Fault := .refused ⟨message, 404⟩

-- the `id` in the raw data of a `PUT` may be absent
def checkId (id : Text) (data : JsonMap) : Except Fault Unit :=
  match data.lookup idField with
  | none => .ok ()
  | some (.str t) => demand (t = id) (refuse "DataBagItem name mismatch.")
  | some _ => .error (refuse "Bad request")

def change (db : DataBag) : ItemRequest → Except Fault DataBag
  | post body => do
    let data ← rawDataBagJSON body
    db.newDBItem data
  | put id body => do
    demand (db.items.lookup id).isSome
      (cannotLoad ("Cannot load data bag item " ++ id ++ " for data bag " ++ db.name))
    let data ← rawDataBagJSON body
    checkId id data
    db.updateDBItem id data
  | delete id => do
    demand (db.items.lookup id).isSome
      (cannotLoad ("Cannot load data bag " ++ db.name ++ " item " ++ id))
    return db.deleteDBItem id

def noBag (name : Text) : ItemRequest → Fault
  | post _ => cannotLoad ("No data bag '" ++ name ++
      "' could be found. Please create this data bag before adding items to it.")
  | put id _ => cannotLoad ("Cannot load data bag item " ++ id ++ " for data bag " ++ name)
  | delete id => cannotLoad ("Cannot load data bag " ++ name ++ " item " ++ id)

def serve (name : Text) (r : ItemRequest) : Option DataBag → Except Fault DataBag
  | none => .error (r.noBag name)
  | some db => r.change db

def key : ItemRequest → Text
  | post body => ((rawDataBagJSON body >>= itemId).toOption).getD []
  | put id _ | delete id => id

def toUpdate (name : Text) (r : ItemRequest) : Update (Option DataBag) Text where
  key := r.key
  writes s := ((r.serve name s).toOption.map some).toList
  succeeds s := (r.serve name s).isOk

end ItemRequest

def look (s : Option DataBag) (id : Text) : Option DataBagItem := s.bind fun db => db.items.lookup id

def ItemRequest.Reflected (start : Option DataBag) (db : DataBag) (final : Option DataBag) : ItemRequest → Prop
  | post body => ∃ data, rawDataBagJSON body = .ok data ∧
      look final (post body).key = some (db.newItem (post body).key data)
  | put id body => ∃ data item, rawDataBagJSON body = .ok data ∧ look start id = some item ∧
      look final id = some { item with rawData := data }
  | delete id => look final id = none

variable {name : Text} {db db' : DataBag} {r : ItemRequest} {start start' final final' : Option DataBag}

lemma ItemRequest.Reflected.congr (h : r.Reflected start db final) (hs : look start' r.key = look start r.key)
    (hf : look final' r.key = look final r.key) : r.Reflected start' db final' := by
  cases r with
  | post body =>
    obtain ⟨data, hd, hl⟩ := h
    exact ⟨data, hd, hf.trans hl⟩
  | put id body =>
    obtain ⟨data, item, hd, hi, hl⟩ := h
    exact ⟨data, item, hd, hs.trans hi, hf.trans hl⟩
  | delete id => exact hf.trans h

lemma change_spec (h : r.change db = .ok db') :
    r.Reflected (some db) db (some db') ∧ ∀ k, k ≠ r.key → look (some db') k = look (some db) k := by
  cases r with
  | post body =>
    obtain ⟨data, hd, h⟩ := bind_eq_ok h
    obtain ⟨id, hid, h⟩ := bind_eq_ok h
    obtain ⟨-, -, h⟩ := bind_eq_ok h
    obtain ⟨-, -, h⟩ := bind_eq_ok h
    cases h
    have hky : (ItemRequest.post body).key = id := by
      rw [ItemRequest.key, hd]
      show ((itemId data).toOption).getD [] = id
      rw [hid]
      rfl
    rw [hky]
    refine ⟨⟨data, hd, ?_⟩, fun k hk => lookup_insert_ne hk⟩
    rw [hky]
    exact lookup_insert _
  | put id body =>
    obtain ⟨-, -, h⟩ := bind_eq_ok h
    obtain ⟨data, hd, h⟩ := bind_eq_ok h
    obtain ⟨-, -, h⟩ := bind_eq_ok h
    rw [DataBag.updateDBItem] at h
    split at h
    · cases h
    · next item hi =>
      cases h
      exact ⟨⟨data, item, hd, hi, lookup_insert _⟩, fun k hk => lookup_insert_ne hk⟩
  | delete id =>
    obtain ⟨-, -, h⟩ := bind_eq_ok h
    cases h
    exact ⟨lookup_erase id db.items, fun k hk => lookup_erase_ne hk⟩

lemma toUpdate_local (name : Text) (r : ItemRequest) : (r.toUpdate name).Local look := by
  intro s w hw k hk
  cases s with
  | none => cases hw
  | some db =>
    simp only [ItemRequest.toUpdate, ItemRequest.serve] at hw
    cases hc : r.change db with
    | error e =>
      rw [hc] at hw
      cases hw
    | ok db' =>
      rw [hc] at hw
      obtain rfl := List.mem_singleton.mp hw
      exact (change_spec hc).2 k hk

lemma toUpdate_outcome (r : ItemRequest) {v : Option DataBag} (hok : (r.toUpdate name).succeeds v = true) :
    ∃ db, v = some db ∧ r.Reflected v db ((r.toUpdate name).outcome v) := by
  cases v with
  | none => cases hok
  | some db =>
    simp only [ItemRequest.toUpdate, ItemRequest.serve] at hok
    cases hc : r.change db with
    | error e =>
      rw [hc] at hok
      cases hok
    | ok db' =>
      refine ⟨db, rfl, ?_⟩
      simp only [Update.outcome, ItemRequest.toUpdate, ItemRequest.serve, hc]
      exact (change_spec hc).1

end Goiardi.DataBags
