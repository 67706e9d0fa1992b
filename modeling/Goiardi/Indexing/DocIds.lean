import Goiardi.Indexing.Runs

/-! The document of a data bag item: where its key is the key of the item in the bag. -/

namespace Goiardi.Indexing

open Validation Uploads DataBags List AList

abbrev Bags := AList fun _ : Text => DataBag

inductive BagRequest
  | create (name : Text)
  | delete (name : Text)
  | item (bag : Text) (r : ItemRequest)

def BagRequest.serve (bags : Bags) : BagRequest → Except Fault Bags
  | create name => do
    demand (bags.lookup name).isNone (.refused ⟨"Data bag " ++ name ++ " already exists.", 409⟩)
    demand (validateDBagName name = true) (fieldInvalid nameField)
    return bags.insert name ⟨name, ∅⟩
  | delete name => do
    demand (bags.lookup name).isSome (.refused ⟨"Cannot load data bag " ++ name, 404⟩)
    return bags.erase name
  | item bag r => do
    let db ← r.serve bag (bags.lookup bag)
    return bags.insert db.name db

def BagRequest.after (r : BagRequest) (bags : Bags) : Bags := (r.serve bags).toOption.getD bags

/-- The document that is indexed for an item is the one that deleting it removes and that a search looks up. -/
def Keyed (bags : Bags) : Prop := ∀ b db k item, bags.lookup b = some db → db.items.lookup k = some item →
  (Object.item item).docID = k ∧ (Object.item item).index = b

def AlwaysKeyed : Bags → List BagRequest → Prop
  | bags, [] => Keyed bags
  | bags, r :: rs => Keyed bags ∧ AlwaysKeyed (r.after bags) rs

/-- An item that is there is replaced by data without an `id`. -/
def BagRequest.DropsId (bags : Bags) (r : BagRequest) : Prop :=
  ∃ bag id body data db, r = .item bag (.put id body) ∧ bags.lookup bag = some db ∧
    (db.items.lookup id).isSome = true ∧ rawDataBagJSON body = .ok data ∧ data.lookup idField = none

def KeepsIds : Bags → List BagRequest → Prop
  | _, [] => True
  | bags, r :: rs => ¬ r.DropsId bags ∧ KeepsIds (r.after bags) rs

def AllItems (P : Text → Text → DataBagItem → Prop) (bags : Bags) : Prop :=
  ∀ b db, bags.lookup b = some db → db.name = b ∧ ∀ k item, db.items.lookup k = some item → P b k item

def Filed (b k : Text) (item : DataBagItem) : Prop :=
  item.dataBagName = b ∧ item.name = "data_bag_item_" ++ b ++ '_' :: k

variable {bags : Bags} {r : BagRequest} {b id k : Text} {db db' : DataBag} {data : JsonMap} {item : DataBagItem}

section

variable {P : Text → DataBagItem → Prop} {q : ItemRequest}

lemma forall_insert (h : ∀ k item, db.items.lookup k = some item → P k item) (hn : P id item) :
    ∀ k item', (db.items.insert id item).lookup k = some item' → P k item' := by
  intro k item' hk
  by_cases he : k = id
  · rw [he, lookup_insert] at hk
    cases hk
    exact he ▸ hn
  · exact h k item' (lookup_insert_ne he ▸ hk)

lemma change_items (h : q.change db = .ok db') (hi : ∀ k item, db.items.lookup k = some item → P k item)
    (hn : ∀ id data, itemId data = .ok id → P id (db.newItem id data))
    (hp : ∀ id body data item, q = .put id body → rawDataBagJSON body = .ok data →
      ItemRequest.checkId id data = .ok () → db.items.lookup id = some item → P id { item with rawData := data }) :
    db'.name = db.name ∧ ∀ k item, db'.items.lookup k = some item → P k item := by
  cases q with
  | post body =>
    obtain ⟨data, -, h⟩ := bind_eq_ok h
    obtain ⟨id, hid, h⟩ := bind_eq_ok h
    obtain ⟨-, -, h⟩ := bind_eq_ok h
    obtain ⟨-, -, h⟩ := bind_eq_ok h
    cases h
    exact ⟨rfl, forall_insert hi (hn id data hid)⟩
  | put id body =>
    obtain ⟨-, -, h⟩ := bind_eq_ok h
    obtain ⟨data, hd, h⟩ := bind_eq_ok h
    obtain ⟨⟨⟩, hc, h⟩ := bind_eq_ok h
    rw [DataBag.updateDBItem] at h
    split at h
    · cases h
    · next item hl =>
      cases h
      exact ⟨rfl, forall_insert hi (hp id body data item rfl hd hc hl)⟩
  | delete id =>
    obtain ⟨-, -, h⟩ := bind_eq_ok h
    cases h
    refine ⟨rfl, fun k item hk => ?_⟩
    by_cases he : k = id
    · rw [DataBag.deleteDBItem, he, lookup_erase] at hk
      cases hk
    · exact hi k item (lookup_erase_ne he ▸ hk)

end

lemma AllItems.after {P : Text → Text → DataBagItem → Prop} (h : AllItems P bags)
    (hnw : ∀ items b id data, itemId data = .ok id → P b id (DataBag.newItem ⟨b, items⟩ id data))
    (hp : ∀ b db id body data item, r = .item b (.put id body) → rawDataBagJSON body = .ok data →
      ItemRequest.checkId id data = .ok () → bags.lookup b = some db → db.items.lookup id = some item → P b id item →
      P b id { item with rawData := data }) : AllItems P (r.after bags) := by
  have hin (db : DataBag) (hi : ∀ k item, db.items.lookup k = some item → P db.name k item) :
      AllItems P (bags.insert db.name db) := by
    intro b db' hb
    by_cases hn : b = db.name
    · rw [hn, lookup_insert] at hb
      cases hb
      exact ⟨hn.symm, hn ▸ hi⟩
    · exact h b db' (lookup_insert_ne hn ▸ hb)
  rw [BagRequest.after]
  cases hr : r.serve bags with
  | error e => exact h
  | ok bags' =>
    cases r with
    | create name =>
      obtain ⟨-, -, hr⟩ := bind_eq_ok hr
      obtain ⟨-, -, hr⟩ := bind_eq_ok hr
      cases hr
      exact hin ⟨name, ∅⟩ fun k item hk => by cases hk
    | delete name =>
      obtain ⟨-, -, hr⟩ := bind_eq_ok hr
      cases hr
      intro b db hb
      by_cases he : b = name
      · rw [Except.toOption, Option.getD_some, he, lookup_erase] at hb
        cases hb
      · exact h b db (lookup_erase_ne he ▸ hb)
    | item bag q =>
      obtain ⟨db', hq, hr⟩ := bind_eq_ok hr
      cases hr
      cases hb : bags.lookup bag with
      | none =>
        rw [hb] at hq
        cases hq
      | some db =>
        rw [hb] at hq
        obtain ⟨rfl, hi⟩ := h bag db hb
        obtain ⟨hn, hi'⟩ := change_items hq hi (fun id data => hnw db.items db.name id data)
          fun id body data item he hd hc hl => hp db.name db id body data item (he ▸ rfl) hd hc hb hl (hi id item hl)
        exact hin db' (hn ▸ hi')

lemma AllItems.filed (h : AllItems Filed bags) (r : BagRequest) : AllItems Filed (r.after bags) :=
  h.after (fun _ _ _ _ _ => ⟨rfl, rfl⟩) fun _ _ _ _ _ _ _ _ _ _ _ hf => hf

lemma length_le_removeFirst (sub t : Text) : t.length ≤ (removeFirst sub t).length + sub.length := by
  induction t with
  | nil => exact Nat.zero_le _
  | cons c t ih =>
    rw [removeFirst]
    split
    · simp only [length_drop]
      omega
    · simp only [length_cons]
      omega

-- without an `id` the key is what is left of the full name, which is longer
lemma Filed.docID_ne (h : Filed b k item) (hd : lookupField item.rawData idField = .null) : itemDocID item ≠ k := by
  intro he
  rw [itemDocID, hd] at he
  have hl := length_le_removeFirst item.dataBagName item.name
  rw [show removeFirst item.dataBagName item.name = k from he, h.1, h.2] at hl
  simp at hl
  omega

lemma AllItems.keyed (h : AllItems (fun b k item => Filed b k item ∧ itemDocID item = k) bags) : Keyed bags :=
  fun b db k item hb hk => ⟨((h b db hb).2 k item hk).2, ((h b db hb).2 k item hk).1.1⟩

lemma keyed_after_iff (hf : AllItems Filed bags) (hk : Keyed bags) : Keyed (r.after bags) ↔ ¬ r.DropsId bags := by
  constructor
  · rintro h ⟨bag, id, body, data, db, rfl, hb, hi, hd, hn⟩
    obtain ⟨item, hl⟩ := Option.isSome_iff_exists.mp hi
    obtain ⟨rfl, hit⟩ := hf bag db hb
    have hc : ItemRequest.checkId id data = .ok () := by rw [ItemRequest.checkId, hn]
    have hs : (BagRequest.item db.name (.put id body)).serve bags =
        .ok (bags.insert db.name { db with items := db.items.insert id { item with rawData := data } }) := by
      simp only [BagRequest.serve, ItemRequest.serve, ItemRequest.change, DataBag.updateDBItem, demand, hb, hl, hd, hc,
        Option.isSome_some, if_true, ok_bind]
      rfl
    rw [BagRequest.after, hs] at h
    have hfl : Filed db.name id { item with rawData := data } := hit id item hl
    exact hfl.docID_ne (by rw [lookupField, hn]; rfl) (h db.name _ id _ (lookup_insert _) (lookup_insert _)).1
  · intro hdr
    refine AllItems.keyed (AllItems.after (fun b db hb => ⟨(hf b db hb).1, fun k item hi =>
      ⟨(hf b db hb).2 k item hi, (hk b db k item hb hi).1⟩⟩) (fun _ _ id data hid => ⟨⟨rfl, rfl⟩, ?_⟩) ?_)
    · exact itemDocID_of_lookup (itemId_ok hid)
    · intro b db id body data item hr hd hc hb hl hP
      refine ⟨hP.1, itemDocID_of_lookup ?_⟩
      rw [ItemRequest.checkId] at hc
      rw [lookupField]
      split at hc
      · next hn => exact absurd ⟨b, id, body, data, db, hr, hb, by rw [hl]; rfl, hd, hn⟩ hdr
      · next t hs =>
        rw [demand] at hc
        split at hc
        · next he => rw [hs, ← he]; rfl
        · cases hc
      · cases hc

/-- Along a run the document of every item has the item's key exactly if no item is replaced by data without an `id`. -/
theorem alwaysKeyed_iff (rs : List BagRequest) : AlwaysKeyed ∅ rs ↔ KeepsIds ∅ rs := by
  have hrn : ∀ bags, AllItems Filed bags → Keyed bags → (AlwaysKeyed bags rs ↔ KeepsIds bags rs) := by
    induction rs with
    | nil => exact fun _ _ hk => iff_of_true hk trivial
    | cons r rs ih =>
      intro bags hf hk
      rw [AlwaysKeyed, and_iff_right hk, KeepsIds, ← keyed_after_iff hf hk]
      by_cases hr : Keyed (r.after bags)
      · rw [and_iff_right hr, ih _ (hf.filed r) hr]
      · refine iff_of_false (fun h => hr ?_) fun h => hr h.1
        cases rs with
        | nil => exact h
        | cons r' rs => exact h.1
  exact hrn ∅ (fun _ _ h => by cases h) fun _ _ _ _ h => by cases h

theorem not_alwaysKeyed : ¬ AlwaysKeyed ∅
    [.create "apps", .item "apps" (.post [(idField, .str "x")]), .item "apps" (.put "x" [])] := by
  intro h
  exact absurd (h.2.2.2 "apps" ⟨"apps", AList.singleton "x" ⟨"data_bag_item_apps_x", "data_bag_item", "Chef::DataBagItem",
    "apps", []⟩⟩ "x" _ rfl rfl).1 (by decide +kernel)

end Goiardi.Indexing
