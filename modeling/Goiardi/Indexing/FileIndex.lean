import Goiardi.Search.Execute

/-! The operations that change the in-memory search index. -/

namespace Goiardi.Indexing

open Search List

/-- An object as the indexer sees it: the collection it belongs to, the key of its document, and the lines that
`Flatten` and `Indexify` make of it. -/
structure Indexable where
  index : Text
  docID : Text
  lines : List Text

def builtins : List Text := ["node", "client", "environment", "role"]

namespace Collection

def blank : IdxDoc := ⟨.error "unexpected EOF", .error "unexpected EOF"⟩

def find (c : IdxCollection) (id : Text) : Option IdxDoc := c.docs.lookup id

def empty : IdxCollection := ⟨[], nodup_nil⟩

lemma nodup_filter (c : IdxCollection) (id : Text) : ((c.docs.filter fun p => p.1 ≠ id).map Prod.fst).Nodup :=
  c.nodup.sublist (filter_sublist.map _)

def put (c : IdxCollection) (id : Text) (d : IdxDoc) : IdxCollection :=
  ⟨(id, d) :: c.docs.filter fun p => p.1 ≠ id, by
    rw [map_cons, nodup_cons]
    exact ⟨by simp, nodup_filter c id⟩⟩

def delDoc (id : Text) (c : IdxCollection) : IdxCollection := ⟨c.docs.filter fun p => p.1 ≠ id, nodup_filter c id⟩

/-- `build` makes a document of the lines of an object. It makes none of no lines: the construction of the trie panics,
`update` recovers, and the document stays as it is. -/
def addDoc (build : List Text → Option IdxDoc) (o : Indexable) (c : IdxCollection) : IdxCollection :=
  put c o.docID ((build o.lines).getD ((find c o.docID).getD blank))

lemma find_put (c : IdxCollection) (id k : Text) (d : IdxDoc) :
    find (put c id d) k = if k = id then some d else find c k := by
  rw [find, put, lookup_cons]
  by_cases hk : k = id
  · simp [hk]
  · have hk' : (k == id) = false := by simpa using hk
    rw [hk', if_neg hk]
    exact lookup_filter_ne _ hk

lemma find_delDoc (c : IdxCollection) (id k : Text) : find (delDoc id c) k = if k = id then none else find c k := by
  by_cases hk : k = id
  · rw [if_pos hk, hk]
    exact lookup_filter_self _
  · rw [if_neg hk]
    exact lookup_filter_ne _ hk

end Collection

section

variable (i : FileIndex)

def set (idx : Text) (c : IdxCollection) : FileIndex := ⟨(idx, c) :: i.idxmap.filter fun p => p.1 ≠ idx⟩

def createCollection (idx : Text) : FileIndex :=
  match i.idxmap.lookup idx with
  | some _ => i
  | none => set i idx Collection.empty

def defaultIndexText (idx : Text) : Text := idx ++ " is a default search index, cannot be deleted."

def deleteCollection (idx : Text) : Except Text FileIndex :=
  if idx ∈ builtins then .error (defaultIndexText idx) else .ok ⟨i.idxmap.filter fun p => p.1 ≠ idx⟩

def saveItem (build : List Text → Option IdxDoc) (o : Indexable) : FileIndex :=
  set i o.index (Collection.addDoc build o ((i.idxmap.lookup o.index).getD Collection.empty))

def deleteItem (idx doc : Text) : Except Text FileIndex :=
  match i.idxmap.lookup idx with
  | none => .error ("Index collection " ++ idx ++ " not found")
  | some c => .ok (set i idx (Collection.delDoc doc c))

def attempt (i : FileIndex) (r : Except Text FileIndex) : FileIndex := r.toOption.getD i

lemma lookup_set (idx k : Text) (c : IdxCollection) :
    (set i idx c).idxmap.lookup k = if k = idx then some c else i.idxmap.lookup k := by
  rw [set, lookup_cons]
  by_cases hk : k = idx
  · simp [hk]
  · have hk' : (k == idx) = false := by simpa using hk
    rw [hk', if_neg hk]
    exact lookup_filter_ne _ hk

lemma lookup_createCollection (idx k : Text) :
    (createCollection i idx).idxmap.lookup k =
      if k = idx then some ((i.idxmap.lookup idx).getD Collection.empty) else i.idxmap.lookup k := by
  unfold createCollection
  split
  · next c hc =>
    split
    · next hk => rw [hk, hc, Option.getD_some]
    · rfl
  · next hc => rw [lookup_set, hc, Option.getD_none]

lemma lookup_deleteCollection (idx k : Text) :
    (attempt i (deleteCollection i idx)).idxmap.lookup k =
      if k = idx ∧ idx ∉ builtins then none else i.idxmap.lookup k := by
  unfold deleteCollection
  split
  · next hb => rw [if_neg fun h => h.2 hb]; rfl
  · next hb =>
    by_cases hk : k = idx
    · rw [if_pos ⟨hk, hb⟩, hk]
      exact lookup_filter_self _
    · rw [if_neg fun h => hk h.1]
      exact lookup_filter_ne _ hk

lemma lookup_saveItem (build : List Text → Option IdxDoc) (o : Indexable) (k : Text) :
    (saveItem i build o).idxmap.lookup k =
      if k = o.index then some (Collection.addDoc build o ((i.idxmap.lookup o.index).getD Collection.empty))
      else i.idxmap.lookup k := lookup_set ..

lemma lookup_deleteItem (idx doc k : Text) :
    (attempt i (deleteItem i idx doc)).idxmap.lookup k =
      if k = idx then (i.idxmap.lookup idx).map (Collection.delDoc doc) else i.idxmap.lookup k := by
  unfold deleteItem
  split
  · next hc =>
    split
    · next hk => rw [hk, hc]; exact hc
    · rfl
  · next c hc =>
    rw [hc]
    exact lookup_set ..

def document (idx id : Text) : Option IdxDoc := (i.idxmap.lookup idx).bind fun c => Collection.find c id

lemma document_saveItem (build : List Text → Option IdxDoc) (o : Indexable) (idx id : Text) :
    document (saveItem i build o) idx id =
      if idx = o.index ∧ id = o.docID then some ((build o.lines).getD ((document i idx id).getD Collection.blank))
      else document i idx id := by
  rw [document, lookup_saveItem, document]
  by_cases hi : idx = o.index
  · rw [if_pos hi, Option.bind_some, Collection.addDoc, Collection.find_put, ← hi]
    by_cases hd : id = o.docID
    · rw [if_pos hd, if_pos ⟨rfl, hd⟩, hd]
      cases i.idxmap.lookup idx <;> rfl
    · rw [if_neg hd, if_neg fun h => hd h.2]
      cases i.idxmap.lookup idx <;> rfl
  · rw [if_neg hi, if_neg fun h => hi h.1]

lemma document_deleteItem (idx doc k id : Text) :
    document (attempt i (deleteItem i idx doc)) k id = if k = idx ∧ id = doc then none else document i k id := by
  rw [document, lookup_deleteItem, document]
  by_cases hk : k = idx
  · subst hk
    rw [if_pos rfl]
    by_cases hd : id = doc
    · subst hd
      rw [if_pos ⟨rfl, rfl⟩]
      cases i.idxmap.lookup k with
      | none => rfl
      | some c => exact (Collection.find_delDoc c id id).trans (if_pos rfl)
    · rw [if_neg fun h => hd h.2]
      cases i.idxmap.lookup k with
      | none => rfl
      | some c => exact (Collection.find_delDoc c doc id).trans (if_neg hd)
  · rw [if_neg hk, if_neg fun h => hk h.1]

end

end Goiardi.Indexing
